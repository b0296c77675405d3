import PackIndex.Manifest.Reader
import PackIndex.Proofs.Result

/-!
# The entries of a manifest

Every entry that is read from a manifest is made of a descriptor, which it carries along, and has a
positive version.
-/

namespace PackIndex

namespace Checked

variable {α β : Type} {b : β}

theorem apply_eq_ok_iff {f : Checked (α → β)} {x : Checked α} :
    apply f x = .ok b ↔ ∃ g a, f = .ok g ∧ x = .ok a ∧ g a = b := by
  cases f <;> cases x <;> simp [apply]

theorem within_eq_ok_iff {p : Place} {x : Checked α} {a : α} : within p x = .ok a ↔ x = .ok a :=
  mapError_eq_ok_iff

theorem required_eq_ok {fields : Fields} {name : String} {check : Value → Checked α} {a : α}
    (h : required fields name check = .ok a) : ∃ v, check v = .ok a := by
  rw [required, within_eq_ok_iff] at h
  split at h
  · next v _ => exact ⟨v, h⟩
  · cases h

theorem mem_items {check : Value → Checked α} {n : Nat} {vs : List Value} {as : List α} {a : α}
    (h : items check n vs = .ok as) (ha : a ∈ as) : ∃ v ∈ vs, check v = .ok a := by
  induction vs generalizing n as with
  | nil =>
    obtain rfl := Except.ok.inj h
    cases ha
  | cons v rest ih =>
    simp only [items, apply_eq_ok_iff, within_eq_ok_iff] at h
    obtain ⟨_, others, ⟨_, first, ⟨⟩, hfirst, rfl⟩, hothers, rfl⟩ := h
    rcases List.mem_cons.mp ha with rfl | ha
    · exact ⟨v, List.mem_cons_self, hfirst⟩
    · obtain ⟨w, hw, hcheck⟩ := ih hothers ha
      exact ⟨w, List.mem_cons_of_mem _ hw, hcheck⟩

theorem mem_sequence {kind : IssueKind} {check : Value → Checked α} {v : Value} {as : List α}
    {a : α} (h : sequence kind check v = .ok as) (ha : a ∈ as) : ∃ w, check w = .ok a := by
  unfold sequence at h
  split at h
  · obtain ⟨w, -, hw⟩ := mem_items h ha
    exact ⟨w, hw⟩
  · obtain ⟨w, -, hw⟩ := mem_items h ha
    exact ⟨w, hw⟩
  · cases h

theorem isPositive_of_positiveNumber {v : Value} {x : Binary64}
    (h : positiveNumber v = .ok x) : x.isPositive = true := by
  obtain ⟨y, -, hy⟩ := bind_eq_ok_iff.mp h
  split at hy
  · next hpos => exact Except.ok.inj hy ▸ hpos
  · cases hy

end Checked

namespace Manifest

def Describes : PackKind → ManifestEntry → Prop
  | .variants, e => ∃ v d, variant v = .ok d ∧ e = variantEntry d
  | .symbols, e => ∃ v d, symbolPack v = .ok d ∧ e = symbolPackEntry d

theorem required_of_variant {v : Value} {d : VariantDescriptor} (h : variant v = .ok d) :
    ∃ fields, Checked.required fields "name" Checked.trimmedNonEmpty = .ok d.name ∧
      Checked.required fields "version" Checked.positiveNumber = .ok d.version := by
  obtain ⟨fields, -, h⟩ := bind_eq_ok_iff.mp h
  simp only [Checked.apply_eq_ok_iff] at h
  obtain ⟨_, _, ⟨_, _, ⟨_, _, ⟨_, _, ⟨_, version, ⟨_, name, ⟨⟩, hname, rfl⟩, hversion, rfl⟩, _, rfl⟩,
    _, rfl⟩, _, rfl⟩, _, rfl⟩ := h
  exact ⟨fields, hname, hversion⟩

theorem isPositive_of_variant {v : Value} {d : VariantDescriptor} (h : variant v = .ok d) :
    d.version.isPositive = true := by
  obtain ⟨fields, -, hversion⟩ := required_of_variant h
  obtain ⟨w, hw⟩ := Checked.required_eq_ok hversion
  exact Checked.isPositive_of_positiveNumber hw

theorem isPositive_of_symbolPack {v : Value} {d : SymbolPackDescriptor}
    (h : symbolPack v = .ok d) : d.version.isPositive = true := by
  obtain ⟨fields, -, h⟩ := bind_eq_ok_iff.mp h
  simp only [Checked.apply_eq_ok_iff] at h
  obtain ⟨_, _, ⟨_, _, ⟨_, _, ⟨_, version, ⟨_, _, ⟨⟩, _, rfl⟩, hversion, rfl⟩, _, rfl⟩, _, rfl⟩,
    _, rfl⟩ := h
  obtain ⟨w, hw⟩ := Checked.required_eq_ok hversion
  exact Checked.isPositive_of_positiveNumber hw

theorem Describes.isPositive {kind : PackKind} {e : ManifestEntry} (h : Describes kind e) :
    e.version.isPositive = true := by
  cases kind with
  | variants =>
    obtain ⟨v, d, hd, rfl⟩ := h
    exact isPositive_of_variant hd
  | symbols =>
    obtain ⟨v, d, hd, rfl⟩ := h
    exact isPositive_of_symbolPack hd

theorem describes_of_mem_entries {kind : PackKind} {v : Value} {found : List ManifestEntry}
    (h : entries kind v = .ok found) {e : ManifestEntry} (he : e ∈ found) : Describes kind e := by
  cases kind with
  | variants =>
    obtain ⟨fields, -, h⟩ := bind_eq_ok_iff.mp h
    obtain ⟨ds, hds, rfl⟩ := map_eq_ok_iff.mp h
    obtain ⟨list, hlist⟩ := Checked.required_eq_ok hds
    obtain ⟨d, hd, rfl⟩ := List.mem_map.mp he
    obtain ⟨w, hw⟩ := Checked.mem_sequence hlist hd
    exact ⟨w, d, hw, rfl⟩
  | symbols =>
    obtain ⟨d, hd, rfl⟩ := map_eq_ok_iff.mp h
    exact ⟨v, d, hd, List.mem_singleton.mp he⟩

end Manifest

end PackIndex
