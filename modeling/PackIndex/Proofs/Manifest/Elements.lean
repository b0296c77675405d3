import Mathlib.Data.List.Forall2
import PackIndex.Proofs.Manifest.Entries
import PackIndex.Proofs.Text.Trim
import PackIndex.Proofs.Version.Order

/-!
# Manifests element by element

A manifest of variants is accepted exactly if each of its elements is, and then lists their entries
one after the other. If it is not, every element that is at fault is reported as it is by itself, at
its own position.
-/

namespace PackIndex

theorem exists_forall₂_iff {α β : Type} {r : α → β → Prop} {xs : List α} :
    (∃ ys, List.Forall₂ r xs ys) ↔ ∀ x ∈ xs, ∃ y, r x y := by
  induction xs with
  | nil => simp
  | cons x rest ih =>
    rw [List.forall_mem_cons, ← ih]
    simp only [List.forall₂_cons_left_iff]
    constructor
    · rintro ⟨_, y, ys, hy, hys, -⟩
      exact ⟨⟨y, hy⟩, ys, hys⟩
    · rintro ⟨⟨y, hy⟩, ys, hys⟩
      exact ⟨_, y, ys, hy, hys, rfl⟩

def Issue.atPosition (n : Nat) (i : Issue) : Issue :=
  match i.place with
  | outer :: .index _ :: inner => ⟨outer :: .index n :: inner, i.kind⟩
  | _ => i

namespace Checked

variable {α β : Type}

def issues : Checked α → List Issue
  | .ok _ => []
  | .error found => found

@[simp] theorem issues_ok (a : α) : issues (.ok a : Checked α) = [] := rfl

@[simp] theorem issues_error (found : List Issue) : issues (.error found : Checked α) = found := rfl

@[simp] theorem issues_apply (f : Checked (α → β)) (x : Checked α) :
    (apply f x).issues = f.issues ++ x.issues := by
  cases f <;> cases x <;> simp [apply]

@[simp] theorem issues_within (p : Place) (x : Checked α) :
    (within p x).issues = x.issues.map (Issue.within p) := by
  cases x <;> rfl

@[simp] theorem issues_map (f : α → β) (x : Checked α) : issues (x.map f) = x.issues := by
  cases x <;> rfl

theorem eq_error_iff {x : Checked α} {found : List Issue} :
    x = .error found ↔ (¬ ∃ a, x = .ok a) ∧ found = x.issues := by
  cases x with
  | ok a => simp
  | error e => simp [eq_comm]

theorem items_eq_ok_iff {check : Value → Checked α} {n : Nat} {vs : List Value} {as : List α} :
    items check n vs = .ok as ↔ List.Forall₂ (fun v a => check v = .ok a) vs as := by
  induction vs generalizing n as with
  | nil => simp [items, eq_comm]
  | cons v rest ih =>
    simp only [items, apply_eq_ok_iff, within_eq_ok_iff, ih, List.forall₂_cons_left_iff]
    constructor
    · rintro ⟨_, others, ⟨_, first, ⟨⟩, hfirst, rfl⟩, hothers, rfl⟩
      exact ⟨first, others, hfirst, hothers, rfl⟩
    · rintro ⟨first, others, hfirst, hothers, rfl⟩
      exact ⟨_, others, ⟨_, first, rfl, hfirst, rfl⟩, hothers, rfl⟩

theorem issues_items (check : Value → Checked α) (n : Nat) (vs : List Value) :
    (items check n vs).issues =
      (vs.zipIdx n).flatMap fun (v, i) => (check v).issues.map (Issue.within (.index i)) := by
  induction vs generalizing n with
  | nil => rfl
  | cons v rest ih => simp [items, ih]

theorem model_eq_ok_iff {name : String} {v : Value} {fields : Fields} :
    model name v = .ok fields ↔ v = .dict fields := by
  cases v <;> simp [model, fail]

theorem required_eq_ok_iff {fields : Fields} {name : String}
    {check : Value → Checked α} {a : α} : required fields name check = .ok a ↔
      ∃ v, Fields.get? name fields = some v ∧ check v = .ok a := by
  rw [required, within_eq_ok_iff]
  cases Fields.get? name fields <;> simp [fail]

theorem sequence_eq_ok_iff {kind : IssueKind} {check : Value → Checked α} {v : Value}
    {as : List α} :
    sequence kind check v = .ok as ↔
      ∃ vs, (v = .list vs ∨ v = .tuple vs) ∧ List.Forall₂ (fun v a => check v = .ok a) vs as := by
  cases v <;> simp [sequence, items_eq_ok_iff, fail]

end Checked

namespace Manifest

variable {v x : Value} {xs : List Value} {entries : List ManifestEntry} {d : VariantDescriptor}

def listing (xs : List Value) : Value := .dict [("variants", .list xs)]

def elements (xs : List Value) : Checked (List ManifestEntry) :=
  (Checked.within (.field "variants") (Checked.items variant 0 xs)).map (List.map variantEntry)

theorem variants_listing (xs : List Value) : variants (listing xs) = elements xs := rfl

theorem elements_eq_ok_iff : elements xs = .ok entries ↔
    List.Forall₂ (fun x e => ∃ d, variant x = .ok d ∧ variantEntry d = e) xs entries := by
  rw [elements, map_eq_ok_iff]
  simp only [Checked.within_eq_ok_iff, Checked.items_eq_ok_iff]
  constructor
  · rintro ⟨ds, hds, rfl⟩
    exact List.forall₂_map_right_iff.mpr (hds.imp fun _ d hd => ⟨d, hd, rfl⟩)
  · intro h
    induction h with
    | nil => exact ⟨[], .nil, rfl⟩
    | cons hd _ ih =>
      obtain ⟨d, hd, rfl⟩ := hd
      obtain ⟨ds, hds, rfl⟩ := ih
      exact ⟨d :: ds, .cons hd hds, rfl⟩

theorem elements_singleton_eq_ok_iff :
    elements [x] = .ok entries ↔ ∃ d, variant x = .ok d ∧ entries = [variantEntry d] := by
  simp only [elements_eq_ok_iff, List.forall₂_cons_left_iff, List.forall₂_nil_left_iff]
  constructor
  · rintro ⟨_, _, ⟨d, hd, rfl⟩, rfl, rfl⟩
    exact ⟨d, hd, rfl⟩
  · rintro ⟨d, hd, rfl⟩
    exact ⟨_, _, ⟨d, hd, rfl⟩, rfl, rfl⟩

theorem issues_elements (xs : List Value) : (elements xs).issues =
    xs.zipIdx.flatMap fun (x, i) =>
      (variant x).issues.map fun issue => (issue.within (.index i)).within (.field "variants") := by
  simp only [elements, Checked.issues_map, Checked.issues_within, Checked.issues_items,
    List.map_flatMap, List.map_map, Function.comp_def]

theorem issues_elements_singleton (x : Value) (n : Nat) :
    (elements [x]).issues.map (Issue.atPosition n) =
      (variant x).issues.map fun issue =>
        (issue.within (.index n)).within (.field "variants") := by
  simp [issues_elements, Issue.atPosition, Issue.within, Function.comp_def]

theorem elements_eq_flatten_iff : elements xs = .ok entries ↔
    ∃ parts, List.Forall₂ (fun x part => elements [x] = .ok part) xs parts ∧
      entries = parts.flatten := by
  rw [elements_eq_ok_iff]
  simp only [elements_singleton_eq_ok_iff]
  constructor
  · intro h
    refine ⟨entries.map fun e => [e], List.forall₂_map_right_iff.mpr (h.imp ?_),
      (List.flatMap_singleton' entries).symm⟩
    rintro x _ ⟨d, hd, rfl⟩
    exact ⟨d, hd, rfl⟩
  · rintro ⟨parts, h, rfl⟩
    induction h with
    | nil => exact .nil
    | cons hpart _ ih =>
      obtain ⟨d, hd, rfl⟩ := hpart
      exact .cons ⟨d, hd, rfl⟩ ih

theorem exists_elements_iff :
    (∃ entries, elements xs = .ok entries) ↔ ∀ x ∈ xs, ∃ entries, elements [x] = .ok entries := by
  rw [← exists_forall₂_iff]
  constructor
  · rintro ⟨entries, h⟩
    obtain ⟨parts, hparts, -⟩ := elements_eq_flatten_iff.mp h
    exact ⟨parts, hparts⟩
  · rintro ⟨parts, hparts⟩
    exact ⟨_, elements_eq_flatten_iff.mpr ⟨parts, hparts, rfl⟩⟩

/-- What an accepted element gives. -/
structure ReadFrom (x : Value) (e : ManifestEntry) : Prop where
  described : ∃ d, variant x = .ok d ∧ e = variantEntry d ∧ e.payload = some (.variant d) ∧
    e.aliases = d.aliases.filter (· ≠ "")
  name_ne : e.name ≠ ""
  name_trimmed : ∀ c, e.name.toList.head? = some c ∨ e.name.toList.getLast? = some c →
    Text.isWhiteSpace c = false
  version_pos : e.version.isPositive = true
  version_num : e.version.isNaN = false
  aliases_ne : "" ∉ e.aliases

theorem name_of_trimmedNonEmpty {s : String} (h : Checked.trimmedNonEmpty v = .ok s) :
    s ≠ "" ∧ ∃ text, s = Text.trim Text.isWhiteSpace text := by
  obtain ⟨trimmed, htrimmed, hs⟩ := bind_eq_ok_iff.mp h
  obtain ⟨text, -, rfl⟩ := map_eq_ok_iff.mp htrimmed
  unfold Checked.nonEmpty at hs
  split at hs
  · cases hs
  · next hne =>
    obtain rfl := Except.ok.inj hs
    exact ⟨hne, text, rfl⟩

theorem name_of_variant (h : variant v = .ok d) :
    d.name ≠ "" ∧ ∃ text, d.name = Text.trim Text.isWhiteSpace text := by
  obtain ⟨fields, hname, -⟩ := required_of_variant h
  obtain ⟨w, hw⟩ := Checked.required_eq_ok hname
  exact name_of_trimmedNonEmpty hw

theorem readFrom_of_variant (h : variant x = .ok d) : ReadFrom x (variantEntry d) := by
  obtain ⟨hne, text, hname⟩ := name_of_variant h
  have hversion := isPositive_of_variant h
  refine ⟨⟨d, h, rfl, rfl, rfl⟩, hne, fun c hc => ?_, hversion,
    Binary64.isNaN_of_isPositive hversion, by simp [variantEntry]⟩
  rw [variantEntry, hname, Text.trim, String.toList_ofList] at hc
  exact hc.elim Text.head_trimChars Text.last_trimChars

/-- An accepted manifest holds a sequence, with an entry for each of its elements. -/
theorem readFrom_of_variants (h : variants v = .ok entries) :
    ∃ fields xs, v = .dict fields ∧ (Fields.get? "variants" fields = some (.list xs) ∨
      Fields.get? "variants" fields = some (.tuple xs)) ∧ List.Forall₂ ReadFrom xs entries := by
  obtain ⟨fields, hfields, h⟩ := bind_eq_ok_iff.mp h
  obtain ⟨ds, hds, rfl⟩ := map_eq_ok_iff.mp h
  obtain ⟨given, hgiven, hsequence⟩ := Checked.required_eq_ok_iff.mp hds
  obtain ⟨xs, hxs, hall⟩ := Checked.sequence_eq_ok_iff.mp hsequence
  refine ⟨fields, xs, Checked.model_eq_ok_iff.mp hfields, hxs.imp ?_ ?_,
    List.forall₂_map_right_iff.mpr (hall.imp fun _ _ => readFrom_of_variant)⟩
  · rintro rfl
    exact hgiven
  · rintro rfl
    exact hgiven

/-- How a manifest of variants is read from its elements: whether it is accepted and what it gives,
what it is refused for, and what holds of all that it gives. -/
theorem variants_elementwise :
    (∀ xs, (∀ entries, variants (listing xs) = .ok entries ↔
        ∃ parts, List.Forall₂ (fun x part => variants (listing [x]) = .ok part) xs parts ∧
          entries = parts.flatten) ∧
      ((∃ entries, variants (listing xs) = .ok entries) ↔
        ∀ x ∈ xs, ∃ entries, variants (listing [x]) = .ok entries) ∧
      ∀ found, variants (listing xs) = .error found ↔
        (∃ x ∈ xs, ¬ ∃ entries, variants (listing [x]) = .ok entries) ∧
          found = xs.zipIdx.flatMap fun (x, i) =>
            (variants (listing [x])).issues.map (Issue.atPosition i)) ∧
    ∀ v entries, variants v = .ok entries → ∃ fields xs, v = .dict fields ∧
      (Fields.get? "variants" fields = some (.list xs) ∨
        Fields.get? "variants" fields = some (.tuple xs)) ∧
      List.Forall₂ ReadFrom xs entries := by
  refine ⟨fun xs => ⟨fun entries => elements_eq_flatten_iff, exists_elements_iff, fun found => ?_⟩,
    fun v entries => readFrom_of_variants⟩
  have hissues : (elements xs).issues = xs.zipIdx.flatMap fun (x, i) =>
      (elements [x]).issues.map (Issue.atPosition i) := by
    simp only [issues_elements_singleton, issues_elements xs]
  rw [variants_listing, Checked.eq_error_iff, exists_elements_iff, hissues]
  simp only [variants_listing, not_forall, exists_prop]

/-- A variant whose name and aliases are written with white space and an empty alias. -/
def spacedVariant : Value :=
  .dict [("name", .str " Classic "), ("version", .str " 3 "), ("aliases", .str "old, ,first")]

theorem variants_elementwise_spaced : ∃ entries, variants (listing [spacedVariant]) = .ok entries ∧
    entries.map (fun e => (e.name, e.aliases)) = [("Classic", ["old", "first"])] ∧
    ∃ fields xs, listing [spacedVariant] = .dict fields ∧
      (Fields.get? "variants" fields = some (.list xs) ∨
        Fields.get? "variants" fields = some (.tuple xs)) ∧
      List.Forall₂ ReadFrom xs entries := by
  have hread : (variants (listing [spacedVariant])).toOption.map
      (List.map fun e => (e.name, e.aliases)) = some [("Classic", ["old", "first"])] := by
    decide +kernel
  obtain ⟨entries, hentries, hnames⟩ := Option.map_eq_some_iff.mp hread
  have hok : variants (listing [spacedVariant]) = .ok entries := by
    cases hv : variants (listing [spacedVariant]) with
    | error found =>
      rw [hv] at hentries
      cases hentries
    | ok read =>
      rw [hv] at hentries
      rw [Option.some.inj hentries]
  exact ⟨entries, hok, hnames, variants_elementwise.2 _ _ hok⟩

end Manifest

end PackIndex
