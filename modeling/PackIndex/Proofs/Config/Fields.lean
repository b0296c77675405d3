import PackIndex.Config.Basic
import PackIndex.Proofs.Manifest.Elements
import PackIndex.Proofs.Path.Home

/-!
# Checking the fields of a configuration

A configuration is accepted exactly if its paths can be expanded and every other field passes its
check. What a check lets through it lets through again unchanged, the defaults included, so the
fields of an accepted configuration are those of the same configuration.
-/

namespace PackIndex

/-! ### Lists without repetitions -/

section EraseDups

variable {α : Type} [BEq α] [LawfulBEq α]

theorem nodup_eraseDups : (l : List α) → l.eraseDups.Nodup
  | [] => by simp
  | a :: l => by
    have hshorter : (l.filter fun b => !b == a).length < l.length + 1 :=
      Nat.lt_succ_of_le (List.length_filter_le _ _)
    rw [List.eraseDups_cons, List.nodup_cons]
    exact ⟨by simp [List.mem_eraseDups], nodup_eraseDups _⟩
termination_by l => l.length

theorem eraseDups_of_nodup {l : List α} (h : l.Nodup) : l.eraseDups = l := by
  induction l with
  | nil => rfl
  | cons a l ih =>
    obtain ⟨ha, hl⟩ := List.nodup_cons.mp h
    have hothers : l.filter (fun b => !b == a) = l := by
      rw [List.filter_eq_self]
      intro b hb
      have hne : b ≠ a := fun heq => ha (heq ▸ hb)
      simp [hne]
    rw [List.eraseDups_cons, hothers, ih hl]

end EraseDups

theorem Checked.optional_eq_ok_iff {α : Type} {fields : Fields} {name : String} {d a : α}
    {check : Value → Checked α} : optional fields name d check = .ok a ↔
      (∃ v, Fields.get? name fields = some v ∧ check v = .ok a) ∨
      Fields.get? name fields = none ∧ d = a := by
  unfold optional
  cases Fields.get? name fields <;> simp [within_eq_ok_iff]

theorem Checked.optional_congr {α : Type} {fields others : Fields} {name : String} {d : α}
    {check : Value → Checked α} (h : Fields.get? name others = Fields.get? name fields) :
    optional others name d check = optional fields name d check := by
  rw [optional, h, optional]

namespace CatalogConfig

variable {homes : Homes} {fields others : Fields} {keys vs : List Value} {c : CatalogConfig}
  {v : Value} {p q : FilePath} {ps qs search shared : List FilePath} {s : String}
  {kept : List String}

/-! ### Paths -/

theorem expandedPath_eq_ok_iff : expandedPath homes v = .ok q ↔
    ∃ p, pathOf v = .ok p ∧ p.expandHome? homes = some q := by
  unfold expandedPath
  cases pathOf v with
  | error e => simp [Except.bind]
  | ok p => cases hp : p.expandHome? homes <;> simp [Except.bind, hp]

theorem expandedPaths_eq_mapM (homes : Homes) (vs : List Value) :
    expandedPaths homes vs = vs.mapM (expandedPath homes) := by
  induction vs with
  | nil => rfl
  | cons v vs ih =>
    rw [expandedPaths, List.mapM_cons, ih]
    cases expandedPath homes v <;> rfl

theorem pathsField_eq_ok_iff {name : String} : pathsField homes fields name = .ok ps ↔
    (Fields.get? name fields = none ∧ ps = []) ∨ ∃ v vs, Fields.get? name fields = some v ∧
      pathValues v = .ok vs ∧ List.Forall₂ (fun v p => expandedPath homes v = .ok p) vs ps := by
  unfold pathsField
  cases Fields.get? name fields with
  | none => simp [eq_comm]
  | some v =>
    constructor
    · intro h
      obtain ⟨vs, hvs, hps⟩ := bind_eq_ok_iff.mp h
      exact Or.inr ⟨v, vs, rfl, hvs, mapM_eq_ok_iff.mp (expandedPaths_eq_mapM homes vs ▸ hps)⟩
    · rintro (⟨⟨⟩, -⟩ | ⟨_, vs, ⟨⟩, hvs, hps⟩)
      exact bind_eq_ok_iff.mpr
        ⟨vs, hvs, (expandedPaths_eq_mapM homes vs).trans (mapM_eq_ok_iff.mpr hps)⟩

theorem pathsField_congr {name : String} (h : Fields.get? name others = Fields.get? name fields) :
    pathsField homes others name = pathsField homes fields name := by
  rw [pathsField, h, pathsField]

/-- Whether the fields other than the paths, and the keys, pass their checks, and give what the
configuration holds. -/
structure ChecksTo (fields : Fields) (keys : List Value) (c : CatalogConfig) : Prop where
  variantSuffixes : Checked.optional fields "variant_suffixes" default.variantSuffixes suffixes =
    .ok c.variantSuffixes
  symbolSuffixes : Checked.optional fields "symbol_suffixes" default.symbolSuffixes suffixes =
    .ok c.symbolSuffixes
  variantManifest : Checked.optional fields "variant_manifest" default.variantManifest
    manifestName = .ok c.variantManifest
  symbolManifest : Checked.optional fields "symbol_manifest" default.symbolManifest
    manifestName = .ok c.symbolManifest
  requireSymbolPacks : Checked.optional fields "require_symbol_packs" default.requireSymbolPacks
    Checked.bool = .ok c.requireSymbolPacks
  keys : checkKeys keys = .ok ()

theorem ChecksTo.congr (h : ChecksTo fields keys c)
    (hothers : ∀ name, name ≠ "search_paths" → name ≠ "shared_namespace" →
      Fields.get? name others = Fields.get? name fields) : ChecksTo others keys c := by
  obtain ⟨hvariants, hsymbols, hvariant, hsymbol, hrequire, hkeys⟩ := h
  rw [← Checked.optional_congr (hothers "variant_suffixes" (by decide) (by decide))] at hvariants
  rw [← Checked.optional_congr (hothers "symbol_suffixes" (by decide) (by decide))] at hsymbols
  rw [← Checked.optional_congr (hothers "variant_manifest" (by decide) (by decide))] at hvariant
  rw [← Checked.optional_congr (hothers "symbol_manifest" (by decide) (by decide))] at hsymbol
  rw [← Checked.optional_congr (hothers "require_symbol_packs" (by decide) (by decide))] at hrequire
  exact ⟨hvariants, hsymbols, hvariant, hsymbol, hrequire, hkeys⟩

theorem checkFields_eq_ok_iff : checkFields fields keys search shared = .ok c ↔
    search = c.searchPaths ∧ shared = c.sharedNamespace ∧ ChecksTo fields keys c := by
  simp only [checkFields, Checked.apply_eq_ok_iff]
  constructor
  · rintro ⟨_, _, ⟨_, _, ⟨_, _, ⟨_, _, ⟨_, _, ⟨_, _, ⟨⟩, hvariants, rfl⟩, hsymbols, rfl⟩, hvariant,
      rfl⟩, hsymbol, rfl⟩, hrequire, rfl⟩, hkeys, rfl⟩
    exact ⟨rfl, rfl, hvariants, hsymbols, hvariant, hsymbol, hrequire, hkeys⟩
  · rintro ⟨rfl, rfl, h⟩
    exact ⟨_, _, ⟨_, _, ⟨_, _, ⟨_, _, ⟨_, _, ⟨_, _, rfl, h.variantSuffixes, rfl⟩,
      h.symbolSuffixes, rfl⟩, h.variantManifest, rfl⟩, h.symbolManifest, rfl⟩,
      h.requireSymbolPacks, rfl⟩, h.keys, rfl⟩

/-- A configuration is accepted exactly if its paths can be expanded and its other fields pass their
checks. -/
theorem ofFields_eq_ok_iff : ofFields homes fields keys = .ok c ↔
    pathsField homes fields "search_paths" = .ok c.searchPaths ∧
    pathsField homes fields "shared_namespace" = .ok c.sharedNamespace ∧
    ChecksTo fields keys c := by
  simp only [ofFields, bind_eq_ok_iff, mapError_eq_ok_iff, checkFields_eq_ok_iff]
  constructor
  · rintro ⟨search, hsearch, shared, hshared, rfl, rfl, h⟩
    exact ⟨hsearch, hshared, h⟩
  · rintro ⟨hsearch, hshared, h⟩
    exact ⟨_, hsearch, _, hshared, rfl, rfl, h⟩

theorem suffixes_eq_ok_iff : suffixes v = .ok kept ↔
    ∃ found, Checked.sequence .notSet Checked.string v = .ok found ∧
      (found.filter fun s => Text.strip s ≠ "").eraseDups = kept ∧ kept ≠ [] := by
  constructor
  · intro h
    obtain ⟨found, hfound, h⟩ := bind_eq_ok_iff.mp h
    split at h
    · cases h
    · next hne =>
      obtain rfl := Except.ok.inj h
      exact ⟨found, hfound, rfl, hne⟩
  · rintro ⟨found, hfound, rfl, hne⟩
    refine bind_eq_ok_iff.mpr ⟨found, hfound, ?_⟩
    split
    · next hnil => exact absurd hnil hne
    · rfl

theorem sequence_textsValue (texts : List String) :
    Checked.sequence .notSet Checked.string (textsValue texts) = .ok texts := by
  refine Checked.sequence_eq_ok_iff.mpr ⟨_, Or.inl rfl, List.forall₂_map_left_iff.mpr ?_⟩
  exact List.forall₂_same.mpr fun s _ => rfl

theorem suffixes_again (h : suffixes v = .ok kept) : suffixes (textsValue kept) = .ok kept := by
  obtain ⟨found, -, rfl, hne⟩ := suffixes_eq_ok_iff.mp h
  refine suffixes_eq_ok_iff.mpr ⟨_, sequence_textsValue _, ?_, hne⟩
  have hfilter : ((found.filter fun s => Text.strip s ≠ "").eraseDups.filter
      fun s => Text.strip s ≠ "") = (found.filter fun s => Text.strip s ≠ "").eraseDups := by
    rw [List.filter_eq_self]
    intro s hs
    exact (List.mem_filter.mp (List.mem_eraseDups.mp hs)).2
  rw [hfilter, eraseDups_of_nodup (nodup_eraseDups _)]

theorem manifestName_eq_ok_iff : manifestName v = .ok s ↔
    ∃ given, Checked.string v = .ok given ∧ Text.strip given = s ∧ s ≠ "" := by
  constructor
  · intro h
    obtain ⟨given, hgiven, h⟩ := bind_eq_ok_iff.mp h
    split at h
    · cases h
    · next hne =>
      obtain rfl := Except.ok.inj h
      exact ⟨given, hgiven, rfl, hne⟩
  · rintro ⟨given, hgiven, rfl, hne⟩
    exact bind_eq_ok_iff.mpr ⟨given, hgiven, if_neg hne⟩

theorem manifestName_again (h : manifestName v = .ok s) : manifestName (.str s) = .ok s := by
  obtain ⟨given, -, rfl, hne⟩ := manifestName_eq_ok_iff.mp h
  exact manifestName_eq_ok_iff.mpr ⟨_, rfl, Text.trim_trim (fun _ => id) given, hne⟩

/-! ### Checking again -/

/-- Whether the fields other than the paths pass their checks unchanged. -/
structure Settled (c : CatalogConfig) : Prop where
  variantSuffixes : suffixes (textsValue c.variantSuffixes) = .ok c.variantSuffixes
  symbolSuffixes : suffixes (textsValue c.symbolSuffixes) = .ok c.symbolSuffixes
  variantManifest : manifestName (.str c.variantManifest) = .ok c.variantManifest
  symbolManifest : manifestName (.str c.symbolManifest) = .ok c.symbolManifest

theorem settled_default : default.Settled where
  variantSuffixes := by decide +kernel
  symbolSuffixes := by decide +kernel
  variantManifest := by decide +kernel
  symbolManifest := by decide +kernel

/-- An optional field is settled if its check keeps what it lets through, and the default. -/
theorem check_of_optional {α : Type} {name : String} {d a : α} {check : Value → Checked α}
    {dump : α → Value} (hagain : ∀ v a, check v = .ok a → check (dump a) = .ok a)
    (hdefault : check (dump d) = .ok d) (h : Checked.optional fields name d check = .ok a) :
    check (dump a) = .ok a := by
  rcases Checked.optional_eq_ok_iff.mp h with ⟨v, -, hv⟩ | ⟨-, rfl⟩
  · exact hagain v a hv
  · exact hdefault

theorem ChecksTo.settled (h : ChecksTo fields keys c) : c.Settled where
  variantSuffixes := check_of_optional (fun _ _ => suffixes_again) settled_default.variantSuffixes
    h.variantSuffixes
  symbolSuffixes := check_of_optional (fun _ _ => suffixes_again) settled_default.symbolSuffixes
    h.symbolSuffixes
  variantManifest := check_of_optional (fun _ _ => manifestName_again)
    settled_default.variantManifest h.variantManifest
  symbolManifest := check_of_optional (fun _ _ => manifestName_again)
    settled_default.symbolManifest h.symbolManifest

/-- Whether a configuration has passed its checks. -/
def Accepted (homes : Homes) (c : CatalogConfig) : Prop :=
  ∃ fields keys, ofFields homes fields keys = .ok c

theorem accepted_default : default.Accepted homes := ⟨[], [], rfl⟩

namespace Accepted

theorem settled (h : c.Accepted homes) : c.Settled := by
  obtain ⟨fields, keys, h⟩ := h
  exact (ofFields_eq_ok_iff.mp h).2.2.settled

end Accepted

end CatalogConfig

end PackIndex
