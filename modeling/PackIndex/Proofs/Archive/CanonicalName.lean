import PackIndex.Proofs.Archive.MemberPath

/-!
# Canonical names of members

The canonical name of a path is made of its pieces between slashes, without the empty ones and `.`;
a path that climbs, or of which nothing is left, has none. A canonical name is its own canonical
name. Normalizing gives it for every path but those that start with exactly two slashes: there the
two slashes stay as a first component, and the name changes when it is normalized again.
-/

namespace PackIndex.MemberPath

variable {s member : String}

/-- The pieces of a path between slashes, its backslashes turned. -/
def pieces (s : String) : List String := Text.split '/' (turned s)

/-- The pieces that make up a name. -/
def kept (s : String) : List String := (pieces s).filter fun piece => piece ≠ "" ∧ piece ≠ "."

def canonical? (s : String) : Option String :=
  if ".." ∈ pieces s ∨ ∀ piece ∈ pieces s, piece = "" ∨ piece = "." then none
  else some ("/".intercalate (kept s))

/-- Whether a path starts with two slashes and not with three. -/
def StartsWithTwo (s : String) : Prop :=
  ∃ rest, (turned s).toList = '/' :: '/' :: rest ∧ rest.head? ≠ some '/'

structure IsCanonical (name : String) : Prop where
  no_slash : name.toList.head? ≠ some '/'
  no_backslash : '\\' ∉ name.toList
  pieces : ∀ piece ∈ Text.split '/' name, piece ≠ "" ∧ piece ≠ "." ∧ piece ≠ ".."

/-! ### Pieces and components -/

theorem isPart_of_mem_kept {piece : String} (h : piece ∈ kept s) : IsPart piece :=
  isPart_of_mem_components (noBackslash_turned s) h

theorem climbs_kept_iff : ".." ∈ kept s ↔ ".." ∈ pieces s := by simp [kept]

theorem kept_eq_nil_iff : kept s = [] ↔ ∀ piece ∈ pieces s, piece = "" ∨ piece = "." := by
  simp [kept, List.filter_eq_nil_iff, or_iff_not_imp_left]

theorem startsWithTwo_iff : StartsWithTwo s ↔
    FilePath.rootOf (turned s).toList = .doubleSlash := by
  unfold StartsWithTwo
  generalize (turned s).toList = cs
  constructor
  · rintro ⟨rest, rfl, hrest⟩
    cases rest with
    | nil => rfl
    | cons c rest =>
      have hc : c ≠ '/' := fun heq => hrest (heq ▸ rfl)
      rw [FilePath.rootOf]
      rintro more ⟨⟩
      exact hc rfl
  · intro hroot
    unfold FilePath.rootOf at hroot
    split at hroot
    · cases hroot
    · next rest hthree =>
      refine ⟨rest, rfl, fun hhead => ?_⟩
      obtain ⟨more, rfl⟩ := List.head?_eq_some_iff.mp hhead
      exact hthree more rfl
    · cases hroot
    · cases hroot

theorem components_of_startsWithTwo (h : StartsWithTwo s) : components s = "//" :: kept s := by
  rw [components_eq, if_pos (startsWithTwo_iff.mp h)]
  rfl

theorem components_of_not_startsWithTwo (h : ¬ StartsWithTwo s) : components s = kept s := by
  rw [components_eq, if_neg (mt startsWithTwo_iff.mpr h)]
  rfl

/-! ### Names -/

theorem canonical?_eq (s : String) : canonical? s =
    if ".." ∈ kept s ∨ kept s = [] then none else some ("/".intercalate (kept s)) := by
  simp only [canonical?, climbs_kept_iff, kept_eq_nil_iff]

theorem canonical?_eq_some_iff : canonical? s = some member ↔
    ".." ∉ kept s ∧ kept s ≠ [] ∧ "/".intercalate (kept s) = member := by
  simp [canonical?_eq, and_assoc]

theorem normalize?_of_not_startsWithTwo (h : ¬ StartsWithTwo s) :
    normalize? s = canonical? s := by
  simp only [normalize?, components_of_not_startsWithTwo h, canonical?_eq, or_comm]

theorem normalize?_of_startsWithTwo (h : StartsWithTwo s) : normalize? s =
    if ".." ∈ pieces s then none else some ("/".intercalate ("//" :: kept s)) := by
  have hclimb : ".." ∈ "//" :: kept s ↔ ".." ∈ pieces s := by simp [climbs_kept_iff]
  simp only [normalize?, components_of_startsWithTwo h, reduceCtorEq, false_or, hclimb]

theorem isCanonical_join {parts : List String} (hne : parts ≠ []) (hparts : ∀ part ∈ parts, IsPart part)
    (hclimb : ".." ∉ parts) : IsCanonical ("/".intercalate parts) where
  no_slash := FilePath.head?_join fun part hpart => (hparts part hpart).pathPart
  no_backslash := noBackslash_join hparts
  pieces piece hpiece := by
    rw [Text.split, FilePath.splitChars_join hne fun part hpart => (hparts part hpart).pathPart,
      List.map_map] at hpiece
    have hmem : piece ∈ parts := by simpa using hpiece
    exact ⟨(hparts piece hmem).nonempty, (hparts piece hmem).notDot,
      fun heq => hclimb (heq ▸ hmem)⟩

theorem normalize?_join {parts : List String} (hne : parts ≠ []) (hparts : ∀ part ∈ parts, IsPart part)
    (hclimb : ".." ∉ parts) :
    normalize? ("/".intercalate parts) = some ("/".intercalate parts) := by
  simp only [normalize?, components_join hparts, if_neg (not_or.mpr ⟨hne, hclimb⟩)]

theorem canonical_of_canonical? (h : canonical? s = some member) :
    IsCanonical member ∧ normalize? member = some member := by
  obtain ⟨hclimb, hne, rfl⟩ := canonical?_eq_some_iff.mp h
  have hparts : ∀ part ∈ kept s, IsPart part := fun _ => isPart_of_mem_kept
  exact ⟨isCanonical_join hne hparts hclimb, normalize?_join hne hparts hclimb⟩

/-! ### Two slashes -/

theorem head?_join_slashes (parts : List String) :
    ("/".intercalate ("//" :: parts)).toList.head? = some '/' := by
  rw [String.toList_intercalate, List.map_cons]
  cases parts with
  | nil => rfl
  | cons part rest =>
    rw [List.map_cons, List.intercalate_cons_cons]
    rfl

theorem join_slashes_ne_canonical? :
    canonical? s ≠ some ("/".intercalate ("//" :: kept s)) := fun h =>
  (canonical_of_canonical? h).1.no_slash (head?_join_slashes _)

theorem normalize?_eq_canonical?_iff :
    normalize? s = canonical? s ↔ ¬ StartsWithTwo s ∨ ".." ∈ pieces s := by
  constructor
  · intro heq
    by_contra hnot
    obtain ⟨htwo, hclimb⟩ := not_or.mp hnot
    rw [normalize?_of_startsWithTwo (not_not.mp htwo), if_neg hclimb] at heq
    exact join_slashes_ne_canonical? heq.symm
  · rintro (hplain | hclimb)
    · exact normalize?_of_not_startsWithTwo hplain
    · by_cases htwo : StartsWithTwo s
      · rw [normalize?_of_startsWithTwo htwo, canonical?, if_pos hclimb, if_pos (Or.inl hclimb)]
      · exact normalize?_of_not_startsWithTwo htwo

/-- Behind two slashes a name that has pieces changes when it is normalized again. -/
theorem normalize?_join_slashes_iff {parts : List String} (hparts : ∀ part ∈ parts, IsPart part)
    (hclimb : ".." ∉ parts) :
    normalize? ("/".intercalate ("//" :: parts)) = some ("/".intercalate ("//" :: parts)) ↔
      parts = [] := by
  constructor
  · intro hagain
    by_contra hne
    simp only [normalize?, components_join_slashes hne hparts, if_neg (not_or.mpr ⟨hne, hclimb⟩)]
      at hagain
    have hhead := head?_join_slashes parts
    rw [← Option.some.inj hagain] at hhead
    exact (isCanonical_join hne hparts hclimb).no_slash hhead
  · rintro rfl
    rfl

theorem normalize?_again_iff (h : normalize? s = some member) :
    normalize? member = some member ↔ ¬ StartsWithTwo s ∨ kept s = [] := by
  by_cases htwo : StartsWithTwo s
  · rw [normalize?_of_startsWithTwo htwo] at h
    split at h
    · cases h
    · next hclimb =>
      obtain rfl := Option.some.inj h
      rw [normalize?_join_slashes_iff (fun _ => isPart_of_mem_kept) (mt climbs_kept_iff.mp hclimb)]
      simp [htwo]
  · rw [normalize?_of_not_startsWithTwo htwo] at h
    exact iff_of_true (canonical_of_canonical? h).2 (Or.inl htwo)

/-- Normalizing gives the canonical name exactly of the paths that climb or do not start with two
slashes; the two slashes of the others stay in front. A canonical name is normalized to itself. Any
other name is so only if it is nothing but the two slashes. -/
theorem normalize?_canonical (s : String) :
    (normalize? s = canonical? s ↔ ¬ StartsWithTwo s ∨ ".." ∈ pieces s) ∧
    (StartsWithTwo s → ".." ∉ pieces s →
      normalize? s = some ("/".intercalate ("//" :: kept s))) ∧
    (∀ member, canonical? s = some member →
      IsCanonical member ∧ normalize? member = some member) ∧
    ∀ member, normalize? s = some member →
      (normalize? member = some member ↔ ¬ StartsWithTwo s ∨ kept s = []) := by
  refine ⟨normalize?_eq_canonical?_iff, fun htwo hclimb => ?_,
    fun _ => canonical_of_canonical?, fun _ => normalize?_again_iff⟩
  rw [normalize?_of_startsWithTwo htwo, if_neg hclimb]

/-- A path with a turned backslash, and one behind two slashes. -/
theorem normalize?_canonical_maps :
    (normalize? "./maps\\a.svg" = some "maps/a.svg" ∧
      normalize? "maps/a.svg" = some "maps/a.svg") ∧
    normalize? "//a" = some "///a" := by
  have hname : canonical? "./maps\\a.svg" = some "maps/a.svg" := by decide
  have hone : ¬ StartsWithTwo "./maps\\a.svg" := mt startsWithTwo_iff.mp (by decide)
  have htwo : StartsWithTwo "//a" := ⟨['a'], by decide, by decide⟩
  exact ⟨⟨((normalize?_canonical _).1.mpr (Or.inl hone)).trans hname,
    ((normalize?_canonical _).2.2.1 _ hname).2⟩,
    (normalize?_canonical _).2.1 htwo (by decide)⟩

/-- Two slashes in front of a name end up as three. -/
theorem normalize?_two_slashes : ¬ ∀ s, normalize? s = canonical? s := by
  intro hall
  have hname : normalize? "//a" = some "///a" := by decide
  have hcanonical : canonical? "//a" = some "a" := by decide
  exact absurd (hname.symm.trans ((hall "//a").trans hcanonical)) (by decide)

end PackIndex.MemberPath
