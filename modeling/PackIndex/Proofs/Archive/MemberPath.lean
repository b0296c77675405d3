import PackIndex.Archive.MemberPath
import PackIndex.Proofs.Path.Text

/-!
# Normalizing a member path twice

The components of a path are joined to the name of a member, and that name is read as a path again
when the member is opened. The name has the same components; only the two slashes in front of others
are lost, for they have become three. So what was a name stays one.
-/

namespace PackIndex

namespace MemberPath

variable {s member : String} {parts : List String}

/-- Whether a text can be one component of a path. -/
structure IsPart (part : String) : Prop where
  nonempty : part ≠ ""
  notDot : part ≠ "."
  noSlash : '/' ∉ part.toList
  noBackslash : '\\' ∉ part.toList

theorem IsPart.pathPart {part : String} (h : IsPart part) : FilePath.IsPart part :=
  ⟨h.nonempty, h.notDot, h.noSlash⟩

/-- A text with its backslashes turned. -/
def turned (s : String) : String :=
  String.ofList (s.toList.map fun c => if c = '\\' then '/' else c)

theorem components_eq (s : String) : components s =
    if FilePath.rootOf (turned s).toList = .doubleSlash then "//" :: FilePath.components (turned s)
    else FilePath.components (turned s) := rfl

theorem noBackslash_turned (s : String) : '\\' ∉ (turned s).toList := by
  simp only [turned, String.toList_ofList, List.mem_map, not_exists, not_and]
  intro c _
  split
  · decide
  · assumption

theorem turned_of_noBackslash (h : '\\' ∉ s.toList) : turned s = s := by
  have hmap : s.toList.map (fun c => if c = '\\' then '/' else c) = s.toList.map id := by
    refine List.map_congr_left fun c hc => if_neg ?_
    rintro rfl
    exact h hc
  rw [turned, hmap, List.map_id, String.ofList_toList]

theorem isPart_of_mem_components {part : String} (hs : '\\' ∉ s.toList)
    (h : part ∈ FilePath.components s) : IsPart part := by
  have hpart := FilePath.isPart_of_mem_components h
  refine ⟨hpart.nonempty, hpart.notDot, hpart.noSlash, fun hback => ?_⟩
  simp only [FilePath.components, List.mem_filter, Text.split, List.mem_map] at h
  obtain ⟨⟨piece, hpiece, rfl⟩, -⟩ := h
  rw [String.toList_ofList] at hback
  exact hs (Text.mem_of_mem_splitChars hpiece hback).1

/-- The components of a path are proper parts, behind two slashes if it starts with exactly two. -/
theorem components_cases (s : String) :
    ∃ parts, (∀ part ∈ parts, IsPart part) ∧
      (components s = parts ∨ components s = "//" :: parts) := by
  refine ⟨FilePath.components (turned s),
    fun _ => isPart_of_mem_components (noBackslash_turned s), ?_⟩
  rw [components_eq]
  by_cases hroot : FilePath.rootOf (turned s).toList = .doubleSlash
  · exact Or.inr (if_pos hroot)
  · exact Or.inl (if_neg hroot)

/-! ### Joining components and reading the name again -/

theorem noBackslash_join (h : ∀ part ∈ parts, IsPart part) :
    '\\' ∉ ("/".intercalate parts).toList := by
  intro hmem
  rw [String.toList_intercalate] at hmem
  rcases Text.mem_intercalate hmem with hslash | ⟨piece, hpiece, hback⟩
  · cases hslash
  · obtain ⟨part, hpart, rfl⟩ := List.mem_map.mp hpiece
    exact (h part hpart).noBackslash hback

theorem components_join (h : ∀ part ∈ parts, IsPart part) :
    components ("/".intercalate parts) = parts := by
  have hread : FilePath.ofString ("/".intercalate parts) =
      ⟨.none, parts, fun part hpart => (h part hpart).pathPart⟩ := by
    simpa [FilePath.rootText] using
      FilePath.ofString_rootText_append .none fun part hpart => (h part hpart).pathPart
  have hroot : FilePath.rootOf ("/".intercalate parts).toList = .none := congrArg (·.root) hread
  have hparts : FilePath.components ("/".intercalate parts) = parts := congrArg (·.parts) hread
  rw [components_eq, turned_of_noBackslash (noBackslash_join h), hroot, hparts]
  rfl

theorem components_join_slashes (hne : parts ≠ []) (h : ∀ part ∈ parts, IsPart part) :
    components ("/".intercalate ("//" :: parts)) = parts := by
  have htext : ("/".intercalate ("//" :: parts)).toList =
      '/' :: '/' :: '/' :: ("/".intercalate parts).toList := by
    obtain ⟨part, rest, rfl⟩ := List.exists_cons_of_ne_nil hne
    rw [String.toList_intercalate, List.map_cons, List.map_cons, List.intercalate_cons_cons,
      String.toList_intercalate, List.map_cons]
    rfl
  have hback : '\\' ∉ ("/".intercalate ("//" :: parts)).toList := by
    rw [htext]
    simpa using noBackslash_join h
  have hpieces : Text.splitChars '/' ("/".intercalate ("//" :: parts)).toList =
      List.replicate 3 [] ++ parts.map String.toList := by
    rw [htext]
    simp only [Text.splitChars, if_true,
      FilePath.splitChars_join hne fun part hpart => (h part hpart).pathPart]
    rfl
  rw [components_eq, turned_of_noBackslash hback, htext,
    FilePath.components_of_pieces 3 (fun part hpart => (h part hpart).pathPart) hpieces]
  rfl

/-- A name that a path was normalized to names a member when it is normalized again. -/
theorem normalize?_of_normalize? (h : normalize? s = some member) :
    ∃ stored, normalize? member = some stored := by
  obtain ⟨parts, hparts, hcomponents⟩ := components_cases s
  unfold normalize? at h ⊢
  simp only at h
  split at h
  · cases h
  · next husable =>
    obtain rfl := Option.some.inj h
    rw [not_or] at husable
    rcases hcomponents with hplain | hslashes
    · rw [hplain] at husable ⊢
      rw [components_join hparts, if_neg (not_or.mpr husable)]
      exact ⟨_, rfl⟩
    · by_cases hne : parts = []
      · rw [hslashes, hne]
        exact ⟨"//", rfl⟩
      · have hclimb : ".." ∉ parts := fun hmem =>
          husable.2 (hslashes ▸ List.mem_cons_of_mem _ hmem)
        rw [hslashes, components_join_slashes hne hparts, if_neg (not_or.mpr ⟨hne, hclimb⟩)]
        exact ⟨_, rfl⟩

end MemberPath

end PackIndex
