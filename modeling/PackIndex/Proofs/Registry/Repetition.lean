import PackIndex.Proofs.Registry.Conflict

/-!
# Submissions that come again

A table that holds a list of submissions has found no two of them in conflict. So a run over members
of that list can only fail in one way: at the first one that comes again, which is refused as a
duplicate of itself.
-/

namespace PackIndex.ItemTable

namespace Holds

variable {t u : ItemTable} {s : Submission} {kept whole more : List Submission}

section Part

variable (ht : t.Holds kept) (hu : u.Holds whole) (hallow : t.allowAliases = u.allowAliases)
  (hn : ∀ s ∈ whole, s.entry.version.isNaN = false) (hsub : kept ⊆ whole) (hs : s ∈ whole)
include ht hu hallow hsub hs

theorem aliasOwner?_key_of_part : t.aliasOwner? s.key = none := by
  rw [Option.eq_none_iff_forall_ne_some]
  intro owner howner
  obtain ⟨hallowed, a, ha, hkey, hmem⟩ := (ht.aliases _ _).mp howner
  have halias := (hu.aliases _ _).mpr ⟨hallow ▸ hallowed, a, hsub ha, hkey, hmem⟩
  have hpair := (hu.wellFormed.aliasOwner?_eq_some_iff _ _).mp halias
  exact hu.wellFormed.alias_not_name _ hpair (hu.mem_names_iff.mpr ⟨s, hs, rfl⟩)

/-- The aliases of a submission lead to its name in the whole table, so to no other name here. -/
theorem mapAliases_of_part
    (hv : Selection.find? Item.version s.entry.version (t.itemsOf s.key) = none)
    (hallowed : t.allowAliases = true) :
    (mapAliases (s.item t.kind) (t.putGroup (t.grown s)) s.entry.aliases).1 = none := by
  have ha := ht.aliasOwner?_key_of_part hu hallow hsub hs
  have hlead (key : String) (hkey : key ∈ s.aliasKeys) : u.aliasOwner? key = some s.key :=
    (hu.aliases _ _).mpr ⟨hallow ▸ hallowed, s, hs, rfl, hkey⟩
  refine (ht.mapAliases_eq_none_iff hallowed ha hv).mpr fun a hmem => ⟨?_, ?_⟩
  · intro key hkey hkey'
    have hother : u.aliasOwner? key = some a.key :=
      (hu.aliases _ _).mpr ⟨hallow ▸ hallowed, a, hsub hmem, rfl, hkey'⟩
    exact Option.some.inj (hother.symm.trans (hlead key hkey))
  · intro hkey
    have hpair := (hu.wellFormed.aliasOwner?_eq_some_iff _ _).mp (hlead a.key hkey)
    exact hu.wellFormed.alias_not_name _ hpair (hu.mem_names_iff.mpr ⟨a, hsub hmem, rfl⟩)

include hn

omit hallow in
theorem find?_of_part (hnot : s ∉ kept) :
    Selection.find? Item.version s.entry.version (t.itemsOf s.key) = none := by
  rw [ht.find?_eq_none_iff]
  intro a ha hkey
  by_contra hsame
  rw [Bool.not_eq_false] at hsame
  have hitem := Selection.eq_of_same (hu.wellFormed.differ_itemsOf s.key)
    (hu.mem_itemsOf_iff.mpr ⟨a, hsub ha, hkey, rfl⟩) (hu.mem_itemsOf_iff.mpr ⟨s, hs, rfl, rfl⟩) hsame
  exact hnot (hu.item_inj hs hn (hsub ha) hitem ▸ ha)

theorem submit_of_new_part (hnot : s ∉ kept) : ∃ v, t.submit s = (.admitted (s.item t.kind), v) := by
  have ha := ht.aliasOwner?_key_of_part hu hallow hsub hs
  have hv := ht.find?_of_part hu hn hsub hs hnot
  rw [submit_of_new ha hv]
  by_cases hallowed : t.allowAliases = true
  · have hmap := ht.mapAliases_of_part hu hallow hsub hs hv hallowed
    rw [if_pos hallowed]
    rcases hmapped : mapAliases (s.item t.kind) (t.putGroup (t.grown s)) s.entry.aliases
      with ⟨_ | e, v⟩
    · exact ⟨v, rfl⟩
    · rw [hmapped] at hmap
      cases hmap
  · rw [if_neg hallowed]
    exact ⟨_, rfl⟩

theorem submit_of_kept_part (htol : t.tolerateDuplicates = false) (hkept : s ∈ kept) :
    t.submit s = (.refused (.duplicateVersion t.kind (s.item t.kind) (s.item t.kind)), t) := by
  have ha := ht.aliasOwner?_key_of_part hu hallow hsub hs
  have hfind : Selection.find? Item.version s.entry.version (t.itemsOf s.key) =
      some (s.item t.kind) :=
    (Selection.find?_eq_some_iff (ht.wellFormed.differ_itemsOf s.key) _ _).mpr
      ⟨ht.mem_itemsOf_iff.mpr ⟨s, hkept, rfl, rfl⟩, (Binary64.same_self_iff _).mpr (hn s hs)⟩
  rw [submit_of_taken ht.wellFormed.names_nodup ha hfind, htol]
  rfl

end Part

/-- A run over members of the whole list ends well if none of them comes again, and otherwise at
one that does. -/
theorem submitAll_of_part (ht : t.Holds kept) (hu : u.Holds whole)
    (hallow : t.allowAliases = u.allowAliases)
    (hn : ∀ s ∈ whole, s.entry.version.isNaN = false) (htol : t.tolerateDuplicates = false)
    (hkept : kept.Nodup) (hsub : kept ⊆ whole) (hmore : more ⊆ whole) :
    (∃ v, t.submitAll more = .ok v) ∧ (kept ++ more).Nodup ∨
      ¬ (kept ++ more).Nodup ∧ ∃ s ∈ more,
        t.submitAll more = .error (.duplicateVersion t.kind (s.item t.kind) (s.item t.kind)) := by
  induction more generalizing t kept with
  | nil => exact Or.inl ⟨⟨t, rfl⟩, by rwa [List.append_nil]⟩
  | cons s rest ih =>
    obtain ⟨hs, hrest⟩ := List.cons_subset.mp hmore
    by_cases hagain : s ∈ kept
    · refine Or.inr ⟨fun hnodup => ?_, s, List.mem_cons_self, ?_⟩
      · exact (List.nodup_append.mp hnodup).2.2 s hagain s List.mem_cons_self rfl
      · rw [ItemTable.submitAll, ht.submit_of_kept_part hu hallow hn hsub hs htol hagain]
    · obtain ⟨v, hv⟩ := ht.submit_of_new_part hu hallow hn hsub hs hagain
      obtain ⟨-, hvholds, hset⟩ := ht.admitted hv
      have hnodup : (kept ++ [s]).Nodup :=
        List.nodup_append.mpr ⟨hkept, List.nodup_singleton s, fun a ha b hb hab =>
          hagain (List.mem_singleton.mp hb ▸ hab ▸ ha)⟩
      have hgrown : kept ++ [s] ⊆ whole :=
        List.append_subset.mpr ⟨hsub, List.cons_subset.mpr ⟨hs, List.nil_subset whole⟩⟩
      have hrun := ih hvholds (hset.allowAliases.trans hallow) (hset.tolerateDuplicates.trans htol)
        hnodup hgrown hrest
      rw [List.append_assoc, List.singleton_append] at hrun
      rw [hset.kind] at hrun
      rw [ItemTable.submitAll, hv]
      refine hrun.imp_right ?_
      rintro ⟨hrepeats, again, hmem, hrefused⟩
      exact ⟨hrepeats, again, List.mem_cons_of_mem s hmem, hrefused⟩

end Holds

/-- A cleared table without duplicates that takes a list to its end takes any part of it that does
not repeat anything, and refuses the first member of a part that comes again. -/
theorem submitAll_part_cases {t u : ItemTable} {whole more : List Submission}
    (htol : t.clear.tolerateDuplicates = false) (hu : t.clear.submitAll whole = .ok u)
    (hn : ∀ s ∈ whole, s.entry.version.isNaN = false) (hmore : more ⊆ whole) :
    (∃ v, t.clear.submitAll more = .ok v) ∧ more.Nodup ∨
      ¬ more.Nodup ∧ ∃ s ∈ more, t.clear.submitAll more =
        .error (.duplicateVersion t.kind (s.item t.kind) (s.item t.kind)) := by
  obtain ⟨hholds, hset⟩ := (holds_clear t).submitAll hu
  rw [admittedFrom_eq (holds_clear t) htol hu, List.nil_append] at hholds
  exact (holds_clear t).submitAll_of_part hholds hset.allowAliases.symm hn htol List.nodup_nil
    (List.nil_subset whole) hmore

end PackIndex.ItemTable
