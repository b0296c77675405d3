import PackIndex.Proofs.Registry.Listing

/-!
# Tables that hold more

A table that holds all submissions of another one, and treats them in the same way, has its names,
its aliases and, under each of them, its items. So an exact version leads to the same item, versions
stay, and the newest item is of no smaller version.
-/

namespace PackIndex

namespace Selection

variable {α : Type} {version : α → Version} {things more : List α}

section Subset

variable (h : Comparable version things) (h' : Comparable version more) (hsub : things ⊆ more)
include h h' hsub

theorem pick?_exactly_of_subset {v : Version} {x : α}
    (hx : pick? version true things (.exactly v) = some x) :
    pick? version true more (.exactly v) = some x := by
  have hfind (l : List α) : pick? version true l (.exactly v) = find? version v l := by
    rw [pick?]
    cases find? version v l <;> rfl
  rw [hfind, find?_eq_some_iff h.differ] at hx
  rw [hfind, find?_eq_some_iff h'.differ]
  exact ⟨hsub hx.1, hx.2⟩

theorem newest?_of_subset {x : α} (hx : newest? version things = some x) :
    ∃ y, newest? version more = some y ∧ (version y).lt (version x) = false := by
  have hmem := hsub ((newest?_eq_some_iff h x).mp hx).1
  obtain ⟨y, hy⟩ := Option.isSome_iff_exists.mp
    ((newest?_isSome version more).mpr (List.ne_nil_of_mem hmem))
  exact ⟨y, hy, ((newest?_eq_some_iff h' y).mp hy).2 x hmem⟩

end Subset

theorem versionsOf_subset (hsub : things ⊆ more) :
    versionsOf version things ⊆ versionsOf version more := by
  intro v hv
  obtain ⟨x, hx, hversion⟩ := mem_versionsOf.mp hv
  exact mem_versionsOf.mpr ⟨x, hsub hx, hversion⟩

end Selection

namespace ItemTable.Holds

variable {t u : ItemTable} {kept more : List Submission}

section Subset

variable (ht : t.Holds kept) (hu : u.Holds more) (hsub : kept ⊆ more)
include ht hu hsub

theorem names_subset : t.names ⊆ u.names := by
  intro name hname
  obtain ⟨s, hs, hkey⟩ := ht.mem_names_iff.mp hname
  exact hu.mem_names_iff.mpr ⟨s, hsub hs, hkey⟩

theorem aliasOwner?_of_subset (hallow : u.allowAliases = t.allowAliases) {key name : String}
    (ha : t.aliasOwner? key = some name) : u.aliasOwner? key = some name := by
  obtain ⟨hallowed, s, hs, hkey, hmem⟩ := (ht.aliases key name).mp ha
  exact (hu.aliases key name).mpr ⟨hallow.trans hallowed, s, hsub hs, hkey, hmem⟩

theorem holder?_of_subset (hallow : u.allowAliases = t.allowAliases) {key name : String}
    (hk : t.holder? key = some name) : u.holder? key = some name := by
  refine (hu.wellFormed.holder?_eq_some_iff key name).mpr ?_
  rcases (ht.wellFormed.holder?_eq_some_iff key name).mp hk with ha | ⟨hname, hmem⟩
  · exact Or.inl (ht.aliasOwner?_of_subset hu hsub hallow ha)
  · exact Or.inr ⟨hname, ht.names_subset hu hsub hmem⟩

theorem itemsOf_subset (hkind : u.kind = t.kind) (name : String) :
    t.itemsOf name ⊆ u.itemsOf name := by
  intro i hi
  obtain ⟨s, hs, hkey, hitem⟩ := ht.mem_itemsOf_iff.mp hi
  exact hu.mem_itemsOf_iff.mpr ⟨s, hsub hs, hkey, by rw [hkind, hitem]⟩

theorem under_subset (hkind : u.kind = t.kind) (hallow : u.allowAliases = t.allowAliases)
    (name : String) : t.under name ⊆ u.under name := by
  rw [under, under, ht.wellFormed.group?_eq, hu.wellFormed.group?_eq]
  cases hk : t.holder? (Text.lower name) with
  | none => exact List.nil_subset _
  | some key =>
    rw [ht.holder?_of_subset hu hsub hallow hk]
    exact ht.itemsOf_subset hu hsub hkind key

end Subset

end ItemTable.Holds

end PackIndex
