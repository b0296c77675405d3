import Mathlib.Data.List.Nodup
import PackIndex.Registry.ItemTable

/-!
# Looking names up in a table

A table is read through three functions: `itemsOf` gives the items under a name, `aliasOwner?` the
name behind an alias, and `holder?` the name that a key belongs to, be it a name or an alias. Every
change to a table is described by what it does to these.
-/

namespace PackIndex

theorem lookup_eq_some_iff_mem {α β : Type} [BEq α] [LawfulBEq α] {l : List (α × β)}
    (h : (l.map Prod.fst).Nodup) {k : α} {v : β} : l.lookup k = some v ↔ (k, v) ∈ l := by
  rw [List.lookup_eq_some_iff]
  constructor
  · rintro ⟨before, after, rfl, -⟩
    simp
  · intro hmem
    obtain ⟨before, after, rfl⟩ := List.append_of_mem hmem
    refine ⟨before, after, rfl, ?_⟩
    intro p hp
    rw [List.map_append, List.nodup_append] at h
    have hne : p.1 ≠ k := h.2.2 p.1 (List.mem_map_of_mem hp) k (by simp)
    simpa [bne_iff_ne] using hne.symm

theorem VersionGroup.name_of_add? {g grown : VersionGroup} {item : Item}
    (h : g.add? item = some grown) : grown.name = g.name := by
  unfold VersionGroup.add? at h
  split at h
  · cases h
  · exact (Option.some.inj h) ▸ rfl

namespace ItemTable

variable (t : ItemTable)

def names : List String := t.groups.map VersionGroup.name

def itemsOf (key : String) : List Item := (t.groupNamed? key).elim [] VersionGroup.items

def holder? (key : String) : Option String := (t.owner? key).map VersionGroup.name

def addAlias (key name : String) : ItemTable := { t with aliases := t.aliases ++ [(key, name)] }

variable {t}

/-! ### Groups -/

theorem name_of_groupNamed? {key : String} {g : VersionGroup} (h : t.groupNamed? key = some g) :
    g.name = key := by simpa using List.find?_some h

theorem mem_of_groupNamed? {key : String} {g : VersionGroup} (h : t.groupNamed? key = some g) :
    g ∈ t.groups := List.mem_of_find?_eq_some h

theorem mem_of_owner? {key : String} {g : VersionGroup} (h : t.owner? key = some g) :
    g ∈ t.groups := by
  unfold owner? at h
  cases ha : t.aliasOwner? key with
  | none => exact mem_of_groupNamed? (by simpa only [ha] using h)
  | some name => exact mem_of_groupNamed? (by simpa only [ha] using h)

theorem groupNamed?_eq_none_iff (key : String) : t.groupNamed? key = none ↔ key ∉ t.names := by
  simp [groupNamed?, names]

theorem groupNamed?_isSome_iff (key : String) :
    (t.groupNamed? key).isSome = true ↔ key ∈ t.names := by
  rw [← not_iff_not, ← groupNamed?_eq_none_iff, Option.not_isSome_iff_eq_none]

theorem groupNamed?_of_mem (h : t.names.Nodup) {g : VersionGroup} (hg : g ∈ t.groups) :
    t.groupNamed? g.name = some g := by
  obtain ⟨g', hg'⟩ := Option.isSome_iff_exists.mp
    ((groupNamed?_isSome_iff g.name).mpr (List.mem_map_of_mem hg))
  rw [hg', List.inj_on_of_nodup_map h (mem_of_groupNamed? hg') hg (name_of_groupNamed? hg')]

theorem itemsOf_of_groupNamed? {key : String} {g : VersionGroup} (h : t.groupNamed? key = some g) :
    t.itemsOf key = g.items := by simp [itemsOf, h]

theorem itemsOf_of_not_mem {key : String} (h : key ∉ t.names) : t.itemsOf key = [] := by
  simp [itemsOf, (groupNamed?_eq_none_iff key).mpr h]

theorem itemsOf_of_groups {u : ItemTable} (h : u.groups = t.groups) (name : String) :
    u.itemsOf name = t.itemsOf name := by
  simp only [itemsOf, groupNamed?, h]

/-! ### Putting a group -/

section PutGroup

variable (t) (g : VersionGroup)

theorem putGroup_eq : t.putGroup g = { t with groups := (t.putGroup g).groups } := by
  unfold putGroup; split <;> rfl

@[simp] theorem kind_putGroup : (t.putGroup g).kind = t.kind := by
  rw [putGroup_eq]

@[simp] theorem allowAliases_putGroup : (t.putGroup g).allowAliases = t.allowAliases := by
  rw [putGroup_eq]

@[simp] theorem tolerateDuplicates_putGroup :
    (t.putGroup g).tolerateDuplicates = t.tolerateDuplicates := by
  rw [putGroup_eq]

@[simp] theorem aliases_putGroup : (t.putGroup g).aliases = t.aliases := by
  rw [putGroup_eq]

@[simp] theorem snapshot_putGroup : (t.putGroup g).snapshot = t.snapshot := by
  rw [putGroup_eq]

@[simp] theorem duplicatesSkipped_putGroup :
    (t.putGroup g).duplicatesSkipped = t.duplicatesSkipped := by
  rw [putGroup_eq]

@[simp] theorem aliasOwner?_putGroup (key : String) :
    (t.putGroup g).aliasOwner? key = t.aliasOwner? key := by simp [aliasOwner?]

theorem putGroup_groups : (t.putGroup g).groups =
    if g.name ∈ t.names then t.groups.map fun h => if h.name = g.name then g else h
    else t.groups ++ [g] := by
  have hany : (t.groups.any fun h => decide (h.name = g.name)) = true ↔ g.name ∈ t.names := by
    simp [names]
  by_cases h : g.name ∈ t.names
  · rw [if_pos h, putGroup, if_pos (hany.mpr h)]
  · rw [if_neg h, putGroup, if_neg (mt hany.mp h)]

theorem names_putGroup :
    (t.putGroup g).names = if g.name ∈ t.names then t.names else t.names ++ [g.name] := by
  rw [names, putGroup_groups]
  by_cases h : g.name ∈ t.names
  · rw [if_pos h, if_pos h, names, List.map_map]
    apply List.map_congr_left
    intro k _
    by_cases hk : k.name = g.name <;> simp [hk]
  · rw [if_neg h, if_neg h, List.map_append]
    rfl

theorem mem_names_putGroup (key : String) :
    key ∈ (t.putGroup g).names ↔ key = g.name ∨ key ∈ t.names := by
  rw [names_putGroup]
  by_cases h : g.name ∈ t.names
  · rw [if_pos h]
    exact ⟨Or.inr, fun hk => hk.elim (fun hk => hk ▸ h) id⟩
  · rw [if_neg h, List.mem_append, List.mem_singleton, or_comm]

theorem groupNamed?_putGroup (key : String) :
    (t.putGroup g).groupNamed? key = if key = g.name then some g else t.groupNamed? key := by
  rw [groupNamed?, putGroup_groups]
  by_cases h : g.name ∈ t.names
  · have hname (k : VersionGroup) : (if k.name = g.name then g else k).name = k.name := by
      by_cases hk : k.name = g.name <;> simp [hk]
    rw [if_pos h, List.find?_map]
    simp only [Function.comp_def, hname]
    change (t.groupNamed? key).map _ = _
    by_cases hkey : key = g.name
    · obtain ⟨k, hk⟩ := Option.isSome_iff_exists.mp ((groupNamed?_isSome_iff key).mpr (hkey ▸ h))
      rw [if_pos hkey, hk, Option.map_some, if_pos ((name_of_groupNamed? hk).trans hkey)]
    · rw [if_neg hkey]
      cases hk : t.groupNamed? key with
      | none => rfl
      | some k => rw [Option.map_some, if_neg (name_of_groupNamed? hk ▸ hkey)]
  · rw [if_neg h, List.find?_append]
    change (t.groupNamed? key).or _ = _
    by_cases hkey : key = g.name
    · rw [if_pos hkey, (groupNamed?_eq_none_iff key).mpr (hkey ▸ h)]
      simp [hkey]
    · rw [if_neg hkey]
      simp [Ne.symm hkey]

theorem itemsOf_putGroup (key : String) :
    (t.putGroup g).itemsOf key = if key = g.name then g.items else t.itemsOf key := by
  rw [itemsOf, groupNamed?_putGroup]
  split <;> rfl

variable {t g}

theorem mem_groups_putGroup {h : VersionGroup} (hh : h ∈ (t.putGroup g).groups) :
    h = g ∨ h ∈ t.groups := by
  rw [putGroup_groups] at hh
  by_cases hg : g.name ∈ t.names
  · rw [if_pos hg, List.mem_map] at hh
    obtain ⟨k, hk, rfl⟩ := hh
    by_cases hkg : k.name = g.name
    · exact Or.inl (if_pos hkg)
    · exact Or.inr (by rwa [if_neg hkg])
  · rw [if_neg hg, List.mem_append, List.mem_singleton] at hh
    exact hh.symm

theorem putGroup_self (hn : t.names.Nodup) (hg : t.groupNamed? g.name = some g) :
    t.putGroup g = t := by
  have hmem : g.name ∈ t.names := (groupNamed?_isSome_iff _).mp (by simp [hg])
  have hgroups : (t.groups.map fun h => if h.name = g.name then g else h) = t.groups := by
    rw [List.map_congr_left (g := id), List.map_id]
    intro h hh
    by_cases he : h.name = g.name
    · rw [if_pos he]
      exact (List.inj_on_of_nodup_map hn hh (mem_of_groupNamed? hg) he).symm
    · rw [if_neg he]; rfl
  rw [putGroup_eq, putGroup_groups, if_pos hmem, hgroups]

theorem putGroup_putGroup (t : ItemTable) {g' : VersionGroup} (hname : g.name = g'.name) :
    (t.putGroup g).putGroup g' = t.putGroup g' := by
  have hgroups : ((t.putGroup g).putGroup g').groups = (t.putGroup g').groups := by
    have hmem : g'.name ∈ (t.putGroup g).names :=
      (mem_names_putGroup t g _).mpr (Or.inl hname.symm)
    rw [putGroup_groups, if_pos hmem, putGroup_groups, putGroup_groups, hname]
    split
    · rw [List.map_map]
      apply List.map_congr_left
      intro k _
      by_cases hk : k.name = g'.name <;> simp [hk, hname]
    · next hnot =>
      have hkeep : (t.groups.map fun h => if h.name = g'.name then g' else h) = t.groups := by
        rw [List.map_congr_left (g := id), List.map_id]
        intro k hk
        exact if_neg fun he : k.name = g'.name => hnot (he ▸ List.mem_map_of_mem hk)
      rw [List.map_append, hkeep, List.map_cons, List.map_nil, if_pos hname]
  rw [putGroup_eq, hgroups, putGroup_eq t g, putGroup_eq t g']

end PutGroup

end ItemTable

end PackIndex
