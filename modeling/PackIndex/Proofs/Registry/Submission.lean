import PackIndex.Proofs.Registry.Lookup

/-!
# Submitting entries to a table

A submission is an entry together with the package that it comes from. It claims the key of its
name, and the keys of its aliases but for the empty one and the key of the name itself. Here
`register` is broken down into its outcomes: the name is an alias, the version is taken, or the item
joins its group and its aliases are mapped one after the other.
-/

namespace PackIndex

structure Submission where
  entry : ManifestEntry
  packageName : String
  source : Location

def usableKeys (name : String) (words : List String) : List String :=
  (words.map ItemTable.aliasKey).filter fun key => key ≠ "" ∧ key ≠ name

theorem mem_usableKeys {name key : String} {words : List String} :
    key ∈ usableKeys name words ↔
      (∃ word ∈ words, ItemTable.aliasKey word = key) ∧ key ≠ "" ∧ key ≠ name := by
  simp [usableKeys]

namespace Submission

variable (kind : PackKind) (s : Submission)

def key : String := Text.lower s.entry.name

def aliasKeys : List String := usableKeys s.key s.entry.aliases

def item : Item := .ofEntry kind s.entry s.packageName s.source

@[simp] theorem item_name : (s.item kind).name = s.key := rfl

@[simp] theorem item_version : (s.item kind).version = s.entry.version := rfl

theorem ofEntry_eq_item : Item.ofEntry kind s.entry s.packageName s.source = s.item kind := rfl

theorem key_not_mem_aliasKeys : s.key ∉ s.aliasKeys := fun h => (mem_usableKeys.mp h).2.2 rfl

end Submission

namespace ItemTable

def submit (t : ItemTable) (s : Submission) : Admission × ItemTable :=
  t.register s.entry s.packageName s.source

def grown (t : ItemTable) (s : Submission) : VersionGroup :=
  ⟨s.key, t.itemsOf s.key ++ [s.item t.kind]⟩

variable {t : ItemTable} {s : Submission}

theorem groupNamed?_getD (t : ItemTable) (key : String) :
    (t.groupNamed? key).getD (.empty key) = ⟨key, t.itemsOf key⟩ := by
  cases h : t.groupNamed? key with
  | none => simp [itemsOf, h, VersionGroup.empty]
  | some g =>
    obtain rfl := name_of_groupNamed? h
    simp [itemsOf, h]

theorem submit_of_alias {other : String} (h : t.aliasOwner? s.key = some other) :
    t.submit s = (.refused (.nameIsAlias (s.item t.kind) other), t) := by
  simp only [submit, register, Submission.ofEntry_eq_item, Submission.item_name, h]

/-- A version that is taken is passed over or refused, and the groups stay as they are. -/
theorem submit_of_taken {existing : Item} (hn : t.names.Nodup) (ha : t.aliasOwner? s.key = none)
    (hv : Selection.find? Item.version s.entry.version (t.itemsOf s.key) = some existing) :
    t.submit s =
      if t.tolerateDuplicates then
        (.skipped (s.item t.kind), { t with duplicatesSkipped := t.duplicatesSkipped + 1 })
      else (.refused (.duplicateVersion t.kind (s.item t.kind) existing), t) := by
  obtain ⟨g, hg⟩ : ∃ g, t.groupNamed? s.key = some g := by
    cases hg : t.groupNamed? s.key with
    | none => simp [itemsOf, hg, Selection.find?] at hv
    | some g => exact ⟨g, rfl⟩
  have hput : t.putGroup ⟨s.key, t.itemsOf s.key⟩ = t := by
    rw [← groupNamed?_getD, hg]
    exact putGroup_self hn ((name_of_groupNamed? hg).symm ▸ hg)
  simp only [submit, register, Submission.ofEntry_eq_item, Submission.item_name,
    Submission.item_version, ha, groupNamed?_getD, VersionGroup.add?, VersionGroup.find?, hv, hput]

theorem submit_of_new (ha : t.aliasOwner? s.key = none)
    (hv : Selection.find? Item.version s.entry.version (t.itemsOf s.key) = none) :
    t.submit s =
      if t.allowAliases then
        match mapAliases (s.item t.kind) (t.putGroup (t.grown s)) s.entry.aliases with
        | (none, u) => (.admitted (s.item t.kind), u)
        | (some e, u) => (.refused e, u)
      else (.admitted (s.item t.kind), t.putGroup (t.grown s)) := by
  have hadd : ((t.groupNamed? s.key).getD (.empty s.key)).add? (s.item t.kind) =
      some (t.grown s) := by
    simp only [groupNamed?_getD, VersionGroup.add?, VersionGroup.find?, Submission.item_version, hv,
      grown]
  rcases hmap : mapAliases (s.item t.kind) (t.putGroup (t.grown s)) s.entry.aliases with ⟨e?, u⟩
  cases e? with
  | none =>
    simp only [submit, register, Submission.ofEntry_eq_item, Submission.item_name, ha, hadd,
      allowAliases_putGroup, hmap]
  | some e =>
    simp only [submit, register, Submission.ofEntry_eq_item, Submission.item_name, ha, hadd,
      allowAliases_putGroup, hmap]

end ItemTable

end PackIndex
