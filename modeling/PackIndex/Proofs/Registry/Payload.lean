import Mathlib.Data.List.Forall2
import PackIndex.Proofs.Catalog.InPlace
import PackIndex.Proofs.Registry.Submission

/-!
# What a table does not look at

A table keeps the payload of an item without looking at it, and of the aliases of an entry it sees
nothing but their usable keys. So admitting entries without their payloads gives the same table
without payloads, and entries with the same keys are admitted alike.
-/

namespace PackIndex

/-! ### Items without payloads -/

def Item.bare (i : Item) : Item := { i with payload := none }

@[simp] theorem Item.name_bare (i : Item) : i.bare.name = i.name := rfl

@[simp] theorem Item.version_bare (i : Item) : i.bare.version = i.version := rfl

def ManifestEntry.bare (e : ManifestEntry) : ManifestEntry := { e with payload := none }

@[simp] theorem ManifestEntry.aliases_bare (e : ManifestEntry) : e.bare.aliases = e.aliases := rfl

namespace RegistryError

def bare : RegistryError → RegistryError
  | nameIsAlias item other => nameIsAlias item.bare other
  | duplicateVersion kind item existing => duplicateVersion kind item.bare existing.bare
  | aliasTaken kind key item owner => aliasTaken kind key item.bare owner.bare
  | emptyGroup name => emptyGroup name
  | refusedVersion version name => refusedVersion version name

end RegistryError

def BuildError.bare : BuildError → BuildError
  | registry e => registry e.bare
  | e => e

def Admission.bare : Admission → Admission
  | admitted item => admitted item.bare
  | skipped item => skipped item.bare
  | refused e => refused e.bare

namespace Selection

variable {α : Type} {version : α → Version} (f : α → α)

theorem find?_map (hf : ∀ x, version (f x) = version x) (v : Version) (things : List α) :
    find? version v (things.map f) = (find? version v things).map f := by
  simp only [find?, List.find?_map, Function.comp_def, hf]

theorem oldest?_map (hf : ∀ x, version (f x) = version x) (things : List α) :
    oldest? version (things.map f) = (oldest? version things).map f := by
  cases things with
  | nil => rfl
  | cons x rest =>
    simp only [oldest?, List.map_cons, Option.map_some, Option.some.injEq]
    induction rest generalizing x with
    | nil => rfl
    | cons y rest ih =>
      simp only [List.map_cons, List.foldl_cons, hf]
      split
      · exact ih y
      · exact ih x

end Selection

namespace VersionGroup

def bare (g : VersionGroup) : VersionGroup := ⟨g.name, g.items.map Item.bare⟩

theorem find?_bare (g : VersionGroup) (v : Version) :
    g.bare.find? v = (g.find? v).map Item.bare :=
  Selection.find?_map Item.bare (fun _ => rfl) v g.items

theorem oldest?_bare (g : VersionGroup) : g.bare.oldest? = g.oldest?.map Item.bare :=
  Selection.oldest?_map Item.bare (fun _ => rfl) g.items

theorem add?_bare (g : VersionGroup) (i : Item) : g.bare.add? i.bare = (g.add? i).map bare := by
  rw [add?, find?_bare, Item.version_bare, add?]
  cases g.find? i.version with
  | some other => rfl
  | none => simp [bare]

end VersionGroup

namespace ItemTable

variable {t : ItemTable} {item : Item} {words words' : List String}

/-! ### Usable keys -/

def mapKey (t : ItemTable) (item : Item) (key : String) : Except RegistryError ItemTable :=
  match t.owner? key with
  | none => .ok (t.addAlias key item.name)
  | some owner =>
    if owner.name = item.name then .ok t
    else
      match owner.oldest? with
      | some other => .error (.aliasTaken t.kind key item other)
      | none => .error (.emptyGroup owner.name)

def mapKeys (item : Item) : ItemTable → List String → Option RegistryError × ItemTable
  | t, [] => (none, t)
  | t, key :: rest =>
    match t.mapKey item key with
    | .ok t => mapKeys item t rest
    | .error e => (some e, t)

theorem mapAliases_eq_mapKeys (item : Item) (t : ItemTable) (words : List String) :
    mapAliases item t words = mapKeys item t (usableKeys item.name words) := by
  induction words generalizing t with
  | nil => rfl
  | cons word rest ih =>
    by_cases hkey : aliasKey word = "" ∨ aliasKey word = item.name
    · have hkeys : usableKeys item.name (word :: rest) = usableKeys item.name rest := by
        rw [usableKeys, List.map_cons,
          List.filter_cons_of_neg (by simpa [imp_iff_not_or] using hkey), usableKeys]
      rw [mapAliases, mapAlias, if_pos hkey, hkeys]
      exact ih t
    · have hkeys : usableKeys item.name (word :: rest) =
          aliasKey word :: usableKeys item.name rest := by
        rw [usableKeys, List.map_cons, List.filter_cons_of_pos (by simpa using hkey), usableKeys]
      rw [mapAliases, mapAlias, if_neg hkey, hkeys, mapKeys]
      change (match t.mapKey item (aliasKey word) with | .ok t => _ | .error e => _) = _
      cases t.mapKey item (aliasKey word) with
      | error e => rfl
      | ok u => exact ih u

/-- Entries of one name and version whose aliases have the same usable keys. -/
structure SameKeys (e f : ManifestEntry) : Prop where
  name : e.name = f.name
  version : e.version = f.version
  keys : ∀ name, usableKeys name e.aliases = usableKeys name f.aliases

theorem SameKeys.register_bare {e f : ManifestEntry} (h : SameKeys e f) (t : ItemTable)
    (packageName : String) (source : Location) :
    t.register e.bare packageName source = t.register f.bare packageName source := by
  have hitem : Item.ofEntry t.kind e.bare packageName source =
      Item.ofEntry t.kind f.bare packageName source := by
    simp only [Item.ofEntry, ManifestEntry.bare, h.name, h.version]
  simp only [register, mapAliases_eq_mapKeys, hitem, ManifestEntry.aliases_bare, h.keys]

/-! ### Tables without payloads -/

def bare (t : ItemTable) : ItemTable :=
  { t with groups := t.groups.map VersionGroup.bare, snapshot := t.snapshot.map Item.bare }

theorem groupNamed?_bare (t : ItemTable) (key : String) :
    t.bare.groupNamed? key = (t.groupNamed? key).map VersionGroup.bare := by
  rw [groupNamed?, bare, List.find?_map]
  rfl

theorem owner?_bare (t : ItemTable) (key : String) :
    t.bare.owner? key = (t.owner? key).map VersionGroup.bare := by
  have halias : t.bare.aliasOwner? key = t.aliasOwner? key := rfl
  rw [owner?, halias, owner?]
  cases t.aliasOwner? key <;> exact groupNamed?_bare t _

theorem bare_putGroup (t : ItemTable) (g : VersionGroup) :
    (t.putGroup g).bare = t.bare.putGroup g.bare := by
  have hany : (t.bare.groups.any fun h => h.name = g.bare.name) =
      t.groups.any fun h => h.name = g.name := by
    rw [bare, List.any_map]
    rfl
  rw [putGroup, putGroup, hany]
  split
  · simp only [bare, List.map_map, Function.comp_def, apply_ite VersionGroup.bare]
    rfl
  · simp [bare]

theorem mapKey_bare (t : ItemTable) (item : Item) (key : String) :
    t.bare.mapKey item.bare key =
      ((t.mapKey item key).map bare).mapError RegistryError.bare := by
  rw [mapKey, owner?_bare, mapKey]
  cases t.owner? key with
  | none => rfl
  | some owner =>
    simp only [Option.map_some, VersionGroup.oldest?_bare]
    change (if owner.name = item.name then _ else _) = _
    split
    · rfl
    · cases owner.oldest? <;> rfl

theorem mapKeys_bare (item : Item) (t : ItemTable) (keys : List String) :
    mapKeys item.bare t.bare keys =
      ((mapKeys item t keys).1.map RegistryError.bare, (mapKeys item t keys).2.bare) := by
  induction keys generalizing t with
  | nil => rfl
  | cons key rest ih =>
    rw [mapKeys, mapKey_bare, mapKeys]
    cases t.mapKey item key with
    | error e => rfl
    | ok u => exact ih u

theorem register_bare (t : ItemTable) (e : ManifestEntry) (packageName : String)
    (source : Location) : t.bare.register e.bare packageName source =
      ((t.register e packageName source).1.bare, (t.register e packageName source).2.bare) := by
  have hitem : Item.ofEntry t.bare.kind e.bare packageName source =
      (Item.ofEntry t.kind e packageName source).bare := rfl
  simp only [register, hitem, Item.name_bare, Item.version_bare, ManifestEntry.aliases_bare,
    groupNamed?_bare]
  generalize Item.ofEntry t.kind e packageName source = item
  have halias : t.bare.aliasOwner? item.name = t.aliasOwner? item.name := rfl
  have hgroup : ((t.groupNamed? item.name).map VersionGroup.bare).getD (.empty item.name) =
      ((t.groupNamed? item.name).getD (.empty item.name)).bare := by
    cases t.groupNamed? item.name <;> rfl
  rw [halias, hgroup]
  generalize (t.groupNamed? item.name).getD (.empty item.name) = group
  -- From here on both sides take the same branches: none of them asks for a payload.
  cases t.aliasOwner? item.name with
  | some other => rfl
  | none =>
    simp only [VersionGroup.add?_bare, VersionGroup.find?_bare]
    cases group.add? item with
    | some grown =>
      have hallow : (t.putGroup grown).bare.allowAliases = (t.putGroup grown).allowAliases := rfl
      simp only [Option.map_some, ← bare_putGroup, mapAliases_eq_mapKeys, mapKeys_bare, hallow,
        Item.name_bare]
      split
      · rcases mapKeys item (t.putGroup grown) (usableKeys item.name e.aliases) with ⟨_ | _, u⟩ <;>
          rfl
      · rfl
    | none =>
      have htolerate : (t.putGroup group).bare.tolerateDuplicates =
          (t.putGroup group).tolerateDuplicates := rfl
      simp only [Option.map_none, ← bare_putGroup, htolerate]
      cases group.find? item.version with
      | none => rfl
      | some existing =>
        simp only [Option.map_some]
        split <;> rfl

theorem admitEach_bare (packageName : String) (source : Location) (t : ItemTable)
    (entries : List ManifestEntry) :
    admitEach packageName source t.bare (entries.map ManifestEntry.bare) =
      ((admitEach packageName source t entries).1.bare,
        (admitEach packageName source t entries).2.mapError BuildError.bare) := by
  induction entries generalizing t with
  | nil => rfl
  | cons entry rest ih =>
    rw [List.map_cons, admitEach, register_bare, admitEach]
    rcases t.register entry packageName source with ⟨admission, u⟩
    cases admission with
    | refused e => rfl
    | admitted item => exact ih u
    | skipped item => exact ih u

/-- Entries with the same keys leave the same table without payloads, and fail alike. -/
theorem admitEach_of_sameKeys {entries others : List ManifestEntry}
    (h : List.Forall₂ SameKeys entries others) (packageName : String) (source : Location)
    (t : ItemTable) :
    (admitEach packageName source t entries).1.bare =
        (admitEach packageName source t others).1.bare ∧
      (admitEach packageName source t entries).2.mapError BuildError.bare =
        (admitEach packageName source t others).2.mapError BuildError.bare := by
  have hsame (u : ItemTable) : admitEach packageName source u (entries.map ManifestEntry.bare) =
      admitEach packageName source u (others.map ManifestEntry.bare) := by
    induction h generalizing u with
    | nil => rfl
    | cons hkeys _ ih =>
      rw [List.map_cons, List.map_cons, admitEach, admitEach, hkeys.register_bare]
      split
      · rfl
      · exact ih _
  have hbare := hsame t.bare
  rw [admitEach_bare, admitEach_bare] at hbare
  exact Prod.mk.inj hbare

end ItemTable

end PackIndex
