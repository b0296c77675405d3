import PackIndex.Registry.Error
import PackIndex.Registry.VersionGroup
import PackIndex.Text.Blank

/-!
# Item tables

A table maps lower-case names to version groups, and aliases to the names of groups, both in the
order in which they came. Admitting an entry that is refused may leave the table changed: a new
group stays, and after an alias conflict so do the item and the aliases before the conflicting
one. The sorted list of newest items is kept until the number of groups changes.
-/

namespace PackIndex

structure ItemTable where
  kind : PackKind
  allowAliases : Bool
  /-- Whether a second item of one version is passed over instead of refused. -/
  tolerateDuplicates : Bool
  groups : List VersionGroup
  aliases : List (String × String)
  snapshot : List Item
  duplicatesSkipped : Nat

inductive Admission where
  | admitted (item : Item)
  | skipped (item : Item)
  | refused (e : RegistryError)

namespace ItemTable

/-- A table without entries; only variants have aliases. -/
def empty (kind : PackKind) (tolerateDuplicates : Bool) : ItemTable :=
  ⟨kind, kind == .variants, tolerateDuplicates, [], [], [], 0⟩

def size (t : ItemTable) : Nat := t.groups.length

def groupNamed? (t : ItemTable) (key : String) : Option VersionGroup :=
  t.groups.find? fun g => g.name = key

def aliasOwner? (t : ItemTable) (key : String) : Option String := t.aliases.lookup key

/-- The group that an alias or a name leads to; aliases come first. -/
def owner? (t : ItemTable) (key : String) : Option VersionGroup :=
  match t.aliasOwner? key with
  | some name => t.groupNamed? name
  | none => t.groupNamed? key

/-- Puts a group in the place of the group of its name, or at the end. -/
def putGroup (t : ItemTable) (g : VersionGroup) : ItemTable :=
  if t.groups.any fun h => h.name = g.name then
    { t with groups := t.groups.map fun h => if h.name = g.name then g else h }
  else { t with groups := t.groups ++ [g] }

/-- The lower-case form under which an alias is looked up. -/
def aliasKey (name : String) : String := Text.lower (Text.strip name)

def mapAlias (t : ItemTable) (item : Item) (word : String) : Except RegistryError ItemTable :=
  let key := aliasKey word
  if key = "" ∨ key = item.name then .ok t
  else
    match t.owner? key with
    | none => .ok { t with aliases := t.aliases ++ [(key, item.name)] }
    | some owner =>
      if owner.name = item.name then .ok t
      else
        match owner.oldest? with
        | some other => .error (.aliasTaken t.kind key item other)
        | none => .error (.emptyGroup owner.name)

/-- Maps the aliases of an item one after the other, up to the first that is taken. -/
def mapAliases (item : Item) : ItemTable → List String → Option RegistryError × ItemTable
  | t, [] => (none, t)
  | t, word :: rest =>
    match t.mapAlias item word with
    | .ok t => mapAliases item t rest
    | .error e => (some e, t)

def register (t : ItemTable) (entry : ManifestEntry) (packageName : String) (source : Location) :
    Admission × ItemTable :=
  let item := Item.ofEntry t.kind entry packageName source
  match t.aliasOwner? item.name with
  | some other => (.refused (.nameIsAlias item other), t)
  | none =>
    let group := (t.groupNamed? item.name).getD (.empty item.name)
    match group.add? item with
    | some grown =>
      let t := t.putGroup grown
      if t.allowAliases then
        match mapAliases item t entry.aliases with
        | (none, t) => (.admitted item, t)
        | (some e, t) => (.refused e, t)
      else (.admitted item, t)
    | none =>
      let t := t.putGroup group
      match group.find? item.version with
      | none => (.refused (.refusedVersion item.version item.name), t)
      | some existing =>
        if t.tolerateDuplicates then
          (.skipped item, { t with duplicatesSkipped := t.duplicatesSkipped + 1 })
        else (.refused (.duplicateVersion t.kind item existing), t)

def clear (t : ItemTable) : ItemTable :=
  { t with groups := [], aliases := [], snapshot := [], duplicatesSkipped := 0 }

/-- The group of a name or an alias, in any case; names come first. -/
def group? (t : ItemTable) (name : String) : Option VersionGroup :=
  let key := Text.lower name
  match t.groupNamed? key with
  | some g => some g
  | none => (t.aliasOwner? key).bind t.groupNamed?

def contains (t : ItemTable) (name : String) : Bool := (t.group? name).isSome

def itemCount (t : ItemTable) : Nat := (t.groups.flatMap fun g => g.items).length

def newestItems : List VersionGroup → Except RegistryError (List Item)
  | [] => .ok []
  | g :: rest =>
    match g.newest? with
    | some item => (newestItems rest).map (item :: ·)
    | none => .error (.emptyGroup g.name)

/-- The newest item of every name, by name, with the table afterwards. -/
def latest (t : ItemTable) : Except RegistryError (List Item) × ItemTable :=
  if t.snapshot.length = t.groups.length then (.ok t.snapshot, t)
  else
    match newestItems t.groups with
    | .error e => (.error e, t)
    | .ok items =>
      let sorted := items.mergeSort fun a b => Text.atMost a.name b.name
      (.ok sorted, { t with snapshot := sorted })

end ItemTable

end PackIndex
