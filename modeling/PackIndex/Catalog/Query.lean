import PackIndex.Catalog.Basic

/-!
# Asking a catalog

Questions to a catalog that has been built; before that, and after a failed cycle, all of them are
refused. Names and aliases count in any case.
-/

namespace PackIndex.Catalog

/-- Refuses every question to a catalog that is not ready. -/
def requireReady (c : Catalog) : Except QueryError Unit :=
  if c.state = .ready then .ok () else .error (.notReady c.state)

def kindOf (given : Value) : Except QueryError PackKind :=
  match given with
  | .str s =>
    match PackKind.ofWord? s with
    | some kind => .ok kind
    | none => .error (.unknownTable given)
  | _ => .error (.unknownTable given)

/-- The newest item of every name of a kind, by name, with the catalog afterwards. -/
def latest (c : Catalog) (kind : PackKind) : Except QueryError (List Item) × Catalog :=
  match c.requireReady with
  | .error e => (.error e, c)
  | .ok () =>
    let (items, table) := (c.table kind).latest
    (items.mapError .registry, c.setTable kind table)

/-- `latest` for a kind given as a value. -/
def list (c : Catalog) (kind : Value) : Except QueryError (List Item) × Catalog :=
  match c.requireReady, kindOf kind with
  | .error e, _ => (.error e, c)
  | .ok (), .error e => (.error e, c)
  | .ok (), .ok kind => c.latest kind

def lookup (t : ItemTable) (name : Option String) (selector : Selector) (strict : Bool) :
    Option Item :=
  name.bind fun name => (t.group? name).bind fun g => g.pick? strict selector

/-- The item of a name or alias. Without `strict`, a version that is not there gives the newest
item instead. -/
def get (c : Catalog) (kind : Value) (name : Option String) (selector : Value) (strict : Bool) :
    Except QueryError (Option Item) := do
  let selector ← (Selector.ofValue selector).mapError .selector
  c.requireReady
  let kind ← kindOf kind
  return lookup (c.table kind) name selector strict

def aliases (c : Catalog) : Except QueryError (List (String × String)) := do
  c.requireReady
  return c.variants.aliases

def versionsOf (t : ItemTable) (name : String) : List Version :=
  match t.group? name with
  | some g => Selection.ascending g.versions
  | none => []

def versions (c : Catalog) (kind : Value) (name : Option String) :
    Except QueryError (List Version) := do
  c.requireReady
  match name with
  | none => return []
  | some name =>
    let kind ← kindOf kind
    return versionsOf (c.table kind) name

def hasVersion (c : Catalog) (kind : Value) (name : Option String) (selector : Value) :
    Except QueryError Bool :=
  (c.get kind name selector true).map Option.isSome

/-- The answer of a look-up that is allowed, its outcome counted. -/
def counted (c : Catalog) (found : Traced ResolutionError Resolution) :
    Traced QueryError (Option ResourceHandle) × Catalog :=
  match c.requireReady with
  | .error e => (.fail e, c)
  | .ok () =>
    match found.result with
    | .error e => (⟨.error (.resolution e), found.events⟩, c)
    | .ok r =>
      (⟨.ok r.handle, found.events⟩, { c with metrics := c.metrics.recordResolution r.outcome })

def resolve (t : FileTree) (c : Catalog) (item : Option Item) (ref : Option String) :
    Traced QueryError (Option ResourceHandle) × Catalog :=
  c.counted (Resolver.resolveGiven t c.shared item ref)

def resolveInPackage (t : FileTree) (c : Catalog) (l : Option Location) (ref : Option String) :
    Traced QueryError (Option ResourceHandle) × Catalog :=
  c.counted (Resolver.resolveInGiven t c.shared l ref)

def packageUrl (item : Option Item) : Except QueryError String :=
  match item with
  | some item => .ok item.source.rootUrl
  | none => .error .noItem

structure MapStyle where
  preferredPack : Option String

/-- Whether a value is a number that is not positive; truth values are no numbers here. -/
def isNonPositiveNumber : Value → Bool
  | .int n => decide (n ≤ 0)
  | .float x => !x.isNaN && !x.isPositive
  | _ => false

/-- The symbol pack that `choosePack` settles on, from the table of symbol packs. -/
def choosePack (t : ItemTable) (name : Option String) (selector : Selector)
    (preferred : Option String) : Option Item :=
  ((lookup t name selector true).or (lookup t name .newest false)).or
    (lookup t preferred .newest false)

/-- The symbol pack to draw a map with: the named one in the version asked for or else its newest,
then the newest of the pack the map prefers, then the first pack by name. -/
def symbolPack (c : Catalog) (map : Option MapStyle) (name : Option String) (version : Value) :
    Traced QueryError Item × Catalog :=
  match map with
  | none => (.fail .noMap, c)
  | some map =>
    let ignored := isNonPositiveNumber version
    let events := if ignored then [Event.symbolVersionIgnored name version] else []
    match Selector.ofValue (if ignored then .sentinel .newest else version) with
    | .error e => (⟨.error (.selector e), events⟩, c)
    | .ok selector =>
      match c.requireReady with
      | .error e => (⟨.error e, events⟩, c)
      | .ok () =>
        match choosePack c.symbols name selector map.preferredPack with
        | some item => (⟨.ok item, events⟩, c)
        | none =>
          match c.latest .symbols with
          | (.error e, c) => (⟨.error e, events⟩, c)
          | (.ok [], c) => (⟨.error .noSymbolPacks, events⟩, c)
          | (.ok (item :: _), c) => (⟨.ok item, events⟩, c)

def summary (c : Catalog) : Except QueryError Fields := do
  c.requireReady
  let count (n : Nat) : Value := .int n
  return [("variant_names", count c.variants.size), ("variant_items", count c.variants.itemCount),
    ("aliases", count c.variants.aliases.length), ("symbol_pack_names", count c.symbols.size),
    ("symbol_pack_items", count c.symbols.itemCount)]

end PackIndex.Catalog
