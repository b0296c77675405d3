import PackIndex.Catalog.Basic

/-!
# Building a catalog

A cycle drops both tables, fills them again from the packs found, and ends with a ready catalog or
with empty tables and an error. The scan of a table counts in the metrics once the table has been
filled, even if the cycle fails afterwards.
-/

namespace PackIndex

structure ScanCount where
  scanned : Nat
  withoutManifest : Nat
  deriving DecidableEq, Repr

def Admission.events (kind : PackKind) : Admission → List Event
  | .skipped item => [.duplicateSkipped kind item.describe]
  | _ => []

namespace ItemTable

/-- Admits entries of one package up to the first that is refused. -/
def admitAll (packageName : String) (source : Location) :
    ItemTable → List ManifestEntry → Traced BuildError ItemTable
  | t, [] => pure t
  | t, entry :: rest =>
    match t.register entry packageName source with
    | (.refused e, _) => .fail (.registry e)
    | (admission, t) => do
      Traced.report (admission.events t.kind)
      admitAll packageName source t rest

end ItemTable

namespace Catalog

def addLocations (found : List Location) : List ResourceHandle → List Location
  | [] => found
  | h :: rest =>
    match h.location? with
    | none => addLocations found rest
    | some l => addLocations (if found.contains l then found else found ++ [l]) rest

/-- The packages of a kind: those on the search paths, and the archives of the shared namespace
that hold a manifest of the kind. -/
def locations (t : FileTree) (c : Catalog) (kind : PackKind) : Traced BuildError (List Location) := do
  let found ← (scanPackages t (c.config.searchPaths.map some) (c.suffixes kind)).mapError .scan
  match c.shared with
  | none => return found
  | some ns =>
    let handles ← ns.findResources t (c.manifestName kind)
    return addLocations found handles

def loadEntries (t : FileTree) (c : Catalog) (kind : PackKind) (l : Location) :
    Traced BuildError (Option (List ManifestEntry)) :=
  match c.loader kind with
  | .manifests => (Manifest.load kind t l (c.manifestName kind)).mapError .ofLoadError
  | .fixed entries => pure entries
  | .outside read => .ofExcept (read t l (c.manifestName kind))

/-- Admits the entries of packages, one package after the other; counts those without a
manifest. -/
def admitPackages (t : FileTree) (c : Catalog) (kind : PackKind) :
    ItemTable → Nat → List Location → Traced BuildError (ItemTable × Nat)
  | table, withoutManifest, [] => pure (table, withoutManifest)
  | table, withoutManifest, l :: rest => do
    let entries ← c.loadEntries t kind l
    match entries with
    | none =>
      Traced.emit (.manifestAbsent l.name (c.manifestName kind))
      admitPackages t c kind table (withoutManifest + 1) rest
    | some entries =>
      let table ← table.admitAll l.name l entries
      admitPackages t c kind table withoutManifest rest

def populate (t : FileTree) (c : Catalog) (kind : PackKind) :
    Traced BuildError (ItemTable × ScanCount) := do
  let found ← c.locations t kind
  let (table, withoutManifest) ← admitPackages t c kind (c.table kind) 0 found
  Traced.emit
    (.tablePopulated kind found.length withoutManifest table.size table.itemCount)
  return (table, ⟨found.length, withoutManifest⟩)

def clearTables (c : Catalog) : Catalog :=
  { c with variants := c.variants.clear, symbols := c.symbols.clear }

def fill (t : FileTree) (c : Catalog) (kind : PackKind) : Catalog × Except BuildError Unit × List Event :=
  let filled := c.populate t kind
  match filled.result with
  | .error e => (c, .error e, filled.events)
  | .ok (table, count) =>
    ({ c.setTable kind table with
        metrics := c.metrics.recordScan count.scanned count.withoutManifest },
      .ok (), filled.events)

def checkTables (c : Catalog) : Except BuildError Unit :=
  if c.variants.size = 0 then .error (.noPacks .variants c.config.searchPaths)
  else if c.config.requireSymbolPacks ∧ c.symbols.size = 0 then
    .error (.noPacks .symbols c.config.searchPaths)
  else .ok ()

def build (t : FileTree) (c : Catalog) : Catalog × Except BuildError Unit × List Event :=
  if c.config.searchPaths = [] then (c, .error .noSearchPaths, [])
  else
    match c.fill t .variants with
    | (c, .error e, events) => (c, .error e, events)
    | (c, .ok (), events) =>
      match c.fill t .symbols with
      | (c, .error e, more) => (c, .error e, events ++ more)
      | (c, .ok (), more) => (c, c.checkTables, events ++ more)

def sizes (c : Catalog) : TableSizes :=
  ⟨c.variants.size, c.variants.itemCount, c.symbols.size, c.symbols.itemCount,
    c.variants.duplicatesSkipped + c.symbols.duplicatesSkipped⟩

/-- How long a cycle takes is not known here. -/
def unmeasured : Value := .null

def failed (c : Catalog) (e : BuildError) : Catalog :=
  { c.clearTables with
    state := .uninitialized
    lastError := some e
    metrics := c.metrics.recordCycle false unmeasured .none }

def succeeded (c : Catalog) : Catalog :=
  { c with
    state := .ready
    lastError := none
    metrics := c.metrics.recordCycle true unmeasured c.sizes }

/-- One cycle: the catalog afterwards, how it ended and what it reported. -/
def rebuild (t : FileTree) (c : Catalog) : Catalog × Traced BuildError Unit :=
  match { c.clearTables with state := .initializing }.build t with
  | (c, .error e, events) =>
    (c.failed e, ⟨.error e, events ++ [.catalogFailed e.message e.kindName]⟩)
  | (c, .ok (), events) =>
    (c.succeeded,
      ⟨.ok (), events ++ [.catalogReady c.variants.size c.symbols.size c.variants.aliases.length]⟩)

end Catalog

end PackIndex
