import PackIndex.Catalog.Session
import PackIndex.Work

/-!
# Calls in steps

The work of a call, broken down into what it reads and changes at one time. A cycle fills the tables
where they stand, with one step for each entry, so a catalog passes through tables that are filled
in part. A question may read a table several times. Clearing a table and listing it are one step each:
they keep each other out with a mutex of the table.
-/

namespace PackIndex

namespace Catalog

/-! ### Building -/

/-- Admits an entry to a table where it stands. Of one that is refused, what it has left in the
table stays there. -/
def admitInto (kind : PackKind) (packageName : String) (source : Location) (entry : ManifestEntry)
    (c : Catalog) : Except BuildError Unit × Catalog :=
  match (c.table kind).register entry packageName source with
  | (.refused e, table) => (.error (.registry e), c.setTable kind table)
  | (_, table) => (.ok (), c.setTable kind table)

def admitSteps (kind : PackKind) (packageName : String) (source : Location) :
    List ManifestEntry → Work Catalog (Except BuildError Unit)
  | [] => .done (.ok ())
  | entry :: rest =>
    (Work.act (admitInto kind packageName source entry)).andThen fun () =>
      admitSteps kind packageName source rest

def admitPackagesSteps (t : FileTree) (kind : PackKind) :
    Nat → List Location → Work Catalog (Except BuildError Nat)
  | withoutManifest, [] => .done (.ok withoutManifest)
  | withoutManifest, l :: rest =>
    (Work.look fun c => (c.loadEntries t kind l).result).andThen fun
      | none => admitPackagesSteps t kind (withoutManifest + 1) rest
      | some entries =>
        (admitSteps kind l.name l entries).andThen fun () =>
          admitPackagesSteps t kind withoutManifest rest

def populateSteps (t : FileTree) (kind : PackKind) : Work Catalog (Except BuildError Unit) :=
  (Work.look fun c => (c.locations t kind).result).andThen fun found =>
    (admitPackagesSteps t kind 0 found).andThen fun withoutManifest => do
      Work.change fun c =>
        { c with metrics := c.metrics.recordScan found.length withoutManifest }
      return .ok ()

def buildSteps (t : FileTree) : Work Catalog (Except BuildError Unit) := do
  let paths ← Work.look fun c => c.config.searchPaths
  if paths = [] then return .error .noSearchPaths
  else
    (populateSteps t .variants).andThen fun () =>
      (populateSteps t .symbols).andThen fun () => Work.look checkTables

def clearSteps : Work Catalog Unit := do
  Work.change fun c => { c with variants := c.variants.clear }
  Work.change fun c => { c with symbols := c.symbols.clear }

def rebuildSteps (t : FileTree) : Work Catalog (Except BuildError Unit) := do
  Work.change fun c => { c with state := .initializing }
  clearSteps
  match ← buildSteps t with
  | .error e =>
    clearSteps
    Work.change fun c => { c with state := .uninitialized }
    Work.change fun c => { c with metrics := c.metrics.recordCycle false unmeasured .none }
    Work.change fun c => { c with lastError := some e }
    return .error e
  | .ok () =>
    Work.change fun c => { c with metrics := c.metrics.recordCycle true unmeasured c.sizes }
    Work.change fun c => { c with lastError := none }
    Work.change fun c => { c with state := .ready }
    return .ok ()

/-! ### Asking -/

/-- The name of the group that a name or an alias leads to. -/
def ownerSteps (kind : PackKind) (name : String) : Work Catalog (Option String) := do
  match ← Work.look fun c => (c.table kind).groupNamed? (Text.lower name) with
  | some g => return some g.name
  | none => Work.look fun c => (c.table kind).aliasOwner? (Text.lower name)

def groupSteps {α : Type} (kind : PackKind) (name : String) (read : VersionGroup → α) :
    Work Catalog (Option α) := do
  match ← ownerSteps kind name with
  | none => return none
  | some owner => Work.look fun c => ((c.table kind).groupNamed? owner).map read

def lookupSteps (kind : PackKind) (name : Option String) (selector : Selector) (strict : Bool) :
    Work Catalog (Option Item) :=
  match name with
  | none => .done none
  | some name => Option.join <$> groupSteps kind name fun g => g.pick? strict selector

def listSteps (kind : PackKind) : Work Catalog (Except QueryError (List Item)) :=
  Work.act fun c =>
    let (items, table) := (c.table kind).latest
    (items.mapError .registry, c.setTable kind table)

def getSteps (kind : Value) (name : Option String) (selector : Selector) (strict : Bool) :
    Work Catalog (Except QueryError (Option Item)) :=
  (Work.look requireReady).andThen fun () =>
    (Work.done (kindOf kind)).andThen fun kind => .ok <$> lookupSteps kind name selector strict

def versionsSteps (kind : Value) (name : Option String) :
    Work Catalog (Except QueryError (List Version)) :=
  (Work.look requireReady).andThen fun () =>
    match name with
    | none => .done (.ok [])
    | some name =>
      (Work.done (kindOf kind)).andThen fun kind => do
        let found ← groupSteps kind name fun g => Selection.ascending g.versions
        return .ok (found.getD [])

def resolveSteps (found : Option SharedNamespace → Traced ResolutionError Resolution) :
    Work Catalog (Except QueryError (Option ResourceHandle)) :=
  (Work.look requireReady).andThen fun () =>
    (Work.look fun c => (found c.shared).result.mapError .resolution).andThen fun r => do
      Work.change fun c => { c with metrics := c.metrics.recordResolution r.outcome }
      return .ok r.handle

def packSteps (name : Option String) (selector : Selector) (preferred : Option String) :
    Work Catalog (Except QueryError Item) :=
  (Work.look requireReady).andThen fun () => do
    match ← Work.firstOf [lookupSteps .symbols name selector true,
      lookupSteps .symbols name .newest false, lookupSteps .symbols preferred .newest false] with
    | some item => return .ok item
    | none =>
      (listSteps .symbols).andThen fun
        | [] => .done (.error .noSymbolPacks)
        | item :: _ => .done (.ok item)

def summarySteps : Work Catalog (Except QueryError Fields) :=
  (Work.look requireReady).andThen fun () => do
    let names ← Work.look fun c => c.variants.size
    let items ← Work.look fun c => c.variants.itemCount
    let aliases ← Work.look fun c => c.variants.aliases.length
    let packs ← Work.look fun c => c.symbols.size
    let packItems ← Work.look fun c => c.symbols.itemCount
    let count (n : Nat) : Value := .int n
    return .ok [("variant_names", count names), ("variant_items", count items),
      ("aliases", count aliases), ("symbol_pack_names", count packs),
      ("symbol_pack_items", count packItems)]

end Catalog

def Query.steps (t : FileTree) :
    Query → Except QueryError (Work Catalog (Except QueryError Reply))
  | .list kind =>
    .ok <| (Work.look Catalog.requireReady).andThen fun () =>
      (Work.done (Catalog.kindOf kind)).andThen fun kind =>
        Except.map .items <$> Catalog.listSteps kind
  | .get kind name selector strict =>
    ((Selector.ofValue selector).mapError .selector).map fun selector =>
      Except.map .item <$> Catalog.getSteps kind name selector strict
  | .versions kind name => .ok (Except.map .versions <$> Catalog.versionsSteps kind name)
  | .hasVersion kind name selector =>
    ((Selector.ofValue selector).mapError .selector).map fun selector =>
      Except.map (fun item => .truth item.isSome) <$> Catalog.getSteps kind name selector true
  | .aliases =>
    .ok <| (Work.look Catalog.requireReady).andThen fun () =>
      Work.look fun c => .ok (.aliases c.variants.aliases)
  | .summary => .ok (Except.map .summary <$> Catalog.summarySteps)
  | .resolve item ref =>
    .ok <| Except.map .handle <$>
      Catalog.resolveSteps fun ns => Resolver.resolveGiven t ns item ref
  | .resolveInPackage l ref =>
    .ok <| Except.map .handle <$>
      Catalog.resolveSteps fun ns => Resolver.resolveInGiven t ns l ref
  | .symbolPack none _ _ => .error .noMap
  | .symbolPack (some map) name version =>
    ((Selector.ofValue (if Catalog.isNonPositiveNumber version then .sentinel .newest
      else version)).mapError .selector).map fun selector =>
        Except.map .pack <$> Catalog.packSteps name selector map.preferredPack

/-- How a call ended, whatever it reported. -/
inductive Ended where
  | built (result : Except BuildError Unit)
  | answered (answer : Except QueryError Reply)

def CallResult.ended : CallResult → Ended
  | .built ended => .built ended.result
  | .answered answer => .answered answer.result

/-- The work of a call, unless it ends before it needs the lock. -/
def Call.steps (t : FileTree) : Call → Except Ended (Work Catalog Ended)
  | .rebuild => .ok (.built <$> Catalog.rebuildSteps t)
  | .ask q =>
    match q.steps t with
    | .error e => .error (.answered (.error e))
    | .ok work => .ok (.answered <$> work)

end PackIndex
