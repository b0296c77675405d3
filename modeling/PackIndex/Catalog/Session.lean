import PackIndex.Catalog.Build
import PackIndex.Catalog.Query
import PackIndex.Lock

/-!
# Sessions

A session calls a catalog again and again: to build it, and to ask it. A call that builds holds the
lock of the catalog alone, a call that asks shares it with others; either gives it back when it
ends, in good order or not.
-/

namespace PackIndex

inductive Query where
  | list (kind : Value)
  | get (kind : Value) (name : Option String) (selector : Value) (strict : Bool)
  | versions (kind : Value) (name : Option String)
  | hasVersion (kind : Value) (name : Option String) (selector : Value)
  | aliases
  | summary
  | resolve (item : Option Item) (ref : Option String)
  | resolveInPackage (l : Option Location) (ref : Option String)
  | symbolPack (map : Option Catalog.MapStyle) (name : Option String) (version : Value)

inductive Reply where
  | items (items : List Item)
  | item (item : Option Item)
  | versions (versions : List Version)
  | truth (answer : Bool)
  | aliases (aliases : List (String × String))
  | summary (counts : Fields)
  | handle (handle : Option ResourceHandle)
  | pack (item : Item)

inductive Call where
  | rebuild
  | ask (q : Query)

def Call.access : Call → Access
  | .rebuild => .write
  | .ask _ => .read

/-- How a call ended and what it reported. -/
inductive CallResult where
  | built (ended : Traced BuildError Unit)
  | answered (answer : Traced QueryError Reply)

namespace Catalog

def ask (t : FileTree) (c : Catalog) : Query → Traced QueryError Reply × Catalog
  | .list kind =>
    let (answer, c) := c.list kind
    (.ofExcept (answer.map .items), c)
  | .get kind name selector strict => (.ofExcept ((c.get kind name selector strict).map .item), c)
  | .versions kind name => (.ofExcept ((c.versions kind name).map .versions), c)
  | .hasVersion kind name selector =>
    (.ofExcept ((c.hasVersion kind name selector).map .truth), c)
  | .aliases => (.ofExcept (c.aliases.map .aliases), c)
  | .summary => (.ofExcept (c.summary.map .summary), c)
  | .resolve item ref =>
    let (answer, c) := c.resolve t item ref
    (answer.map .handle, c)
  | .resolveInPackage l ref =>
    let (answer, c) := c.resolveInPackage t l ref
    (answer.map .handle, c)
  | .symbolPack map name version =>
    let (answer, c) := c.symbolPack map name version
    (answer.map .pack, c)

def perform (t : FileTree) (c : Catalog) : Call → CallResult × Catalog
  | .rebuild =>
    let (c, ended) := c.rebuild t
    (.built ended, c)
  | .ask q =>
    let (answer, c) := c.ask t q
    (.answered answer, c)

def session (c : Catalog) : List (FileTree × Call) → List CallResult × Catalog
  | [] => ([], c)
  | (t, call) :: rest =>
    let (result, c) := c.perform t call
    let (results, c) := c.session rest
    (result :: results, c)

end Catalog

/-- A catalog behind its lock. -/
structure GuardedCatalog where
  catalog : Catalog
  lock : LockState

namespace GuardedCatalog

/-- A call of a thread that gets in at once: it takes the lock, works, and gives the lock back
however the work has ended. -/
def call? (t : FileTree) (thread : String) (g : GuardedCatalog) (call : Call) :
    Option (CallResult × GuardedCatalog) := do
  let taken ← g.lock.step? (.arrive thread call.access)
  guard (taken.stage? thread = some (.inside call.access))
  let (result, catalog) := g.catalog.perform t call
  let freed ← taken.step? (.leave thread)
  return (result, ⟨catalog, freed⟩)

end GuardedCatalog

end PackIndex
