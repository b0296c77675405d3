import PackIndex.Manifest.Loader
import PackIndex.Package.Scan
import PackIndex.Registry.Error
import PackIndex.Resource.Resolver

/-!
# Catalog errors

`BuildError` is why a catalog could not be built, `QueryError` why a question to it has no answer.
Every build error belongs to some named categories; those that tell of the packs themselves, and
not of a fault of the program, are initialization errors.
-/

namespace PackIndex

inductive CatalogState where
  | uninitialized
  | initializing
  | ready
  deriving DecidableEq, Repr

def CatalogState.word : CatalogState → String
  | .uninitialized => "uninitialized"
  | .initializing => "initializing"
  | .ready => "ready"

inductive BuildError where
  | noSearchPaths
  | noPacks (kind : PackKind) (paths : List FilePath)
  | manifest (e : ManifestError)
  | registry (e : RegistryError)
  | archive (e : ArchiveError)
  | scan (e : ScanError)
  /-- A fault of a reader from outside, known by the names of its categories, the narrowest first,
  and by its text. -/
  | outside (categories : List String) (message : String)

namespace BuildError

def ofLoadError : LoadError → BuildError
  | .manifest e => manifest e
  | .archive e => archive e

def message : BuildError → String
  | noSearchPaths => "No search paths supplied; cannot look for packs"
  | noPacks kind paths =>
    "No " ++ kind.word ++ " found on path: " ++ "; ".intercalate (paths.map FilePath.text)
  | manifest e => e.message
  | registry e => e.message
  | archive e => e.message
  | scan e => e.message
  | outside _ message => message

/-- The categories of initialization errors below `special`. -/
def initCategories (special : List String) : List String :=
  special ++ ["CatalogInitError", "CatalogError"]

/-- The names of the categories an error belongs to, the narrowest first. -/
def categories : BuildError → List String
  | noSearchPaths => initCategories ["NoSearchPathsError"]
  | noPacks _ _ => initCategories ["NoPacksFoundError"]
  | manifest _ => initCategories ["ManifestParseError"]
  | registry (.duplicateVersion _ _ _) => initCategories ["DuplicateVersionError", "RegistryError"]
  | registry (.nameIsAlias _ _) | registry (.aliasTaken _ _ _ _) =>
    initCategories ["AliasConflictError", "RegistryError"]
  | registry (.emptyGroup _) | registry (.refusedVersion _ _) => ["RuntimeError"]
  | archive (.member (.faulty _ .unknownMethod)) => ["NotImplementedError", "RuntimeError"]
  | archive (.member (.missing _)) | archive (.member (.unusablePath _)) => ["KeyError", "LookupError"]
  | archive _ => ["RuntimeError"]
  | scan .missingEntry | scan .nulInPath | scan (.unresolved .nulInPath) => ["ValueError"]
  | scan (.unresolved (.loop _)) => ["RuntimeError"]
  | outside categories _ => categories

def kindName (e : BuildError) : String := e.categories.headD ""

/-- Whether an error tells of the packs or their configuration, and is reported to users as
such. -/
def isInitError : BuildError → Bool
  | noSearchPaths | noPacks _ _ | manifest _ => true
  | registry e => e.isDataError
  | archive _ | scan _ => false
  | outside categories _ => categories.contains "CatalogInitError"

def location? : BuildError → Option Location
  | manifest e => some e.location
  | _ => none

end BuildError

inductive QueryError where
  | notReady (state : CatalogState)
  | noSymbolPacks
  | selector (e : SelectorError)
  | unknownTable (given : Value)
  | registry (e : RegistryError)
  | resolution (e : ResolutionError)
  | noItem
  | noMap

namespace QueryError

def message : QueryError → String
  | notReady state => "Catalog is not initialized (state: " ++ state.word ++ ")"
  | noSymbolPacks => "No symbol packs are registered"
  | selector e => e.message
  | unknownTable given => given.quotedText ++ " is not a valid PackKind"
  | registry e => e.message
  | resolution e => e.message
  | noItem => "item must not be None"
  | noMap => "map_graphic must not be None"

end QueryError

end PackIndex
