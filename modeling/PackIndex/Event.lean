import PackIndex.Package.Kind
import PackIndex.Value

/-!
# Events

What the catalog reports while it works. Each event has a level, the part of the program it
comes from, a message and fields; durations are measured outside and left open here.
-/

namespace PackIndex

inductive EventLevel where
  | debug
  | info
  | warning
  | error
  deriving DecidableEq, Repr

def EventLevel.word : EventLevel → String
  | .debug => "DEBUG"
  | .info => "INFO"
  | .warning => "WARNING"
  | .error => "ERROR"

inductive Event where
  | searchPathUnlisted (path error : String)
  | searchPathsScanned (paths packages : Nat)
  | manifestLoaded (package manifest : String) (entries : Nat)
  | manifestAbsent (package manifest : String)
  | duplicateSkipped (kind : PackKind) (item : String)
  | tablePopulated (kind : PackKind) (packages withoutManifest names items : Nat)
  | catalogReady (variants symbolPacks aliases : Nat)
  | catalogFailed (error errorKind : String)
  | namespaceArchiveUnread (package error : String)
  | namespaceMatches (ref : String) (count : Nat)
  | packageUnread (ref package error : String)
  | resourceUnresolved (ref package : String)
  | symbolVersionIgnored (name : Option String) (version : Value)

structure EventRecord where
  level : EventLevel
  logger : String
  message : String
  fields : Fields

namespace Event

def scannerLogger : String := "packcatalog.registry.package"
def manifestLogger : String := "packcatalog.registry.manifest"
def tableLogger : String := "packcatalog.registry.tables"
def resourceLogger : String := "packcatalog.resources"
def catalogLogger : String := "packcatalog.catalog"

def count (n : Nat) : Value := .int n

def record : Event → EventRecord
  | searchPathUnlisted path error =>
    ⟨.warning, scannerLogger, "Cannot list search path",
      [("search_path", .str path), ("error", .str error)]⟩
  | searchPathsScanned paths packages =>
    ⟨.debug, scannerLogger, "Scanned search paths",
      [("search_path_count", count paths), ("package_count", count packages)]⟩
  | manifestLoaded package manifest entries =>
    ⟨.debug, manifestLogger, "Loaded manifest",
      [("package", .str package), ("manifest", .str manifest), ("entry_count", count entries)]⟩
  | manifestAbsent package manifest =>
    ⟨.debug, catalogLogger, "Package has no manifest, skipping",
      [("package", .str package), ("manifest", .str manifest)]⟩
  | duplicateSkipped kind item =>
    ⟨.warning, tableLogger, "Skipping duplicate version",
      [("kind", .str kind.word), ("item", .str item)]⟩
  | tablePopulated kind packages withoutManifest names items =>
    ⟨.debug, catalogLogger, "Table populated",
      [("kind", .str kind.word), ("package_count", count packages),
        ("without_manifest", count withoutManifest), ("name_count", count names),
        ("item_count", count items)]⟩
  | catalogReady variants symbolPacks aliases =>
    ⟨.info, catalogLogger, "Catalog initialized",
      [("variant_count", count variants), ("symbol_pack_count", count symbolPacks),
        ("alias_count", count aliases), ("duration_ms", .null), ("variants_ms", .null),
        ("symbols_ms", .null)]⟩
  | catalogFailed error errorKind =>
    ⟨.error, catalogLogger, "Catalog initialization failed",
      [("error", .str error), ("error_type", .str errorKind), ("duration_ms", .null)]⟩
  | namespaceArchiveUnread package error =>
    ⟨.warning, resourceLogger, "Cannot open namespace archive",
      [("package", .str package), ("error", .str error)]⟩
  | namespaceMatches ref n =>
    ⟨.debug, resourceLogger, "Multiple namespace matches, taking first",
      [("ref", .str ref), ("match_count", count n)]⟩
  | packageUnread ref package error =>
    ⟨.warning, resourceLogger, "Cannot open package to resolve resource",
      [("ref", .str ref), ("package", .str package), ("error", .str error)]⟩
  | resourceUnresolved ref package =>
    ⟨.debug, resourceLogger, "Unresolved resource",
      [("ref", .str ref), ("package", .str package)]⟩
  | symbolVersionIgnored name version =>
    ⟨.warning, catalogLogger, "Symbol pack requested with non-positive version, using newest",
      [("symbol_pack", match name with | some s => .str s | none => .null), ("version", version)]⟩

end Event

end PackIndex
