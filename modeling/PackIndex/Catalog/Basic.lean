import PackIndex.Catalog.Error
import PackIndex.Config.Basic
import PackIndex.Metrics
import PackIndex.Registry.ItemTable

/-!
# Catalogs

A catalog holds one table of variants and one of symbol packs, built from the packs that its
configuration leads to. With a shared namespace it also looks into the archives there, and passes
over second copies of a version.
-/

namespace PackIndex

/-- Where the entries of a package come from. -/
inductive PackLoader where
  | manifests
  /-- The same entries for every package; without entries, no package has a manifest. -/
  | fixed (entries : Option (List ManifestEntry))
  /-- From a reader that is not known here, and that may fail in any way. -/
  | outside
      (read : FileTree → Location → String → Except BuildError (Option (List ManifestEntry)))

structure Catalog where
  config : CatalogConfig
  shared : Option SharedNamespace
  loader : PackKind → PackLoader
  state : CatalogState
  variants : ItemTable
  symbols : ItemTable
  lastError : Option BuildError
  metrics : Metrics

namespace Catalog

/-- A catalog before its first cycle. -/
def ofNamespace (config : CatalogConfig) (shared : Option SharedNamespace)
    (loader : PackKind → PackLoader) : Catalog :=
  { config, shared, loader
    state := .uninitialized
    variants := .empty .variants shared.isSome
    symbols := .empty .symbols shared.isSome
    lastError := none
    metrics := .fresh }

/-- A catalog whose namespace is the one its configuration asks for, unless another is given. -/
def create (t : FileTree) (config : CatalogConfig) (shared : Option SharedNamespace)
    (loader : PackKind → PackLoader) : Except ResolveError Catalog :=
  match shared with
  | some _ => .ok (ofNamespace config shared loader)
  | none =>
    if config.sharedNamespaceEnabled then
      (SharedNamespace.ofPaths t config.sharedNamespace).map fun ns =>
        ofNamespace config (some ns) loader
    else .ok (ofNamespace config none loader)

def isReady (c : Catalog) : Bool := c.state == .ready

def table (c : Catalog) : PackKind → ItemTable
  | .variants => c.variants
  | .symbols => c.symbols

def setTable (c : Catalog) (kind : PackKind) (t : ItemTable) : Catalog :=
  match kind with
  | .variants => { c with variants := t }
  | .symbols => { c with symbols := t }

def suffixes (c : Catalog) : PackKind → List String
  | .variants => c.config.variantSuffixes
  | .symbols => c.config.symbolSuffixes

def manifestName (c : Catalog) : PackKind → String
  | .variants => c.config.variantManifest
  | .symbols => c.config.symbolManifest

end Catalog

end PackIndex
