import PackIndex.Config.Basic

/-!
# Configuration from the environment

Two variables hold lists of paths divided by colons.
-/

namespace PackIndex.CatalogConfig

def searchPathVariable : String := "PACKCATALOG_SEARCH_PATH"

def sharedNamespaceVariable : String := "PACKCATALOG_SHARED_NAMESPACE"

/-- The paths of a list, blank ones dropped. -/
def splitPaths (s : String) : Value :=
  .list (((Text.split ':' s).filter fun p => Text.strip p ≠ "").map .str)

def ofEnvironment (homes : Homes) (valueOf? : String → Option String) (overrides : Fields) :
    Except ConfigError CatalogConfig :=
  let list (name : String) : Value := splitPaths ((valueOf? name).getD "")
  let fields : Fields :=
    [("search_paths", list searchPathVariable), ("shared_namespace", list sharedNamespaceVariable)]
  let fields := fields.update overrides
  ofFields homes fields (keysOf fields)

end PackIndex.CatalogConfig
