import PackIndex.Catalog.Build
import PackIndex.Config.File
import PackIndex.Json.Writer
import PackIndex.Listing.Basic
import PackIndex.Listing.Options

/-!
# The listing command

Builds a catalog from a configuration file and options, and prints everything in it. An
initialization error is printed and ends the command with status 1; a command line that cannot be
read ends it with status 2.
-/

namespace PackIndex

structure CommandResult where
  status : UInt8
  output : String

inductive CommandError where
  | config (e : ConfigFileError)
  | location (e : ResolveError)
  | build (e : BuildError)
  | query (e : QueryError)

def CommandError.message : CommandError → String
  | config e => e.message
  | location e => e.message
  | build e => e.message
  | query e => e.message

namespace CatalogConfig

/-- A configuration with further search paths, which come last, and without the need for symbol
packs if that is asked for. -/
def merged (homes : Homes) (base : CatalogConfig) (searchPaths : List FilePath)
    (allowNoSymbols : Bool) : Except ConfigError CatalogConfig :=
  let paths : Fields :=
    if searchPaths = [] then []
    else [("search_paths", pathsValue (base.searchPaths ++ searchPaths))]
  let require : Fields := if allowNoSymbols then [("require_symbol_packs", .bool false)] else []
  if paths ++ require = [] then .ok base else base.updated homes (paths ++ require)

end CatalogConfig

namespace Listing

def config (read : YamlReader) (homes : Homes) (t : FileTree) (file : Option FilePath)
    (searchPaths : List FilePath) (allowNoSymbols : Bool) :
    Except ConfigFileError CatalogConfig := do
  let base ← match file with
    | some p => ConfigFile.load read homes t p
    | none => .ok .default
  (base.merged homes searchPaths allowNoSymbols).mapError .config

def usage : String := "\n".intercalate
  ["usage: packs [-h] [--search-path SEARCH_PATH] [--config CONFIG]",
    "             [--allow-no-symbols] [--json] [--verbose]",
    "",
    "List variant and symbol packs found on the search paths.",
    "",
    "options:",
    "  -h, --help            show this help message and exit",
    "  --search-path SEARCH_PATH",
    "                        Directory to scan for packs (repeatable)",
    "  --config CONFIG       Catalog config YAML",
    "  --allow-no-symbols    Do not fail when no symbol pack is found",
    "  --json                Print the listing as JSON",
    "  --verbose, -v         Log debug output to stderr",
    ""]

def ofConfig (t : FileTree) (config : CatalogConfig) (json : Bool) :
    Except CommandError CommandResult := do
  let catalog ← (Catalog.create t config none fun _ => .manifests).mapError .location
  let (catalog, built) := catalog.rebuild t
  match built.result with
  | .error e =>
    if e.isInitError then return ⟨1, "ERROR: " ++ e.message ++ "\n"⟩ else .error (.build e)
  | .ok () =>
    let listing ← catalog.listing.1.mapError .query
    let text := if json then Json.indented 0 (.dict listing.toFields) else listing.text
    return ⟨0, text ++ "\n"⟩

def run (read : YamlReader) (homes : Homes) (t : FileTree) (words : List String) :
    Except CommandError CommandResult :=
  match ListingOptions.ofStrings words with
  | .refused => .ok ⟨2, ""⟩
  | .help => .ok ⟨0, usage⟩
  | .run o => do
    let config ← (config read homes t (o.config.map .ofString) (o.searchPaths.map .ofString)
      o.allowNoSymbols).mapError .config
    ofConfig t config o.json

end Listing

end PackIndex
