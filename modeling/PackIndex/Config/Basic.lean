import PackIndex.Path.Basic
import PackIndex.Validation.Scalar

/-!
# Catalog configuration

Where to look for packs and how to read them. A configuration is checked field by field; paths may
be given as one path or as several, and a leading `~` is replaced by the home directory.
-/

namespace PackIndex

structure CatalogConfig where
  searchPaths : List FilePath
  variantSuffixes : List String
  symbolSuffixes : List String
  variantManifest : String
  symbolManifest : String
  sharedNamespace : List FilePath
  requireSymbolPacks : Bool
  deriving DecidableEq

/-- Why a configuration is refused. A bad path is reported before any other issue. -/
inductive ConfigError where
  | notIterable (typeName : String)
  | notPath (typeName : String)
  | unknownHome
  | invalid (issues : List Issue)

namespace ConfigError

def message : ConfigError → String
  | notIterable typeName => Text.quoted typeName ++ " object is not iterable"
  | notPath typeName => "expected str, bytes or os.PathLike object, not " ++ typeName
  | unknownHome => "Could not determine home directory."
  | invalid issues => "; ".intercalate (issues.map Issue.text)

end ConfigError

namespace CatalogConfig

def default : CatalogConfig :=
  ⟨[], ["Variant.zip", "Variants.zip", "Variant.jar", "Variants.jar"],
    ["Symbols.zip", "Symbols.jar"], "variants.json", "symbols.json", [], true⟩

def sharedNamespaceEnabled (c : CatalogConfig) : Bool := !c.sharedNamespace.isEmpty

/-- The path a value names, before its `~` is replaced. -/
def pathOf (v : Value) : Except ConfigError FilePath :=
  match v with
  | .path p => .ok p
  | .str _ | .sentinel _ => .ok (.ofString v.plainText)
  | _ => .error (.notPath v.typeName)

def expandedPath (homes : Homes) (v : Value) : Except ConfigError FilePath :=
  (pathOf v).bind fun p =>
    match p.expandHome? homes with
    | some p => .ok p
    | none => .error .unknownHome

def expandedPaths (homes : Homes) : List Value → Except ConfigError (List FilePath)
  | [] => .ok []
  | v :: rest =>
    match expandedPath homes v with
    | .error e => .error e
    | .ok p => (expandedPaths homes rest).map (p :: ·)

/-- The values that a field of paths holds: nothing, one path, or the members of a collection; a
mapping counts as its keys. A foreign collection holds pairs, none of which is a path. -/
def pathValues : Value → Except ConfigError (List Value)
  | .null => .ok []
  | .str s => .ok [.str s]
  | .sentinel s => .ok [.sentinel s]
  | .path p => .ok [.path p]
  | .list vs | .tuple vs => .ok vs
  | .dict fields => .ok (fields.map fun (key, _) => .str key)
  | .foreign _ _ _ true => .ok [.tuple []]
  | v => .error (.notIterable v.typeName)

def pathsField (homes : Homes) (fields : Fields) (name : String) :
    Except ConfigError (List FilePath) :=
  match fields.get? name with
  | none => .ok []
  | some v => (pathValues v).bind (expandedPaths homes)

/-- Name endings that are not blank, each once; there must be one. -/
def suffixes (v : Value) : Checked (List String) :=
  (Checked.sequence .notSet Checked.string v).bind fun found =>
    match (found.filter fun s => Text.strip s ≠ "").eraseDups with
    | [] => Checked.fail (.rejected "suffix set must not be empty")
    | kept => .ok kept

/-- A manifest name without the blanks around it; it must not be blank. -/
def manifestName (v : Value) : Checked String :=
  (Checked.string v).bind fun s =>
    if Text.strip s = "" then Checked.fail (.rejected "manifest name must not be blank")
    else .ok (Text.strip s)

def fieldNames : List String :=
  ["search_paths", "variant_suffixes", "symbol_suffixes", "variant_manifest", "symbol_manifest",
    "shared_namespace", "require_symbol_packs"]

def keyPlace : Value → Place
  | .str s => .field s
  | .int n => if n < 0 then .field (Number.intText n) else .index n.toNat
  | .bool b => .index (if b then 1 else 0)
  | v => .field v.quotedText

/-- What is wrong with a key: it is no text, or no field has this name. -/
def keyIssue? : Value → Option IssueKind
  | .str s => if fieldNames.contains s then none else some .unknownField
  | .sentinel s => if fieldNames.contains s.word then none else some .unknownField
  | _ => some .badKey

def checkKeys (keys : List Value) : Checked Unit :=
  match keys.filterMap fun key => (keyIssue? key).map fun kind => ⟨[keyPlace key], kind⟩ with
  | [] => .ok ()
  | issues => .error issues

def checkFields (fields : Fields) (keys : List Value) (search shared : List FilePath) :
    Checked CatalogConfig :=
  let c := default
  Checked.apply
    (Checked.apply
      (Checked.apply
        (Checked.apply
          (Checked.apply
            (Checked.apply
              (.ok fun variantSuffixes symbolSuffixes variantManifest symbolManifest require _ =>
                ⟨search, variantSuffixes, symbolSuffixes, variantManifest, symbolManifest, shared,
                  require⟩)
              (Checked.optional fields "variant_suffixes" c.variantSuffixes suffixes))
            (Checked.optional fields "symbol_suffixes" c.symbolSuffixes suffixes))
          (Checked.optional fields "variant_manifest" c.variantManifest manifestName))
        (Checked.optional fields "symbol_manifest" c.symbolManifest manifestName))
      (Checked.optional fields "require_symbol_packs" c.requireSymbolPacks Checked.bool))
    (checkKeys keys)

def ofFields (homes : Homes) (fields : Fields) (keys : List Value) :
    Except ConfigError CatalogConfig := do
  let search ← pathsField homes fields "search_paths"
  let shared ← pathsField homes fields "shared_namespace"
  (checkFields fields keys search shared).mapError .invalid

def keysOf (fields : Fields) : List Value := fields.map fun (key, _) => .str key

def ofValue (homes : Homes) : Value → Except ConfigError CatalogConfig
  | .dict fields => ofFields homes fields (keysOf fields)
  | _ => .error (.invalid [.here (.notModel "CatalogConfig")])

def pathsValue (paths : List FilePath) : Value := .tuple (paths.map .path)

def textsValue (texts : List String) : Value := .list (texts.map .str)

def toFields (c : CatalogConfig) : Fields :=
  [("search_paths", pathsValue c.searchPaths), ("variant_suffixes", textsValue c.variantSuffixes),
    ("symbol_suffixes", textsValue c.symbolSuffixes), ("variant_manifest", .str c.variantManifest),
    ("symbol_manifest", .str c.symbolManifest), ("shared_namespace", pathsValue c.sharedNamespace),
    ("require_symbol_packs", .bool c.requireSymbolPacks)]

def updated (homes : Homes) (c : CatalogConfig) (changes : Fields) :
    Except ConfigError CatalogConfig :=
  let fields := c.toFields.update changes
  ofFields homes fields (keysOf fields)

end CatalogConfig

end PackIndex
