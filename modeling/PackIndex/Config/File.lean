import PackIndex.Config.Basic
import PackIndex.Text.Utf8
import PackIndex.Tree.Resolve
import PackIndex.Yaml.Basic

/-!
# Configuration files

A configuration file is a YAML mapping, read by a reader of one's own. Its relative paths start
from the directory of the file, as the file's path was given.
-/

namespace PackIndex

inductive ConfigFileError where
  | file (e : PathError)
  | nulInPath
  | undecodable (fault : Utf8.Fault)
  | malformed
  | notMapping (typeName : String)
  | config (e : ConfigError)

/-- What is said of ill-formed text. A file is read piece by piece, and a text that breaks off is
noticed in a last piece of its own, where positions start again. -/
def Utf8.Fault.message (f : Utf8.Fault) : String :=
  let start := if f.kind = .truncated then 0 else f.position
  let place :=
    match f.piece with
    | [b] =>
      "byte 0x" ++ String.ofList (Text.hexDigits 2 b.toNat) ++ " in position " ++
        Number.natText start
    | piece =>
      "bytes in position " ++ Number.natText start ++ "-" ++
        Number.natText (start + piece.length - 1)
  "'utf-8' codec can't decode " ++ place ++ ": " ++ f.kind.reason

def ConfigFileError.message : ConfigFileError → String
  | file e => e.message
  | nulInPath => "embedded null byte"
  | undecodable fault => fault.message
  | malformed => ""
  | notMapping typeName => Text.quoted typeName ++ " object has no attribute 'get'"
  | config e => e.message

namespace ConfigFile

/-- The values of a node that lists paths, if it lists any; a mapping counts as its keys. -/
def pathList? : Yaml → Except ConfigError (Option (List Value))
  | .scalar (.str s) => .ok (some [.str s])
  | .scalar v => if v.isTruthy then .error (.notIterable v.typeName) else .ok none
  | .list items => .ok (if items.isEmpty then none else some (Yaml.itemValues items))
  | .mapping entries => .ok (if entries.isEmpty then none else some (entries.map (·.1)))

/-- One path of a file: an absolute one stays as it is, a relative one starts from `base`. -/
def anchoredPath (homes : Homes) (base : FilePath) (v : Value) : Except ConfigError Value :=
  (CatalogConfig.pathOf v).bind fun p =>
    match p.expandHome? homes with
    | none => .error .unknownHome
    | some q => .ok (if q.isAbsolute then v else .str (base.join p).text)

def anchoredPaths (homes : Homes) (base : FilePath) : List Value → Except ConfigError (List Value)
  | [] => .ok []
  | v :: rest =>
    match anchoredPath homes base v with
    | .error e => .error e
    | .ok found => (anchoredPaths homes base rest).map (found :: ·)

def anchoredField (homes : Homes) (base : FilePath) (node : Yaml) : Except ConfigError Value :=
  match pathList? node with
  | .error e => .error e
  | .ok none => .ok node.toValue
  | .ok (some vs) => (anchoredPaths homes base vs).map .list

def node? (name : String) : List (Value × Yaml) → Option Yaml
  | [] => none
  | (key, node) :: rest => if Yaml.sameKey key (.str name) then some node else node? name rest

/-- The fields of a document that have names. -/
def namedFields : List (Value × Yaml) → Fields
  | [] => []
  | (.str name, node) :: rest => (name, node.toValue) :: namedFields rest
  | _ :: rest => namedFields rest

def anchorField (homes : Homes) (base : FilePath) (entries : List (Value × Yaml)) (name : String)
    (fields : Fields) : Except ConfigError Fields :=
  match node? name entries with
  | none => .ok fields
  | some node => (anchoredField homes base node).map fun v => fields.set name v

def ofEntries (homes : Homes) (base : FilePath) (entries : List (Value × Yaml)) :
    Except ConfigError CatalogConfig := do
  let fields ← anchorField homes base entries "search_paths" (namedFields entries)
  let fields ← anchorField homes base entries "shared_namespace" fields
  CatalogConfig.ofFields homes fields (entries.map (·.1))

def isEmpty : Yaml → Bool
  | .scalar v => !v.isTruthy
  | .list items => items.isEmpty
  | .mapping entries => entries.isEmpty

def ofDocument (homes : Homes) (base : FilePath) (doc : Yaml) :
    Except ConfigFileError CatalogConfig :=
  match doc with
  | .mapping entries => (ofEntries homes base entries).mapError .config
  | _ =>
    if isEmpty doc then (ofEntries homes base []).mapError .config
    else .error (.notMapping doc.toValue.typeName)

/-- A text with every line break written as one line feed. -/
def unifyBreaks : List Char → List Char
  | [] => []
  | '\r' :: '\n' :: rest => '\n' :: unifyBreaks rest
  | '\r' :: rest => '\n' :: unifyBreaks rest
  | c :: rest => c :: unifyBreaks rest

def document (read : YamlReader) (content : FileContent) : Except ConfigFileError Yaml :=
  match content with
  | .archive _ => .error .malformed
  | .bytes content =>
    match Utf8.fault? content, Utf8.decode? content with
    | some fault, _ => .error (.undecodable fault)
    | none, none => .error .malformed
    | none, some s =>
      match read (String.ofList (unifyBreaks s.toList)) with
      | some doc => .ok doc
      | none => .error .malformed

def load (read : YamlReader) (homes : Homes) (t : FileTree) (p : FilePath) :
    Except ConfigFileError CatalogConfig :=
  if p.hasNul then .error .nulInPath
  else
    match t.readFile p with
    | .error e => .error (.file e)
    | .ok content =>
      match document read content with
      | .error e => .error e
      | .ok doc => ofDocument homes p.parent doc

end ConfigFile

end PackIndex
