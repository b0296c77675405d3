import PackIndex.Catalog.Query

/-!
# Listings

A listing shows every name of a catalog with its versions, its aliases and the package of its
newest item, either as text or as data.
-/

namespace PackIndex

structure ListingRow where
  name : String
  versions : List Version
  aliases : List String
  package : String

structure Listing where
  variants : List ListingRow
  symbols : List ListingRow

inductive ListingError where
  | missingField (name : String)
  | badVersion (given : Value)
  | versionTooLarge

namespace ListingError

/-- Whether a value is a text, which has layouts but none for numbers. -/
def isText : Value → Bool
  | .str _ | .sentinel _ => true
  | _ => false

def message : ListingError → String
  | missingField name => name
  | badVersion given => if isText given then given.unknownLayout "f" else given.noLayout
  | versionTooLarge => "int too large to convert to float"

end ListingError

namespace ListingRow

def field (fields : Fields) (name : String) : Except ListingError Value :=
  match fields.get? name with
  | some v => .ok v
  | none => .error (.missingField name)

def members : Value → List Value
  | .list vs | .tuple vs => vs
  | _ => []

def versionOf : Value → Except ListingError Version
  | .float x => .ok x
  | .bool b => .ok (.ofInt (if b then 1 else 0))
  | .int n =>
    match Binary64.ofInt? n with
    | some x => .ok x
    | none => .error .versionTooLarge
  | v => .error (.badVersion v)

def ofFields (fields : Fields) : Except ListingError ListingRow := do
  let versions ← (members (← field fields "versions")).mapM versionOf
  let name ← field fields "name"
  let package ← field fields "package"
  let aliases ← field fields "aliases"
  return ⟨name.plainText, versions, (members aliases).map Value.plainText, package.plainText⟩

def toFields (r : ListingRow) : Fields :=
  [("name", .str r.name), ("versions", .list (r.versions.map .float)),
    ("aliases", .list (r.aliases.map .str)), ("package", .str r.package)]

def line (r : ListingRow) : String :=
  let versions := ", ".intercalate (r.versions.map Version.text)
  "  " ++ r.name ++ " [" ++ versions ++ "] (" ++ r.package ++ ")" ++
    if r.aliases = [] then "" else " aliases: " ++ ", ".intercalate r.aliases

end ListingRow

namespace Listing

def rowsOf (fields : Fields) (name : String) : Except ListingError (List ListingRow) :=
  match fields.get? name with
  | some (.list rows) =>
    rows.mapM fun
      | .dict row => ListingRow.ofFields row
      | _ => .error (.missingField "versions")
  | _ => .ok []

def ofFields (fields : Fields) : Except ListingError Listing := do
  let variants ← rowsOf fields "variants"
  let symbols ← rowsOf fields "symbols"
  return ⟨variants, symbols⟩

def toFields (l : Listing) : Fields :=
  let rows (rs : List ListingRow) : Value := .list (rs.map fun r => .dict r.toFields)
  [("variants", rows l.variants), ("symbols", rows l.symbols)]

def block (title : String) (rows : List ListingRow) : List String :=
  ("=== " ++ title ++ " (" ++ Number.natText rows.length ++ ") ===") :: rows.map ListingRow.line

def text (l : Listing) : String :=
  "\n".intercalate (block "Variants" l.variants ++ block "Symbol packs" l.symbols)

end Listing

namespace Catalog

def aliasesOf (aliases : List (String × String)) (name : String) : List String :=
  ((aliases.filter fun (_, owner) => owner = name).map (·.1)).mergeSort Text.atMost

/-- The rows of the newest items of a kind. -/
def rows (c : Catalog) (kind : PackKind) (items : List Item) : List ListingRow :=
  items.map fun item =>
    { name := item.displayName
      versions := versionsOf (c.table kind) item.name
      aliases := if kind = .variants then aliasesOf c.variants.aliases item.name else []
      package := item.packageName }

def listing (c : Catalog) : Except QueryError Listing × Catalog :=
  match c.latest .variants with
  | (.error e, c) => (.error e, c)
  | (.ok variants, c) =>
    match c.latest .symbols with
    | (.error e, c) => (.error e, c)
    | (.ok symbols, c) => (.ok ⟨c.rows .variants variants, c.rows .symbols symbols⟩, c)

end Catalog

end PackIndex
