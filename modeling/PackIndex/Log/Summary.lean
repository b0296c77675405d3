import PackIndex.Log.Home
import PackIndex.Text.Lower
import PackIndex.Value.Text

/-!
# Fields of log records

Fields are made small before they are logged: what holds the content of manifests is replaced by
a short summary, long lists by their length, deep mappings by a note, and the home directory by
`~`. The items of a short list are kept as they are, texts apart.
-/

namespace PackIndex.LogFields

/-- The keys, in any case, whose values are never logged. -/
def summarizedKeys : List String :=
  ["payload", "descriptor", "manifest_data", "entries", "map_graphics"]

/-- The longest list that is logged item by item. -/
def maxItems : Nat := 10

/-- How deep mappings are logged. -/
def maxDepth : Nat := 3

def isSummarized (key : String) : Bool := summarizedKeys.contains (Text.lower key)

def summary : Value → String
  | .list items | .tuple items => "[" ++ Number.natText items.length ++ " items]"
  | .dict fields => "[" ++ Number.natText fields.length ++ " keys]"
  | .null => "[none]"
  | v => "[" ++ v.typeName ++ "]"

def shortenText (home : String) : Value → Value
  | .str s => .str (Home.shorten home s)
  | .sentinel s =>
    match Home.marker? home with
    | some _ => .str (Home.shorten home s.word)
    | none => .sentinel s
  | v => v

def truncated : Fields := [("_truncated", .str "max depth exceeded")]

mutual

/-- A value that is no summarized one, `room` being how many mappings may still be nested. -/
def filterValue (home : String) (room : Nat) : Value → Value
  | .list items | .tuple items =>
    if items.length ≤ maxItems then .list (items.map (shortenText home))
    else .str ("[list:" ++ Number.natText items.length ++ " items]")
  | .dict fields =>
    match room with
    | 0 => .dict truncated
    | room + 1 => .dict (filterFields home room fields)
  | .path p => .str (Home.shorten home p.text)
  | .foreign _ text _ _ => .str (Home.shorten home text)
  | v => shortenText home v

def filterFields (home : String) (room : Nat) : List (String × Value) → List (String × Value)
  | [] => []
  | (key, value) :: rest =>
    (key, if isSummarized key then .str (summary value) else filterValue home room value) ::
      filterFields home room rest

end

def filter (home : String) (fields : Fields) : Fields := filterFields home maxDepth fields

end PackIndex.LogFields
