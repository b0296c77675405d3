import PackIndex.Number.Text
import PackIndex.Number.Word
import PackIndex.Text.Quoted
import PackIndex.Value.Text

/-!
# Writing JSON

Compact texts and texts indented by two spaces. Only the quote, the backslash and control
characters are escaped. Numbers that are not finite are `null`; values JSON knows nothing of are
written as their texts. Values nested too deep and whole numbers beyond 64 bits are not to be written.
-/

namespace PackIndex.Json

def escapeChar (c : Char) : List Char :=
  if c = '"' then ['\\', '"']
  else if c = '\\' then ['\\', '\\']
  else if c = '\n' then ['\\', 'n']
  else if c = '\r' then ['\\', 'r']
  else if c = '\t' then ['\\', 't']
  else if c.toNat = 8 then ['\\', 'b']
  else if c.toNat = 12 then ['\\', 'f']
  else if c.toNat < 0x20 then '\\' :: 'u' :: Text.hexDigits 4 c.toNat
  else [c]

def stringText (s : String) : String :=
  String.ofList ('"' :: (s.toList.flatMap escapeChar ++ ['"']))

mutual

def compact : Value → String
  | .null => "null"
  | .bool b => if b then "true" else "false"
  | .int n => Number.intText n
  | .float x => x.text .json
  | .list items | .tuple items => "[" ++ ",".intercalate (compactItems items) ++ "]"
  | .dict fields => "\x7b" ++ ",".intercalate (compactFields fields) ++ "\x7d"
  | .sentinel s => stringText s.word
  | .str s => stringText s
  | .path p => stringText p.text
  | .foreign _ text _ _ => stringText text

def compactItems : List Value → List String
  | [] => []
  | v :: rest => compact v :: compactItems rest

def compactFields : List (String × Value) → List String
  | [] => []
  | (k, v) :: rest => (stringText k ++ ":" ++ compact v) :: compactFields rest

end

/-- `depth` levels of two spaces after a line break. -/
def lineBreak (depth : Nat) : String := "\n" ++ String.ofList (List.replicate (2 * depth) ' ')

def block (opening closing : String) (depth : Nat) (entries : List String) : String :=
  if entries = [] then opening ++ closing
  else
    opening ++ ",".intercalate (entries.map (lineBreak (depth + 1) ++ ·)) ++ lineBreak depth ++
      closing

mutual

def indented (depth : Nat) : Value → String
  | .list items | .tuple items => block "[" "]" depth (indentedItems (depth + 1) items)
  | .dict fields => block "\x7b" "\x7d" depth (indentedFields (depth + 1) fields)
  | v => compact v

def indentedItems (depth : Nat) : List Value → List String
  | [] => []
  | v :: rest => indented depth v :: indentedItems depth rest

def indentedFields (depth : Nat) : List (String × Value) → List String
  | [] => []
  | (k, v) :: rest => (stringText k ++ ": " ++ indented depth v) :: indentedFields depth rest

end

/-! ## What cannot be written -/

inductive Fault where
  | wideInteger
  | tooDeep
  deriving DecidableEq

def Fault.message : Fault → String
  | wideInteger => "Integer exceeds 64-bit range"
  | tooDeep => "Recursion limit reached"

def maxNesting : Nat := 254

mutual

/-- What is met first in a value that cannot be written, `room` being how many lists and mappings
may still be nested; an empty list needs no room. -/
def fault? (room : Nat) : Value → Option Fault
  | .int n => if Number.isWord64 n then none else some .wideInteger
  | .list [] | .tuple [] => none
  | .list (v :: rest) | .tuple (v :: rest) =>
    match room with
    | 0 => some .tooDeep
    | room + 1 => (fault? room v).or (itemsFault? room rest)
  | .dict fields =>
    match room with
    | 0 => some .tooDeep
    | room + 1 => fieldsFault? room fields
  | _ => none

def itemsFault? (room : Nat) : List Value → Option Fault
  | [] => none
  | v :: rest => (fault? room v).or (itemsFault? room rest)

def fieldsFault? (room : Nat) : List (String × Value) → Option Fault
  | [] => none
  | (_, v) :: rest => (fault? room v).or (fieldsFault? room rest)

end

end PackIndex.Json
