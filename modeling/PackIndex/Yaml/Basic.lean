import PackIndex.Number.Text
import PackIndex.Value

/-!
# YAML documents

The data of a YAML document. The keys of its mappings are scalars of any kind; a repeated key
takes its last value. A set counts as the list of its members, and scalars that are neither texts
nor numbers nor truth values, such as dates, are foreign values. How a document is written is left
to the reader of a configuration, which every result is stated for.
-/

namespace PackIndex

inductive Yaml where
  | scalar (v : Value)
  | list (items : List Yaml)
  | mapping (entries : List (Value × Yaml))

/-- Reads the document that a text holds, if it is well formed. -/
abbrev YamlReader := String → Option Yaml

namespace Yaml

def null : Yaml := scalar .null

def sameKey : Value → Value → Bool
  | .null, .null => true
  | .bool a, .bool b => a == b
  | .int a, .int b => a == b
  | .int a, .bool b | .bool b, .int a => a == if b then 1 else 0
  | .float x, .float y => x.same y
  | .str s, .str t => s == t
  | _, _ => false

/-- Sets a key of a mapping: an old key keeps its place. -/
def setKey (key : Value) (node : Yaml) : List (Value × Yaml) → List (Value × Yaml)
  | [] => [(key, node)]
  | (k, old) :: rest =>
    if sameKey k key then (k, node) :: rest else (k, old) :: setKey key node rest

def ofPairs (pairs : List (Value × Yaml)) : Yaml :=
  mapping (pairs.foldl (fun entries (k, v) => setKey k v entries) [])

/-- The text of a key where only texts can be keys. -/
def keyText : Value → String
  | .str s => s
  | .bool b => if b then "true" else "false"
  | .int n => Number.intText n
  | .float x => x.text .plain
  | _ => "null"

mutual

def toValue : Yaml → Value
  | scalar v => v
  | list items => .list (itemValues items)
  | mapping entries => .dict (entryValues entries)

def itemValues : List Yaml → List Value
  | [] => []
  | item :: rest => toValue item :: itemValues rest

def entryValues : List (Value × Yaml) → Fields
  | [] => []
  | (key, node) :: rest => (keyText key, toValue node) :: entryValues rest

end

end Yaml

end PackIndex
