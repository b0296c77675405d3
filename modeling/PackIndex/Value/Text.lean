import PackIndex.Number.Text
import PackIndex.Text.Quoted
import PackIndex.Value

/-!
# Texts of values

The quoted form of a value stands in messages and inside listings; the plain form of a text is
the text itself, and that of any other value its quoted form.
-/

namespace PackIndex

def Sentinel.word : Sentinel → String
  | .newest => "newest"
  | .oldest => "oldest"

def Sentinel.label : Sentinel → String
  | .newest => "Selector.NEWEST"
  | .oldest => "Selector.OLDEST"

namespace Value

def boolText (b : Bool) : String := if b then "True" else "False"

mutual

def quotedText : Value → String
  | null => "None"
  | bool b => boolText b
  | int n => Number.intText n
  | float x => x.text .plain
  | str s => Text.quoted s
  | list items => "[" ++ ", ".intercalate (quotedItems items) ++ "]"
  | tuple [item] => "(" ++ quotedText item ++ ",)"
  | tuple items => "(" ++ ", ".intercalate (quotedItems items) ++ ")"
  | dict fields => "\x7b" ++ ", ".intercalate (quotedFields fields) ++ "\x7d"
  | path p => "PosixPath(" ++ Text.quoted p.text ++ ")"
  | sentinel s => "<" ++ s.label ++ ": " ++ Text.quoted s.word ++ ">"
  | foreign _ _ quoted _ => quoted

def quotedItems : List Value → List String
  | [] => []
  | v :: rest => quotedText v :: quotedItems rest

def quotedFields : List (String × Value) → List String
  | [] => []
  | (k, v) :: rest => (Text.quoted k ++ ": " ++ quotedText v) :: quotedFields rest

end

def plainText : Value → String
  | str s => s
  | path p => p.text
  | sentinel s => s.label
  | foreign _ text _ _ => text
  | v => v.quotedText

/-- What is said of a value that a layout code does not apply to. -/
def unknownLayout (code : String) (v : Value) : String :=
  "Unknown format code " ++ Text.quoted code ++ " for object of type " ++ Text.quoted v.typeName

def noLayout (v : Value) : String :=
  "unsupported format string passed to " ++ v.typeName ++ ".__format__"

end Value

end PackIndex
