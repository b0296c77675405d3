import PackIndex.Number.Word
import PackIndex.Text.Blank
import PackIndex.Text.Decimal
import PackIndex.Text.Pieces
import PackIndex.Validation.Issue
import PackIndex.Value.Text

/-!
# Checking single values

Texts, numbers, truth values and sequences. Numbers and truth values may also be given as texts.
-/

namespace PackIndex.Checked

def string : Value → Checked String
  | .str s => .ok s
  | .sentinel s => .ok s.word
  | _ => fail .notString

def trimmedString (v : Value) : Checked String := (string v).map (Text.trim Text.isWhiteSpace)

def nonEmpty (s : String) : Checked String := if s = "" then fail .emptyString else .ok s

def trimmedNonEmpty (v : Value) : Checked String := (trimmedString v).bind nonEmpty

def optionalString (check : Value → Checked String) : Value → Checked (Option String)
  | .null => .ok none
  | v => (check v).map some

def exponentOf? (cs : List Char) : Option Int :=
  let (negative, ds) := match cs with
    | '-' :: rest => (true, rest)
    | '+' :: rest => (false, rest)
    | _ => (false, cs)
  if ds = [] ∨ ds.any (!Text.isDigit ·) then none
  else some (if negative then -(Text.natOfDigits ds : Int) else Text.natOfDigits ds)

def decimalOf? (negative : Bool) (cs : List Char) : Option Binary64 :=
  let (whole, rest) := Text.spanDigits cs
  let (places, rest) := match rest with
    | '.' :: rest => Text.spanDigits rest
    | rest => ([], rest)
  if whole = [] ∧ places = [] then none
  else
    let value (exponent : Int) : Binary64 :=
      .ofDecimal negative (Text.natOfDigits (whole ++ places)) (exponent - places.length)
    match rest with
    | [] => some (value 0)
    | c :: rest => if c = 'e' ∨ c = 'E' then (exponentOf? rest).map value else none

def numberOf? (cs : List Char) : Option Binary64 :=
  let (negative, body) := match cs with
    | '-' :: rest => (true, rest)
    | '+' :: rest => (false, rest)
    | _ => (false, cs)
  let word := String.ofList (body.map Char.toLower)
  if word = "inf" ∨ word = "infinity" then some (.infinity negative)
  else if word = "nan" then some .nan
  else decimalOf? negative body

def withoutUnderscores? (cs : List Char) : Option (List Char) :=
  if cs.head? = some '_' ∨ cs.getLast? = some '_' ∨ '_' ∉ cs ∨ Text.occurs ['_', '_'] cs then none
  else some (cs.filter (· ≠ '_'))

def looseNumberOf? (s : String) : Option Binary64 :=
  match numberOf? (Text.trimChars Text.isWhiteSpace s.toList) with
  | some x => some x
  | none => (withoutUnderscores? s.toList).bind numberOf?

def numberText (s : String) : Checked Binary64 :=
  match looseNumberOf? s with
  | some x => .ok x
  | none => fail .unreadableNumber

def number : Value → Checked Binary64
  | .float x => .ok x
  | .bool b => .ok (.ofInt (if b then 1 else 0))
  | .int n =>
    match Binary64.ofInt? n with
    | some x => .ok x
    | none => fail .notNumber
  | .str s => numberText s
  | .sentinel s => numberText s.word
  | _ => fail .notNumber

def positiveNumber (v : Value) : Checked Binary64 :=
  (number v).bind fun x => if x.isPositive then .ok x else fail .notPositive

def boolOfInt (n : Int) : Checked Bool :=
  if n = 0 then .ok false
  else if n = 1 then .ok true
  else if Number.isSignedWord 63 n then fail .unreadableBool
  else fail .notBool

def boolOfWord (s : String) : Checked Bool :=
  let word := String.ofList (s.toList.map Char.toLower)
  if word ∈ ["0", "f", "n", "no", "off", "false"] then .ok false
  else if word ∈ ["1", "t", "y", "on", "yes", "true"] then .ok true
  else fail .unreadableBool

def bool : Value → Checked Bool
  | .bool b => .ok b
  | .int n => boolOfInt n
  | .float x =>
    match x.toInt? with
    | some n => if n = -(Nat.pow 2 63 : Nat) then fail .notBool else boolOfInt n
    | none => fail .notBool
  | .str s => boolOfWord s
  | .sentinel s => boolOfWord s.word
  | _ => fail .notBool

variable {α : Type}

def sequence (kind : IssueKind) (check : Value → Checked α) : Value → Checked (List α)
  | .list vs | .tuple vs => items check 0 vs
  | _ => fail kind

def model (name : String) : Value → Checked Fields
  | .dict fields => .ok fields
  | _ => fail (.notModel name)

end PackIndex.Checked
