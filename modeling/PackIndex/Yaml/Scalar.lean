import PackIndex.Text.Decimal
import PackIndex.Text.Percent
import PackIndex.Text.Pieces
import PackIndex.Value

/-!
# Plain scalars

What an unquoted word of a YAML document stands for: nothing, a truth value, a number, or itself.
Numbers may hold underscores and have the bases 2, 8, 10, 16 and 60. Words that stand for anything
else are refused: dates, numbers of base 60 with a point, and the words for merging and defaults.
-/

namespace PackIndex.Yaml

def nullWords : List String := ["", "~", "null", "Null", "NULL"]

def trueWords : List String :=
  ["yes", "Yes", "YES", "true", "True", "TRUE", "on", "On", "ON"]

def falseWords : List String :=
  ["no", "No", "NO", "false", "False", "FALSE", "off", "Off", "OFF"]

def reservedWords : List String := ["=", "<<"]

def cutSign : List Char → Bool × List Char
  | '-' :: rest => (true, rest)
  | '+' :: rest => (false, rest)
  | cs => (false, cs)

/-- The number of digits of a base, underscores skipped; `none` if something else stands there or
no digit does. -/
def digitsOf? (base : Nat) (cs : List Char) : Option Nat :=
  let ds := cs.filter (· ≠ '_')
  if ds = [] then none
  else
    ds.foldl (fun acc c => do
      let n ← acc
      let d ← Percent.hexValue? c
      if d < base then some (n * base + d) else none) (some 0)

/-- The parts of a number of base 60 behind its first one: one or two digits, below 60. -/
def sixtiesOf? : Nat → List (List Char) → Option Nat
  | n, [] => some n
  | n, part :: rest =>
    if part = [] ∨ 2 < part.length ∨ part.any (!Text.isDigit ·) ∨ 60 ≤ Text.natOfDigits part then none
    else sixtiesOf? (n * 60 + Text.natOfDigits part) rest

def wholeOf? : List Char → Option Nat
  | ['0'] => some 0
  | '0' :: 'b' :: rest => digitsOf? 2 rest
  | '0' :: 'x' :: rest => digitsOf? 16 rest
  | '0' :: rest => if rest.all (· = '_') then some 0 else digitsOf? 8 rest
  | c :: rest =>
    if !Text.isDigit c then none
    else
      match Text.splitChars ':' (c :: rest) with
      | first :: parts => (digitsOf? 10 first).bind fun n => sixtiesOf? n parts
      | [] => none
  | [] => none

def intOf? (cs : List Char) : Option Int :=
  let (negative, body) := cutSign cs
  (wholeOf? body).map fun n => if negative then -(n : Int) else n

/-- The exponent of a decimal word, which always has a sign. -/
def exponentOf? : List Char → Option Int
  | [] => some 0
  | e :: sign :: ds =>
    if (e ≠ 'e' ∧ e ≠ 'E') ∨ (sign ≠ '-' ∧ sign ≠ '+') ∨ ds = [] ∨ ds.any (!Text.isDigit ·) then none
    else some (if sign = '-' then -(Text.natOfDigits ds : Int) else Text.natOfDigits ds)
  | _ => none

def isDigitOrMark (c : Char) : Bool := Text.isDigit c || c == '_'

def decimalOf? (cs : List Char) : Option Binary64 :=
  let (negative, body) := cutSign cs
  let whole := body.takeWhile isDigitOrMark
  match body.dropWhile isDigitOrMark with
  | '.' :: rest =>
    let places := rest.takeWhile isDigitOrMark
    let startsWell :=
      if whole = [] then body = cs ∧ (places.head?.any Text.isDigit) = true
      else (whole.head?.any Text.isDigit) = true
    if startsWell then
      (exponentOf? (rest.dropWhile isDigitOrMark)).map fun exponent =>
        let whole := whole.filter Text.isDigit
        let places := places.filter Text.isDigit
        .ofDecimal negative (Text.natOfDigits (whole ++ places)) (exponent - places.length)
    else none
  | _ => none

def floatOf? (cs : List Char) : Option Binary64 :=
  let (negative, body) := cutSign cs
  let word := String.ofList body
  if word = ".inf" ∨ word = ".Inf" ∨ word = ".INF" then some (.infinity negative)
  else if body = cs ∧ (word = ".nan" ∨ word = ".NaN" ∨ word = ".NAN") then some .nan
  else decimalOf? cs

def cutShort? (cs : List Char) : Option (List Char × List Char) :=
  let ds := cs.takeWhile Text.isDigit
  if ds.length = 1 ∨ ds.length = 2 then some (ds, cs.drop ds.length) else none

def isDate (cs : List Char) : Bool :=
  let year := cs.takeWhile Text.isDigit
  match cs.drop year.length with
  | '-' :: rest =>
    match cutShort? rest with
    | some (month, '-' :: rest) =>
      match cutShort? rest with
      | some (day, []) => year.length = 4 && month.length = 2 && day.length = 2
      | some (_, c :: _) => year.length = 4 && (c = 'T' || c = 't' || c = ' ' || c = '\t')
      | none => false
    | _ => false
  | _ => false

def isSixtiesDecimal (cs : List Char) : Bool :=
  let parts := Text.splitChars ':' (cutSign cs).2
  match parts, parts.getLast? with
  | first :: _ :: _, some last =>
    let whole := last.takeWhile Text.isDigit
    first.head?.any Text.isDigit && first.all isDigitOrMark &&
      (sixtiesOf? 0 (parts.tail.dropLast ++ [whole])).isSome &&
      (match last.drop whole.length with
        | '.' :: places => places.all isDigitOrMark
        | _ => false)
  | _, _ => false

/-- What a plain word stands for; `none` for one that is refused. -/
def plainValue? (s : String) : Option Value :=
  if s ∈ reservedWords ∨ isDate s.toList ∨ isSixtiesDecimal s.toList then none
  else if s ∈ nullWords then some .null
  else if s ∈ trueWords then some (.bool true)
  else if s ∈ falseWords then some (.bool false)
  else
    match intOf? s.toList with
    | some n => some (.int n)
    | none =>
      match floatOf? s.toList with
      | some x => some (.float x)
      | none => some (.str s)

end PackIndex.Yaml
