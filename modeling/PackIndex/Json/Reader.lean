import PackIndex.Number.Word
import PackIndex.Text.Decimal
import PackIndex.Text.Percent
import PackIndex.Text.Utf8
import PackIndex.Value

/-!
# Reading JSON

A strict reader of RFC 8259 texts. It refuses what stands after the value, texts nested deeper
than a limit, control characters and lone surrogates in strings, and numbers beyond the range of
a double. A repeated key takes its last value.
-/

namespace PackIndex.Json

/-- What a reader lets through: the deepest nesting, and whether whole numbers beyond 64 bits stay
whole numbers or become doubles. -/
structure Limits where
  depth : Nat
  wideIntegers : Bool

/-- The limits of documents inside archives. -/
def Limits.document : Limits := ⟨1024, false⟩

/-- Limits under which every text of the grammar with finite numbers is read. -/
def Limits.generous : Limits := ⟨100000, true⟩

def isSpace (c : Char) : Bool := c == ' ' || c == '\t' || c == '\n' || c == '\r'

def skipSpace (cs : List Char) : List Char := cs.dropWhile isSpace

def hex4? (a b c d : Char) : Option Nat := do
  let a ← Percent.hexValue? a
  let b ← Percent.hexValue? b
  let c ← Percent.hexValue? c
  let d ← Percent.hexValue? d
  return ((a * 16 + b) * 16 + c) * 16 + d

def simpleEscape? : Char → Option Char
  | '"' => some '"'
  | '\\' => some '\\'
  | '/' => some '/'
  | 'b' => some (Char.ofNat 8)
  | 'f' => some (Char.ofNat 12)
  | 'n' => some '\n'
  | 'r' => some '\r'
  | 't' => some '\t'
  | _ => none

def isHighSurrogate (n : Nat) : Bool := 0xD800 ≤ n && n < 0xDC00
def isLowSurrogate (n : Nat) : Bool := 0xDC00 ≤ n && n < 0xE000

def stringBody : List Char → Option (List Char × List Char)
  | '"' :: rest => some ([], rest)
  | '\\' :: 'u' :: a :: b :: c :: d :: rest =>
    match hex4? a b c d with
    | none => none
    | some n =>
      if isHighSurrogate n then
        match rest with
        | '\\' :: 'u' :: e :: f :: g :: h :: rest =>
          match hex4? e f g h with
          | none => none
          | some m =>
            if isLowSurrogate m then
              let code := 0x10000 + (n - 0xD800) * 0x400 + (m - 0xDC00)
              (stringBody rest).map fun (s, r) => (Char.ofNat code :: s, r)
            else none
        | _ => none
      else if isLowSurrogate n then none
      else (stringBody rest).map fun (s, r) => (Char.ofNat n :: s, r)
  | '\\' :: c :: rest =>
    match simpleEscape? c with
    | some e => (stringBody rest).map fun (s, r) => (e :: s, r)
    | none => none
  | c :: rest =>
    if c.toNat < 0x20 then none else (stringBody rest).map fun (s, r) => (c :: s, r)
  | [] => none

def fraction? : List Char → Option (List Char × List Char)
  | '.' :: rest =>
    match Text.spanDigits rest with
    | ([], _) => none
    | (ds, rest) => some (ds, rest)
  | cs => some ([], cs)

def exponent? (cs : List Char) : Option (Option Int × List Char) :=
  match cs with
  | c :: rest =>
    if c = 'e' ∨ c = 'E' then
      let (negative, rest) :=
        match rest with
        | '+' :: rest => (false, rest)
        | '-' :: rest => (true, rest)
        | rest => (false, rest)
      match Text.spanDigits rest with
      | ([], _) => none
      | (ds, rest) =>
        let n : Int := Text.natOfDigits ds
        some (some (if negative then -n else n), rest)
    else some (none, cs)
  | [] => some (none, [])

def finite? (x : Binary64) : Option Value := if x.isFinite then some (.float x) else none

/-- A whole number, or the double nearest to it where it is too wide. -/
def integer? (limits : Limits) (n : Int) : Option Value :=
  if limits.wideIntegers || Number.isWord64 n then some (.int n)
  else (Binary64.ofInt? n).map .float

def number? (limits : Limits) (cs : List Char) : Option (Value × List Char) := do
  let (negative, cs) := match cs with
    | '-' :: rest => (true, rest)
    | cs => (false, cs)
  let (whole, cs) := Text.spanDigits cs
  if whole = [] ∨ (whole.length > 1 ∧ whole.head? = some '0') then none
  let (frac, cs) ← fraction? cs
  let (power, cs) ← exponent? cs
  let value ←
    if frac = [] ∧ power = none then
      let n : Int := Text.natOfDigits whole
      integer? limits (if negative then -n else n)
    else
      finite? (Binary64.ofDecimal negative (Text.natOfDigits (whole ++ frac))
        (power.getD 0 - frac.length))
  return (value, cs)

def literal? (word : List Char) (cs : List Char) : Option (List Char) :=
  if word.isPrefixOf cs then some (cs.drop word.length) else none

mutual

/-- Reads one value, at most `depth` lists and objects deep. `fuel` bounds the number of nested
readings and may be any number above the length of the text. -/
def value? (limits : Limits) : Nat → Nat → List Char → Option (Value × List Char)
  | 0, _, _ => none
  | fuel + 1, depth, cs =>
    match cs with
    | '"' :: rest => (stringBody rest).map fun (s, r) => (.str (String.ofList s), r)
    | '[' :: rest =>
      if depth = 0 then none
      else
        match skipSpace rest with
        | ']' :: rest => some (.list [], rest)
        | rest => (items? limits fuel (depth - 1) rest).map fun (vs, r) => (.list vs, r)
    | '{' :: rest =>
      if depth = 0 then none
      else
        match skipSpace rest with
        | '}' :: rest => some (.dict [], rest)
        | rest => (members? limits fuel (depth - 1) [] rest).map fun (fs, r) => (.dict fs, r)
    | 't' :: _ => (literal? ['t', 'r', 'u', 'e'] cs).map fun r => (.bool true, r)
    | 'f' :: _ => (literal? ['f', 'a', 'l', 's', 'e'] cs).map fun r => (.bool false, r)
    | 'n' :: _ => (literal? ['n', 'u', 'l', 'l'] cs).map fun r => (.null, r)
    | _ => number? limits cs

def items? (limits : Limits) : Nat → Nat → List Char → Option (List Value × List Char)
  | 0, _, _ => none
  | fuel + 1, depth, cs =>
    match value? limits fuel depth cs with
    | none => none
    | some (v, rest) =>
      match skipSpace rest with
      | ',' :: rest => (items? limits fuel depth (skipSpace rest)).map fun (vs, r) => (v :: vs, r)
      | ']' :: rest => some ([v], rest)
      | _ => none

/-- Reads the members of an object and its closing brace, adding them to `fields`. -/
def members? (limits : Limits) : Nat → Nat → Fields → List Char → Option (Fields × List Char)
  | 0, _, _, _ => none
  | fuel + 1, depth, fields, cs =>
    match cs with
    | '"' :: rest =>
      match stringBody rest with
      | none => none
      | some (key, rest) =>
        match skipSpace rest with
        | ':' :: rest =>
          match value? limits fuel depth (skipSpace rest) with
          | none => none
          | some (v, rest) =>
            let fields := Fields.set (String.ofList key) v fields
            match skipSpace rest with
            | ',' :: rest => members? limits fuel depth fields (skipSpace rest)
            | '}' :: rest => some (fields, rest)
            | _ => none
        | _ => none
    | _ => none

end

def read? (limits : Limits) (s : String) : Option Value :=
  let cs := skipSpace s.toList
  match value? limits (cs.length + 1) limits.depth cs with
  | some (v, rest) => if skipSpace rest = [] then some v else none
  | none => none

def readDocument? (bytes : List UInt8) : Option Value :=
  (Utf8.decode? bytes).bind (read? .document)

end PackIndex.Json
