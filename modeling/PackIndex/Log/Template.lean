import PackIndex.Number.Significant
import PackIndex.Number.Word
import PackIndex.Text.Decimal
import PackIndex.Value.Text

/-!
# Message templates

A template is a text with directives such as `%s`, `%5d` or `%-8.2f`, each of which takes the next
argument, or with a key in parentheses a field of the one mapping given. Two percent signs stand for
one. All arguments must be taken, unless they are one mapping or one list.
-/

namespace PackIndex

inductive TemplateError where
  | incomplete
  | incompleteKey
  | unknownConversion (conversion : Char) (index : Nat)
  | tooFewArguments
  | tooManyArguments
  | notMapping
  | missingKey (key : String)
  | keyIntoList
  | notNumber (conversion : Char) (typeName : String)
  | notWhole (conversion : Char) (typeName : String)
  | notReal (typeName : String)
  | notWidth
  /-- A width or precision written in the template is beyond its limit. -/
  | countTooBig (what : String)
  /-- A width or precision taken from the arguments is beyond its limit. -/
  | countOverflow (type : String)
  | notCharacter
  | characterOutOfRange
  | infiniteWhole
  | notANumberWhole
  | tooLarge

namespace TemplateError

/-- How a conversion that does not exist is shown: as `?` unless it is plain ASCII. -/
def shownConversion (c : Char) : Char := if 31 ≤ c.toNat ∧ c.toNat ≤ 126 then c else '?'

def message : TemplateError → String
  | incomplete => "incomplete format"
  | incompleteKey => "incomplete format key"
  | unknownConversion c index =>
    "unsupported format character '" ++ String.ofList [shownConversion c] ++ "' (0x" ++
      String.ofList (Nat.toDigits 16 c.toNat) ++ ") at index " ++ Number.natText index
  | tooFewArguments => "not enough arguments for format string"
  | tooManyArguments => "not all arguments converted during string formatting"
  | notMapping => "format requires a mapping"
  | missingKey key => key
  | keyIntoList => "list indices must be integers or slices, not str"
  | notNumber c typeName =>
    "%" ++ String.ofList [c] ++ " format: a real number is required, not " ++ typeName
  | notWhole c typeName =>
    "%" ++ String.ofList [c] ++ " format: an integer is required, not " ++ typeName
  | notReal typeName => "must be real number, not " ++ typeName
  | notWidth => "* wants int"
  | countTooBig what => what ++ " too big"
  | countOverflow type => "Python int too large to convert to C " ++ type
  | notCharacter => "%c requires int or char"
  | characterOutOfRange => "%c arg not in range(0x110000)"
  | infiniteWhole => "cannot convert float infinity to integer"
  | notANumberWhole => "cannot convert float NaN to integer"
  | tooLarge => "int too large to convert to float"

end TemplateError

namespace Template

inductive KeySource where
  | none
  | fields (fields : Fields)
  /-- A list, which has positions and no keys. -/
  | positions

def KeySource.isNone : KeySource → Bool
  | .none => true
  | _ => false

/-- The arguments not taken yet, and what keys refer to. -/
structure Supply where
  rest : List Value
  source : KeySource

/-- The supply of arguments that are not empty: those of a tuple one by one, any other value as
one argument. -/
def Supply.ofValue (args : Value) : Supply :=
  match args with
  | .tuple args => ⟨args, .none⟩
  | .dict fields => ⟨[args], .fields fields⟩
  | .list _ => ⟨[args], .positions⟩
  | _ => ⟨[args], .none⟩

def Supply.next (s : Supply) : Except TemplateError (Value × Supply) :=
  match s.rest with
  | v :: rest => .ok (v, { s with rest })
  | [] => .error .tooFewArguments

structure Layout where
  left : Bool
  plus : Bool
  blank : Bool
  alternate : Bool
  zeros : Bool
  width : Nat
  precision : Option Nat

def Layout.none : Layout := ⟨false, false, false, false, false, 0, .none⟩

def flags : Layout → List Char → Layout × List Char
  | l, '-' :: cs => flags { l with left := true } cs
  | l, '+' :: cs => flags { l with plus := true } cs
  | l, ' ' :: cs => flags { l with blank := true } cs
  | l, '#' :: cs => flags { l with alternate := true } cs
  | l, '0' :: cs => flags { l with zeros := true } cs
  | l, cs => (l, cs)

/-- One of the two numbers a directive may hold: what it is called, and the signed machine word
that has room for it. -/
structure CountRule where
  name : String
  type : String
  bits : Nat

def CountRule.width : CountRule := ⟨"width", "ssize_t", 63⟩

def CountRule.precision : CountRule := ⟨"precision", "int", 31⟩

def count (rule : CountRule) (s : Supply) (cs : List Char) :
    Except TemplateError (Int × Supply × List Char) :=
  match cs with
  | '*' :: cs => do
    let (v, s) ← s.next
    match v with
    | .int n =>
      if Number.isSignedWord rule.bits n then return (n, s, cs)
      else .error (.countOverflow rule.type)
    | .bool b => return (if b then 1 else 0, s, cs)
    | _ => .error .notWidth
  | _ =>
    let n := Text.natOfDigits (cs.takeWhile Char.isDigit)
    if Number.isSignedWord rule.bits n then .ok (n, s, cs.dropWhile Char.isDigit)
    else .error (.countTooBig rule.name)

def padText (l : Layout) (cs : List Char) : List Char :=
  let fill := List.replicate (l.width - cs.length) ' '
  if l.left then cs ++ fill else fill ++ cs

def padNumber (l : Layout) (negative : Bool) (base : List Char) (body : List Char) : List Char :=
  let sign := if negative then ['-'] else if l.plus then ['+'] else if l.blank then [' '] else []
  let head := sign ++ base
  if l.zeros ∧ l.left = false then
    head ++ List.replicate (l.width - head.length - body.length) '0' ++ body
  else padText l (head ++ body)

/-- The whole number an argument stands for. -/
def wholeOf (conversion : Char) (v : Value) : Except TemplateError Int :=
  match v with
  | .int n => .ok n
  | .bool b => .ok (if b then 1 else 0)
  | .float x =>
    match x.truncate? with
    | some n => .ok n
    | none => .error (if x.isNaN then .notANumberWhole else .infiniteWhole)
  | _ => .error (.notNumber conversion v.typeName)

def integerOf (conversion : Char) (v : Value) : Except TemplateError Int :=
  match v with
  | .int n => .ok n
  | .bool b => .ok (if b then 1 else 0)
  | _ => .error (.notWhole conversion v.typeName)

def realOf (v : Value) : Except TemplateError Binary64 :=
  match v with
  | .float x => .ok x
  | .int n =>
    match Binary64.ofInt? n with
    | some x => .ok x
    | none => .error .tooLarge
  | .bool b => .ok (.ofInt (if b then 1 else 0))
  | _ => .error (.notReal v.typeName)

def whole (l : Layout) (base : List Char) (digits : List Char) (n : Int) : List Char :=
  padNumber l (n < 0) base (Number.padLeft (l.precision.getD 0) '0' digits)

def realDigits (l : Layout) (conversion : Char) (rank : Nat) : List Char :=
  let places := l.precision.getD 6
  match conversion.toLower with
  | 'e' => Number.exponentMagnitude l.alternate places rank
  | 'g' => Number.generalMagnitude l.alternate places rank
  | _ =>
    let body := Number.fixedMagnitude places rank
    if l.alternate ∧ places = 0 then body ++ ['.'] else body

def real (l : Layout) (conversion : Char) (x : Binary64) : List Char :=
  let cased (cs : List Char) : List Char :=
    if conversion.isUpper then cs.map Char.toUpper else cs
  match x with
  | .nan => padNumber l false [] (cased "nan".toList)
  | .signed negative rank _ =>
    padNumber l negative []
      (cased (if rank = infinityRank then "inf".toList else realDigits l conversion rank))

def asciiQuoted (v : Value) : List Char :=
  v.quotedText.toList.flatMap fun c => if c.toNat < 0x80 then [c] else Text.escapeUnprintable c

def character (v : Value) : Except TemplateError (List Char) :=
  match v with
  | .str s => if s.length = 1 then .ok s.toList else .error .notCharacter
  | .int n =>
    if 0 ≤ n ∧ n < 0x110000 then .ok [Char.ofNat n.toNat] else .error .characterOutOfRange
  | .bool b => .ok [if b then '\x01' else '\x00']
  | _ => .error .notCharacter

def convert (l : Layout) (conversion : Char) (index : Nat) (v : Value) :
    Except TemplateError (List Char) :=
  let cut (cs : List Char) : List Char :=
    padText l (match l.precision with | some n => cs.take n | none => cs)
  match conversion with
  | 's' => .ok (cut v.plainText.toList)
  | 'r' => .ok (cut v.quotedText.toList)
  | 'a' => .ok (cut (asciiQuoted v))
  | 'd' | 'i' | 'u' => (wholeOf conversion v).map fun n => whole l [] (Number.digits n.natAbs) n
  | 'x' =>
    (integerOf conversion v).map fun n =>
      whole l (if l.alternate then ['0', 'x'] else []) (Nat.toDigits 16 n.natAbs) n
  | 'X' =>
    (integerOf conversion v).map fun n =>
      whole l (if l.alternate then ['0', 'X'] else [])
        ((Nat.toDigits 16 n.natAbs).map Char.toUpper) n
  | 'o' =>
    (integerOf conversion v).map fun n =>
      whole l (if l.alternate then ['0', 'o'] else []) (Nat.toDigits 8 n.natAbs) n
  | 'e' | 'E' | 'f' | 'F' | 'g' | 'G' => (realOf v).map (real l conversion)
  | 'c' => (character v).map (padText l)
  | _ => .error (.unknownConversion conversion index)

def keyOf? : Nat → List Char → Option (List Char × List Char)
  | _, [] => none
  | 0, ')' :: cs => some ([], cs)
  | depth + 1, ')' :: cs => (keyOf? depth cs).map fun (k, cs) => (')' :: k, cs)
  | depth, c :: cs =>
    (keyOf? (if c = '(' then depth + 1 else depth) cs).map fun (k, cs) => (c :: k, cs)

def select (s : Supply) (key : String) : Except TemplateError Supply :=
  match s.source with
  | .none => .error .notMapping
  | .positions => .error .keyIntoList
  | .fields fields =>
    match fields.get? key with
    | some v => .ok { s with rest := [v] }
    | none => .error (.missingKey key)

/-- A directive behind its percent sign: its text, what is left of the supply, and what
follows. `length` is that of the whole template. -/
def directive (length : Nat) (s : Supply) (cs : List Char) :
    Except TemplateError (List Char × Supply × List Char) := do
  let (s, cs) ←
    match cs with
    | '(' :: inside =>
      if s.source.isNone then .error .notMapping
      else
        match keyOf? 0 inside with
        | none => .error .incompleteKey
        | some (key, cs) => (select s (String.ofList key)).map fun s => (s, cs)
    | _ => .ok (s, cs)
  let (l, cs) := flags .none cs
  let (width, s, cs) ← count .width s cs
  let l := if width < 0 then { l with left := true, width := width.natAbs }
    else { l with width := width.natAbs }
  let (l, s, cs) ←
    match cs with
    | '.' :: cs =>
      (count .precision s cs).map fun (n, s, cs) => ({ l with precision := some n.toNat }, s, cs)
    | _ => .ok (l, s, cs)
  let cs := match cs with
    | 'h' :: cs | 'l' :: cs | 'L' :: cs => cs
    | _ => cs
  match cs with
  | [] => .error .incomplete
  | c :: cs =>
    let (v, s) ← s.next
    let text ← convert l c (length - cs.length - 1) v
    return (text, s, cs)

def renderFrom (length : Nat) : Nat → Supply → List Char → Except TemplateError (List Char)
  | _, s, [] =>
    if s.rest.isEmpty = false ∧ s.source.isNone then .error .tooManyArguments else .ok []
  | 0, _, _ => .ok []
  | n + 1, s, '%' :: '%' :: cs => (renderFrom length n s cs).map ('%' :: ·)
  | n + 1, s, '%' :: cs => do
    let (text, s, cs) ← directive length s cs
    return text ++ (← renderFrom length n s cs)
  | n + 1, s, c :: cs => (renderFrom length n s cs).map (c :: ·)

def render (template : String) (args : Value) : Except TemplateError String :=
  let cs := template.toList
  (renderFrom cs.length (cs.length + 1) (.ofValue args) cs).map String.ofList

end Template

end PackIndex
