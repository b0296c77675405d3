import PackIndex.Text.Percent

/-!
# Places in a document

A cursor is a place in a text: what follows, the line and the column. From a cursor one reads the
words, quoted texts and gaps of a YAML document; inside a scalar, a line break counts as a blank
and further empty lines as line breaks.
-/

namespace PackIndex.Yaml

structure Cursor where
  rest : List Char
  line : Nat
  column : Nat
  index : Nat

def isBreak (c : Char) : Bool := c == '\n' || c == '\r' || c == '\x85' || c == '\u2028' || c == '\u2029'

def isGap (c : Char) : Bool := c == ' ' || c == '\t' || isBreak c

/-- Whether a word ends before these characters. -/
def endsWord (cs : List Char) : Bool := cs.head?.all isGap

def breakChar (c : Char) : Char := if c = '\u2028' ∨ c = '\u2029' then c else '\n'

/-- Whether a line starts with one of the marks around documents. -/
def atDocumentMark (cs : List Char) : Bool :=
  (cs.take 3 == ['-', '-', '-'] || cs.take 3 == ['.', '.', '.']) && endsWord (cs.drop 3)

namespace Cursor

def start (cs : List Char) : Cursor := ⟨cs, 0, 0, 0⟩

def next (c : Cursor) : Cursor :=
  match c.rest with
  | [] => c
  | ch :: rest =>
    if isBreak ch then ⟨rest, c.line + 1, 0, c.index + 1⟩
    else ⟨rest, c.line, if ch = '\uFEFF' then c.column else c.column + 1, c.index + 1⟩

def skip : Nat → Cursor → Cursor
  | 0, c => c
  | n + 1, c => skip n c.next

def skipWhile (p : Char → Bool) (c : Cursor) : Cursor := c.skip (c.rest.takeWhile p).length

/-- Past blanks, comments and line breaks. The first result tells whether a line was left. -/
def skipBlanks : Nat → Bool → Cursor → Bool × Cursor
  | 0, left, c => (left, c)
  | n + 1, left, c =>
    match c.rest with
    | [] => (left, c)
    | ch :: _ =>
      if ch = ' ' then skipBlanks n left c.next
      else if ch = '#' then skipBlanks n left (c.skipWhile (!isBreak ·))
      else if isBreak ch then skipBlanks n true c.next
      else (left, c)

/-- A line break with the empty lines behind it, as part of a scalar. -/
def foldBreaks (first : Char) (others : List Char) : List Char :=
  if breakChar first ≠ '\n' then breakChar first :: others
  else if others = [] then [' ']
  else others

/-- The empty lines at the start of a line; `none` where a document ends. -/
def emptyLines (isBlank : Char → Bool) : Nat → Cursor → Option (List Char × Cursor)
  | 0, c => some ([], c)
  | n + 1, c =>
    if atDocumentMark c.rest then none
    else
      let c := c.skipWhile isBlank
      match c.rest with
      | ch :: _ =>
        if isBreak ch then
          (emptyLines isBlank n c.next).map fun (others, c) => (breakChar ch :: others, c)
        else some ([], c)
      | [] => some ([], c)

/-- Whether a plain word ends before `ch`, which stands before `rest`. -/
def stopsPlain (flow : Bool) (ch : Char) (rest : List Char) : Bool :=
  isGap ch ||
    (ch == ':' && (endsWord rest || (flow && rest.head?.any (",[]\x7b\x7d".toList.contains ·)))) ||
    (flow && ",?[]\x7b\x7d".toList.contains ch)

def plainLength (flow : Bool) : List Char → Nat
  | [] => 0
  | ch :: rest => if stopsPlain flow ch rest then 0 else plainLength flow rest + 1

/-- The gap behind a plain word: its text, empty where the scalar ends for sure, and whether a
line was left. -/
def plainGap (c : Cursor) : List Char × Bool × Cursor :=
  let blanks := c.rest.takeWhile (· == ' ')
  let c := c.skip blanks.length
  match c.rest with
  | ch :: _ =>
    if isBreak ch then
      match emptyLines (· == ' ') c.rest.length c.next with
      | some (others, after) => (foldBreaks ch others, true, after)
      | none => ([], true, c.next)
    else (blanks, false, c)
  | [] => (blanks, false, c)

/-- A plain scalar: words and the gaps between them. `gap` stands before the next word. The
result tells whether a line was left behind the last word. -/
def plain (flow : Bool) (indent : Int) : Nat → List Char → Bool → Cursor → List Char × Bool × Cursor
  | 0, _, left, c => ([], left, c)
  | n + 1, gap, left, c =>
    let length := plainLength flow c.rest
    if length = 0 then ([], left, c)
    else
      let word := c.rest.take length
      let (space, left, c) := plainGap (c.skip length)
      if space = [] ∨ c.rest.head? = some '#' ∨ (flow = false ∧ (c.column : Int) < indent) then
        (gap ++ word, left, c)
      else
        let (others, left, c) := plain flow indent n space left c
        (gap ++ word ++ others, left, c)

def simpleEscape? : Char → Option Char
  | '0' => some '\x00'
  | 'a' => some '\x07'
  | 'b' => some '\x08'
  | 't' => some '\t'
  | '\t' => some '\t'
  | 'n' => some '\n'
  | 'v' => some '\x0b'
  | 'f' => some '\x0c'
  | 'r' => some '\r'
  | 'e' => some '\x1b'
  | ' ' => some ' '
  | '"' => some '"'
  | '\\' => some '\\'
  | '/' => some '/'
  | 'N' => some '\x85'
  | '_' => some '\xa0'
  | 'L' => some '\u2028'
  | 'P' => some '\u2029'
  | _ => none

def codeLength? : Char → Option Nat
  | 'x' => some 2
  | 'u' => some 4
  | 'U' => some 8
  | _ => none

def codeChar? (length : Nat) (cs : List Char) : Option Char := do
  let ds := cs.take length
  if ds.length < length then none
  else
    let n ← ds.foldl (fun acc c => do return (← acc) * 16 + (← Percent.hexValue? c)) (some 0)
    if h : n.isValidChar then some (Char.ofNatAux n h) else none

def quoted (double : Bool) : Nat → Cursor → Option (List Char × Cursor)
  | 0, _ => none
  | n + 1, c =>
    let onward (text : List Char) (c : Cursor) : Option (List Char × Cursor) :=
      (quoted double n c).map fun (others, c) => (text ++ others, c)
    match c.rest with
    | [] => none
    | ch :: rest =>
      if isBreak ch then do
        let (others, c) ← emptyLines (fun c => c == ' ' || c == '\t') rest.length c.next
        onward (foldBreaks ch others) c
      else if ch = ' ' ∨ ch = '\t' then
        let blanks := c.rest.takeWhile fun c => c == ' ' || c == '\t'
        let c := c.skip blanks.length
        onward (if c.rest.head?.any isBreak then [] else blanks) c
      else if double then
        if ch = '"' then some ([], c.next)
        else if ch = '\\' then
          match rest with
          | [] => none
          | e :: digits =>
            if isBreak e then do
              let (others, c) ←
                emptyLines (fun c => c == ' ' || c == '\t') digits.length (c.skip 2)
              onward others c
            else
              match simpleEscape? e, codeLength? e with
              | some r, _ => onward [r] (c.skip 2)
              | none, some length => do
                let r ← codeChar? length digits
                onward [r] (c.skip (2 + length))
              | none, none => none
        else onward [ch] c.next
      else if ch = '\'' then
        if rest.head? = some '\'' then onward ['\''] (c.skip 2) else some ([], c.next)
      else onward [ch] c.next

end Cursor

end PackIndex.Yaml
