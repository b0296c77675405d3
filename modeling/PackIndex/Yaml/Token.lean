import PackIndex.Yaml.Cursor
import PackIndex.Yaml.Scalar

/-!
# Tokens of a document

The marks and scalars of a YAML document in order. Indentation becomes marks for the starts and
ends of blocks, and a scalar that turns out to be a key gets its mark when its colon is met: until
then it is kept as a pending key. Anchors, tags, directives and block scalars are refused.
-/

namespace PackIndex.Yaml

inductive Token where
  | documentStart
  | documentEnd
  | sequenceStart
  | mappingStart
  | blockEnd
  | flowSequenceStart
  | flowSequenceEnd
  | flowMappingStart
  | flowMappingEnd
  | flowEntry
  | blockEntry
  | key
  | value
  | scalar (v : Value)

/-- A place where a key may have started, and the number of tokens before it. A key at the
indentation of its block must be one. -/
structure PendingKey where
  position : Nat
  required : Bool
  line : Nat
  column : Nat
  index : Nat

/-- The tokens so far, the last one first, with what is open: the number of brackets, the
indentations of the blocks, and the pending key of each bracket level. -/
structure Layout where
  cursor : Cursor
  flow : Nat
  indent : Int
  outer : List Int
  keyAllowed : Bool
  pending : List (Option PendingKey)
  tokens : List Token

namespace Layout

def start (cs : List Char) : Layout := ⟨.start cs, 0, -1, [], true, [none], []⟩

def push (token : Token) (s : Layout) : Layout := { s with tokens := token :: s.tokens }

def pass (n : Nat) (s : Layout) : Layout := { s with cursor := s.cursor.skip n }

def allowKey (allowed : Bool) (s : Layout) : Layout := { s with keyAllowed := allowed }

/-- Gives up the pending key of this level, unless it is required. -/
def dropPending (s : Layout) : Option Layout :=
  match s.pending with
  | some k :: rest => if k.required then none else some { s with pending := none :: rest }
  | _ => some s

def savePending (s : Layout) : Option Layout :=
  if s.keyAllowed then
    s.dropPending.map fun s =>
      let required := s.flow == 0 && s.indent == (s.cursor.column : Int)
      let k : PendingKey :=
        ⟨s.tokens.length, required, s.cursor.line, s.cursor.column, s.cursor.index⟩
      { s with pending := some k :: s.pending.drop 1 }
  else some s

def maxKeyLength : Nat := 1024

/-- A pending key whose line is over or that has grown too long is none. -/
def freshKey (c : Cursor) : Option PendingKey → Option (Option PendingKey)
  | none => some none
  | some k =>
    if k.line = c.line ∧ c.index ≤ k.index + maxKeyLength then some (some k)
    else if k.required then none
    else some none

def dropStale (s : Layout) : Option Layout :=
  (s.pending.mapM (freshKey s.cursor)).map fun pending => { s with pending }

/-- Closes the blocks indented deeper than a column. -/
def unwindTo (column : Int) : Int → List Int → List Token → Int × List Int × List Token
  | indent, [], tokens => (indent, [], tokens)
  | indent, next :: outer, tokens =>
    if column < indent then unwindTo column next outer (.blockEnd :: tokens)
    else (indent, next :: outer, tokens)

def unwind (column : Int) (s : Layout) : Layout :=
  if s.flow = 0 then
    let (indent, outer, tokens) := unwindTo column s.indent s.outer s.tokens
    { s with indent, outer, tokens }
  else s

def indentTo (column : Int) (s : Layout) : Bool × Layout :=
  if s.indent < column then (true, { s with indent := column, outer := s.indent :: s.outer })
  else (false, s)

/-- Opens a block at the cursor if needed; outside brackets only where a key may start. -/
def openBlock (mark : Token) (s : Layout) : Option Layout :=
  if s.flow ≠ 0 then some s
  else if s.keyAllowed = false then none
  else
    let (opened, s) := s.indentTo s.cursor.column
    some (if opened then s.push mark else s)

def insertAt (position : Nat) (marks : List Token) (s : Layout) : Layout :=
  let after := s.tokens.length - position
  { s with tokens := s.tokens.take after ++ marks.reverse ++ s.tokens.drop after }

def documentMark (mark : Token) (s : Layout) : Option Layout :=
  (s.unwind (-1)).dropPending.map fun s => ((s.allowKey false).push mark).pass 3

def openBracket (mark : Token) (s : Layout) : Option Layout :=
  s.savePending.map fun s =>
    (({ s with flow := s.flow + 1, pending := none :: s.pending }.allowKey true).push mark).pass 1

def closeBracket (mark : Token) (s : Layout) : Option Layout :=
  if s.flow = 0 then none
  else
    s.dropPending.map fun s =>
      (({ s with flow := s.flow - 1, pending := s.pending.drop 1 }.allowKey false).push mark).pass 1

def comma (s : Layout) : Option Layout :=
  (s.allowKey true).dropPending.map fun s => (s.push .flowEntry).pass 1

def dash (s : Layout) : Option Layout := do
  let s ← s.openBlock .sequenceStart
  let s ← (s.allowKey true).dropPending
  return (s.push .blockEntry).pass 1

def questionMark (s : Layout) : Option Layout := do
  let s ← s.openBlock .mappingStart
  let s ← (s.allowKey (s.flow == 0)).dropPending
  return (s.push .key).pass 1

/-- A colon turns the pending key into a key; without one it stands behind an empty key. -/
def colon (s : Layout) : Option Layout :=
  match s.pending with
  | some k :: rest =>
    let (opened, s) := if s.flow = 0 then s.indentTo k.column else (false, s)
    let s := s.insertAt k.position (if opened then [.mappingStart, .key] else [.key])
    some ((({ s with pending := none :: rest }.allowKey false).push .value).pass 1)
  | _ => do
    let s ← s.openBlock .mappingStart
    return ((s.allowKey (s.flow == 0)).push .value).pass 1

def quotedScalar (double : Bool) (s : Layout) : Option Layout := do
  let s ← s.savePending
  let (text, c) ← Cursor.quoted double s.cursor.rest.length s.cursor.next
  return (({ s with cursor := c }).allowKey false).push (.scalar (.str (String.ofList text)))

def plainScalar (s : Layout) : Option Layout := do
  let s ← s.savePending
  let (text, left, c) :=
    Cursor.plain (s.flow != 0) (s.indent + 1) s.cursor.rest.length [] false s.cursor
  let v ← plainValue? (String.ofList text)
  return (({ s with cursor := c }).allowKey left).push (.scalar v)

/-- Characters that start no plain scalar, or only if a word follows. -/
def indicators : List Char := "-?:,[]\x7b\x7d#&*!|>'\"%@\x60".toList

def startsPlain (flow : Bool) (ch : Char) (rest : List Char) : Bool :=
  (!isGap ch && !indicators.contains ch) ||
    (!endsWord rest && (ch == '-' || (!flow && (ch == '?' || ch == ':'))))

def token (ch : Char) (rest : List Char) (s : Layout) : Option Layout :=
  let inFlow := s.flow != 0
  if s.cursor.column = 0 ∧ atDocumentMark (ch :: rest) then
    s.documentMark (if ch = '-' then .documentStart else .documentEnd)
  else if ch = '[' then s.openBracket .flowSequenceStart
  else if ch = '\x7b' then s.openBracket .flowMappingStart
  else if ch = ']' then s.closeBracket .flowSequenceEnd
  else if ch = '\x7d' then s.closeBracket .flowMappingEnd
  else if ch = ',' then s.comma
  else if ch = '-' ∧ endsWord rest then s.dash
  else if ch = '?' ∧ (inFlow ∨ endsWord rest) then s.questionMark
  else if ch = ':' ∧ (inFlow ∨ endsWord rest) then s.colon
  else if ch = '\'' then s.quotedScalar false
  else if ch = '"' then s.quotedScalar true
  else if startsPlain inFlow ch rest then s.plainScalar
  else none

def tokens? : Nat → Layout → Option (List Token)
  | 0, _ => none
  | n + 1, s => do
    let (left, c) := Cursor.skipBlanks s.cursor.rest.length false s.cursor
    let s := { s with cursor := c, keyAllowed := s.keyAllowed || (left && s.flow == 0) }
    let s ← s.dropStale
    match c.rest with
    | [] =>
      let s ← (s.unwind (-1)).dropPending
      return s.tokens.reverse
    | ch :: rest =>
      let s ← (s.unwind c.column).token ch rest
      tokens? n s

end Layout

/-- The characters a document may hold. -/
def isPrintableChar (c : Char) : Bool :=
  c == '\t' || c == '\n' || c == '\r' || c == '\x85' || (0x20 ≤ c.toNat && c.toNat ≤ 0x7E) ||
    (0xA0 ≤ c.toNat && c.toNat ≠ 0xFFFE && c.toNat ≠ 0xFFFF)

def tokens? (cs : List Char) : Option (List Token) :=
  if cs.all isPrintableChar then
    let s := Layout.start cs
    let s := if cs.head? = some '\uFEFF' then s.pass 1 else s
    Layout.tokens? (cs.length + 1) s
  else none

end PackIndex.Yaml
