/-!
# UTF-8

Texts as bytes. `decode?` accepts exactly well-formed UTF-8; `decodeLossy` puts `U+FFFD` in place
of each longest ill-formed piece that could have begun a character.
-/

namespace PackIndex.Utf8

def encodeChar (c : Char) : List UInt8 :=
  let n := c.toNat
  if n < 0x80 then [UInt8.ofNat n]
  else if n < 0x800 then [UInt8.ofNat (0xC0 + n / 64), UInt8.ofNat (0x80 + n % 64)]
  else if n < 0x10000 then
    [UInt8.ofNat (0xE0 + n / 4096), UInt8.ofNat (0x80 + n / 64 % 64), UInt8.ofNat (0x80 + n % 64)]
  else
    [UInt8.ofNat (0xF0 + n / 262144), UInt8.ofNat (0x80 + n / 4096 % 64),
      UInt8.ofNat (0x80 + n / 64 % 64), UInt8.ofNat (0x80 + n % 64)]

def encodeChars (cs : List Char) : List UInt8 := cs.flatMap encodeChar

def encode (s : String) : List UInt8 := encodeChars s.toList

/-- What a first byte announces: how many bytes follow, the bits it carries, and the range of the
next byte. -/
def lead? (b : Nat) : Option (Nat × Nat × Nat × Nat) :=
  if b < 0x80 then some (0, b, 0x80, 0xBF)
  else if 0xC2 ≤ b ∧ b ≤ 0xDF then some (1, b - 0xC0, 0x80, 0xBF)
  else if b = 0xE0 then some (2, 0, 0xA0, 0xBF)
  else if b = 0xED then some (2, 0xD, 0x80, 0x9F)
  else if 0xE1 ≤ b ∧ b ≤ 0xEF then some (2, b - 0xE0, 0x80, 0xBF)
  else if b = 0xF0 then some (3, 0, 0x90, 0xBF)
  else if 0xF1 ≤ b ∧ b ≤ 0xF3 then some (3, b - 0xF0, 0x80, 0xBF)
  else if b = 0xF4 then some (3, 4, 0x80, 0x8F)
  else none

/-- The state between two bytes: `none` between characters, otherwise the number of bytes still
missing, the bits so far and the range of the next byte. -/
abbrev Pending := Option (Nat × Nat × Nat × Nat)

/-- Decodes the rest of a byte sequence; `onBad` says what an ill-formed piece becomes. -/
def decodeFrom (onBad : Option Char) : Pending → List UInt8 → Option (List Char)
  | none, [] => some []
  | some _, [] => onBad.map ([·])
  | pending, b :: rest =>
    let start (before : List Char) : Option (List Char) :=
      match lead? b.toNat with
      | some (0, bits, _, _) => (decodeFrom onBad none rest).map (before ++ Char.ofNat bits :: ·)
      | some p => (decodeFrom onBad (some p) rest).map (before ++ ·)
      | none => onBad.bind fun bad => (decodeFrom onBad none rest).map (before ++ bad :: ·)
    match pending with
    | none => start []
    | some (missing, bits, low, high) =>
      if low ≤ b.toNat ∧ b.toNat ≤ high then
        let bits := bits * 64 + (b.toNat - 0x80)
        if missing ≤ 1 then (decodeFrom onBad none rest).map (Char.ofNat bits :: ·)
        else decodeFrom onBad (some (missing - 1, bits, 0x80, 0xBF)) rest
      else onBad.bind fun bad => start [bad]

def decode? (bytes : List UInt8) : Option String :=
  (decodeFrom none none bytes).map String.ofList

/-- The text of any bytes, ill-formed pieces replaced. -/
def decodeLossyChars (bytes : List UInt8) : List Char :=
  (decodeFrom (some (Char.ofNat 0xFFFD)) none bytes).getD []

/-! ## Where bytes are ill-formed -/

inductive FaultKind where
  | badStart
  | badContinuation
  | truncated
  deriving DecidableEq, Repr

def FaultKind.reason : FaultKind → String
  | .badStart => "invalid start byte"
  | .badContinuation => "invalid continuation byte"
  | .truncated => "unexpected end of data"

structure Fault where
  position : Nat
  piece : List UInt8
  kind : FaultKind
  deriving DecidableEq, Repr

def faultFrom (position : Nat) (piece : List UInt8) : Pending → List UInt8 → Option Fault
  | none, [] => none
  | some _, [] => some ⟨position, piece, .truncated⟩
  | none, b :: rest =>
    match lead? b.toNat with
    | some (0, _, _, _) => faultFrom (position + 1) [] none rest
    | some p => faultFrom position [b] (some p) rest
    | none => some ⟨position, [b], .badStart⟩
  | some (missing, bits, low, high), b :: rest =>
    if low ≤ b.toNat ∧ b.toNat ≤ high then
      if missing ≤ 1 then faultFrom (position + piece.length + 1) [] none rest
      else faultFrom position (piece ++ [b]) (some (missing - 1, bits, 0x80, 0xBF)) rest
    else some ⟨position, piece, .badContinuation⟩

def fault? (bytes : List UInt8) : Option Fault := faultFrom 0 [] none bytes

end PackIndex.Utf8
