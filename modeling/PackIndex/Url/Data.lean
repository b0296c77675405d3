import PackIndex.Text.Blank
import PackIndex.Text.Percent
import PackIndex.Text.Pieces

/-!
# Data URLs

The bytes that a `data:` URL carries: percent-encoded text, or base 64 if the media type says so.
-/

namespace PackIndex.Url

inductive DataError where
  | noComma
  | badPadding
  | strayCharacter (count : Nat)
  deriving DecidableEq

def DataError.message : DataError → String
  | .noComma => "not enough values to unpack (expected 2, got 1)"
  | .badPadding => "Incorrect padding"
  | .strayCharacter count =>
    "Invalid base64-encoded string: number of data characters (" ++ toString count ++
      ") cannot be 1 more than a multiple of 4"

namespace Base64

def value? (b : UInt8) : Option Nat :=
  let n := b.toNat
  if 0x41 ≤ n ∧ n ≤ 0x5A then some (n - 0x41)
  else if 0x61 ≤ n ∧ n ≤ 0x7A then some (n - 0x61 + 26)
  else if 0x30 ≤ n ∧ n ≤ 0x39 then some (n - 0x30 + 52)
  else if n = 0x2B then some 62
  else if n = 0x2F then some 63
  else none

/-- What has been read of a group of four: how many characters, the bits not yet written, and the
number of padding signs just seen. -/
structure Group where
  size : Nat
  bits : Nat
  padding : Nat

/-- Reads bytes, other characters being skipped; enough padding ends the text. -/
def decodeFrom (g : Group) (count : Nat) : List UInt8 → Except DataError (List UInt8)
  | [] =>
    if g.size = 0 then .ok []
    else if g.size = 1 then .error (.strayCharacter count)
    else .error .badPadding
  | b :: rest =>
    if b.toNat = 0x3D then
      if 2 ≤ g.size ∧ 4 ≤ g.size + g.padding + 1 then .ok []
      else decodeFrom { g with padding := if 2 ≤ g.size then g.padding + 1 else g.padding } count rest
    else
      match value? b with
      | none => decodeFrom g count rest
      | some v =>
        let bits := g.bits * 64 + v
        let emit (out : Nat) (g : Group) : Except DataError (List UInt8) :=
          (decodeFrom g (count + 1) rest).map (UInt8.ofNat out :: ·)
        match g.size with
        | 0 => decodeFrom ⟨1, v, 0⟩ (count + 1) rest
        | 1 => emit (bits / 16) ⟨2, bits % 16, 0⟩
        | 2 => emit (bits / 4) ⟨3, bits % 4, 0⟩
        | _ => emit bits ⟨0, 0, 0⟩

def decode (bytes : List UInt8) : Except DataError (List UInt8) := decodeFrom ⟨0, 0, 0⟩ 0 bytes

end Base64

def dataBytes (rest : List Char) : Except DataError (List UInt8) :=
  match Text.cut? ',' rest with
  | none => .error .noComma
  | some (mediaType, data) =>
    let bytes := Percent.toBytes data
    if ";base64".toList.isSuffixOf mediaType then Base64.decode bytes else .ok bytes

end PackIndex.Url
