import PackIndex.Text.Utf8

/-!
# Percent encoding

The characters that stand for themselves in a file URI are letters, digits and `_.-~/`; every
byte of any other character is written `%XX`. Decoding reads `%XX` as bytes of UTF-8.
-/

namespace PackIndex.Percent

def isPlain (c : Char) : Bool :=
  c.isAlphanum || c == '_' || c == '.' || c == '-' || c == '~' || c == '/'

def hexDigit (n : Nat) : Char :=
  if n < 10 then Char.ofNat (0x30 + n) else Char.ofNat (0x37 + n)

def encodeByte (b : UInt8) : List Char := ['%', hexDigit (b.toNat / 16), hexDigit (b.toNat % 16)]

def encodeChar (c : Char) : List Char :=
  if isPlain c then [c] else (Utf8.encodeChar c).flatMap encodeByte

def encodeChars (cs : List Char) : List Char := cs.flatMap encodeChar

def encode (s : String) : String := String.ofList (encodeChars s.toList)

def hexValue? (c : Char) : Option Nat :=
  if '0' ≤ c ∧ c ≤ '9' then some (c.toNat - 0x30)
  else if 'a' ≤ c ∧ c ≤ 'f' then some (c.toNat - 0x57)
  else if 'A' ≤ c ∧ c ≤ 'F' then some (c.toNat - 0x37)
  else none

/-- The bytes a text stands for: `%XX` is one byte, every other character its own bytes. -/
def toBytes : List Char → List UInt8
  | '%' :: a :: b :: rest =>
    match hexValue? a, hexValue? b with
    | some x, some y => UInt8.ofNat (16 * x + y) :: toBytes rest
    | _, _ => Utf8.encodeChar '%' ++ toBytes (a :: b :: rest)
  | c :: rest => Utf8.encodeChar c ++ toBytes rest
  | [] => []

def decodeChars (cs : List Char) : List Char :=
  if '%' ∈ cs then Utf8.decodeLossyChars (toBytes cs) else cs

def decode (s : String) : String := String.ofList (decodeChars s.toList)

end PackIndex.Percent
