import PackIndex.Text.Ranges

/-!
# Blank characters

`isWhiteSpace` is the Unicode property `White_Space`; `isBlank` adds the four information
separators `U+001C`-`U+001F`. `trim` removes a class of characters from both ends of a text.
-/

namespace PackIndex.Text

def whiteSpaceRanges : List (Nat × Nat) :=
  [(0x9, 0xD), (0x20, 0x20), (0x85, 0x85), (0xA0, 0xA0), (0x1680, 0x1680), (0x2000, 0x200A),
   (0x2028, 0x2029), (0x202F, 0x202F), (0x205F, 0x205F), (0x3000, 0x3000)]

def isWhiteSpace (c : Char) : Bool := inRanges whiteSpaceRanges c

def isBlank (c : Char) : Bool := isWhiteSpace c || inRanges [(0x1C, 0x1F)] c

def dropEndWhile (p : Char → Bool) (cs : List Char) : List Char :=
  (cs.reverse.dropWhile p).reverse

def trimChars (p : Char → Bool) (cs : List Char) : List Char :=
  dropEndWhile p (cs.dropWhile p)

def trim (p : Char → Bool) (s : String) : String := String.ofList (trimChars p s.toList)

def strip (s : String) : String := trim isBlank s

end PackIndex.Text
