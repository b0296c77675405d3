/-!
# Machine words

Which whole numbers a word of some number of bits has room for.
-/

namespace PackIndex.Number

/-- Whether `n` fits a signed word with that many bits beside its sign. -/
def isSignedWord (bits : Nat) (n : Int) : Bool :=
  -(Nat.pow 2 bits : Nat) ≤ n && n < (Nat.pow 2 bits : Nat)

def isUnsignedWord (bits : Nat) (n : Int) : Bool := 0 ≤ n && n < (Nat.pow 2 bits : Nat)

/-- Whether `n` fits a word of 64 bits, signed or not. -/
def isWord64 (n : Int) : Bool := isSignedWord 63 n || isUnsignedWord 64 n

end PackIndex.Number
