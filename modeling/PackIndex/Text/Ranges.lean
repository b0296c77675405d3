/-!
# Character ranges

A set of characters given by the first and last code of each of its runs.
-/

namespace PackIndex.Text

def inRanges (ranges : List (Nat × Nat)) (c : Char) : Bool :=
  ranges.any fun (first, last) => first ≤ c.toNat && c.toNat ≤ last

end PackIndex.Text
