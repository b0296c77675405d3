import PackIndex.Number.Binary64

/-!
# The fewest digits that read back

`shortest` writes a positive finite double as `digits · 10^exponent` with as few digits as
possible, so that no other double is nearer; among the texts of that length the one nearest to
the exact value is chosen, and of two equally near ones the even one.
-/

namespace PackIndex.Binary64

/-- Floor of `value · 10^(-exponent)` for a value of `num / den`. -/
def scaledFloor (num den : Nat) (exponent : Int) : Nat :=
  let scale := Nat.pow 10 exponent.natAbs
  if exponent < 0 then num * scale / den else num / (den * scale)

/-- Comparison of `n · 10^exponent` with `num / den`. -/
def compareScaled (n : Nat) (exponent : Int) (num den : Nat) : Ordering :=
  let scale := Nat.pow 10 exponent.natAbs
  if exponent < 0 then compare (n * den) (num * scale) else compare (n * scale * den) num

/-- The number of decimal digits before the point of `num / den` (negative when the fraction
starts with zeros): the least `p` with `num / den < 10^p`, searched upward from a low guess. -/
def decimalPoint (num den : Nat) : Int :=
  let guess : Int := ((num.log2 : Int) - den.log2 - 1) * 30103 / 100000
  match (List.range 4).find? fun (k : Nat) => compareScaled 1 (guess + k) num den == .gt with
  | some k => guess + k
  | none => guess + 4

/-- Whether `n · 10^exponent` reads back as the double of this rank: it lies between the midpoints
to the neighbours, the midpoints themselves counting for even ranks. -/
def readsBack (rank n : Nat) (exponent : Int) : Bool :=
  let den := 2 * unitsPerOne
  let low := compareScaled n exponent (units (rank - 1) + units rank) den
  let high := compareScaled n exponent (units rank + units (rank + 1)) den
  (low == .gt || (low == .eq && rank % 2 == 0)) && (high == .lt || (high == .eq && rank % 2 == 0))

/-- Of the two neighbours of the value on the grid of `10^exponent`, the one to write if any. -/
def onGrid? (rank : Nat) (exponent : Int) : Option Nat :=
  let n := scaledFloor (units rank) unitsPerOne exponent
  match readsBack rank n exponent, readsBack rank (n + 1) exponent with
  | true, true =>
    match compareScaled (2 * n + 1) exponent (2 * units rank) unitsPerOne with
    | .gt => some n
    | .lt => some (n + 1)
    | .eq => some (if n % 2 = 0 then n else n + 1)
  | true, false => some n
  | false, true => some (n + 1)
  | false, false => none

/-- Removes final zeros of `digits · 10^exponent`, at most `fuel` of them. -/
def trimZeros : Nat → Nat → Int → Nat × Int
  | 0, digits, exponent => (digits, exponent)
  | fuel + 1, digits, exponent =>
    if digits % 10 = 0 ∧ digits ≠ 0 then trimZeros fuel (digits / 10) (exponent + 1)
    else (digits, exponent)

/-- The fewest digits, with their exponent, that read back as the positive finite double of this
rank. -/
def shortest (rank : Nat) : Nat × Int :=
  let point := decimalPoint (units rank) unitsPerOne
  let found := (List.range 17).findSome? fun (k : Nat) =>
    let exponent := point - (k + 1)
    (onGrid? rank exponent).map fun n => (n, exponent)
  match found with
  | some (n, exponent) => trimZeros 20 n exponent
  | none => (0, 0)

end PackIndex.Binary64
