/-!
# Double-precision numbers as exact data

The non-negative doubles stand in one increasing row: zero, the least subnormal, …, infinity.
A number is a sign with a place in that row, its rank. Every finite value is a whole multiple of
`2⁻¹⁰⁷⁴`, so `units` gives the exact value of a rank as a natural number, comparison is a
comparison of ranks, and rounding is a search for the nearest rank with ties to the even one.
-/

namespace PackIndex

/-- The rank of infinity in the row of non-negative doubles. -/
def infinityRank : Nat := 2047 * Nat.pow 2 52

/-- A double: not a number, or a sign and the rank of its magnitude. -/
inductive Binary64 where
  | nan
  | signed (negative : Bool) (rank : Nat) (rank_le : rank ≤ infinityRank)
  deriving DecidableEq

namespace Binary64

/-- The value of a rank, in multiples of `2⁻¹⁰⁷⁴`. -/
def units (rank : Nat) : Nat :=
  let binade := Nat.pow 2 52
  if rank < 2 * binade then rank
  else (binade + rank % binade) * Nat.pow 2 (rank / binade - 1)

def unitsPerOne : Nat := Nat.pow 2 1074

/-- The number of that sign and rank; ranks beyond the row are infinite. -/
def ofRank (negative : Bool) (rank : Nat) : Binary64 :=
  .signed negative (min rank infinityRank) (Nat.min_le_right _ _)

def zero : Binary64 := ofRank false 0
def infinity (negative : Bool) : Binary64 := ofRank negative infinityRank

instance : Inhabited Binary64 := ⟨zero⟩

/-- The last rank whose value is at most `n` units. -/
def rankBelow (n : Nat) : Nat :=
  if n < Nat.pow 2 53 then n else (n.log2 - 52) * Nat.pow 2 52 + n / Nat.pow 2 (n.log2 - 52)

/-- The rank nearest to `num / den` units, ties going to the even rank. -/
def nearestRank (num den : Nat) : Nat :=
  let low := rankBelow (num / den)
  let twice := 2 * num
  let middle := (units low + units (low + 1)) * den
  if twice < middle then low
  else if middle < twice then low + 1
  else if low % 2 = 0 then low else low + 1

/-- The double nearest to `num / den` units. -/
def ofUnits (negative : Bool) (num den : Nat) : Binary64 :=
  ofRank negative (nearestRank num den)

def ofRatio (negative : Bool) (num den : Nat) : Binary64 :=
  ofUnits negative (num * unitsPerOne) den

/-- The double nearest to `digits · 10^exponent`. Exponents so large or small that the answer is
infinity or zero are not multiplied out. -/
def ofDecimal (negative : Bool) (digits : Nat) (exponent : Int) : Binary64 :=
  let places : Int := digits.log2 / 4
  if digits = 0 then ofRank negative 0
  else if exponent + places > 400 then infinity negative
  else if exponent + 2 * places + 2 < -400 then ofRank negative 0
  else if exponent < 0 then ofRatio negative digits (Nat.pow 10 exponent.natAbs)
  else ofRatio negative (digits * Nat.pow 10 exponent.natAbs) 1

def ofInt? (n : Int) : Option Binary64 :=
  let rank := nearestRank (n.natAbs * unitsPerOne) 1
  if rank < infinityRank then some (ofRank (n < 0) rank) else none

def ofInt (n : Int) : Binary64 := ofRatio (n < 0) n.natAbs 1

/-! ## Order -/

/-- The place of a number in the order of all doubles; both zeros stand at `0`. -/
def place? : Binary64 → Option Int
  | nan => none
  | signed negative rank _ => some (if negative then -(rank : Int) else rank)

/-- Equality of values: zero has one value, and not-a-number equals nothing. -/
def same (x y : Binary64) : Bool :=
  match x.place?, y.place? with
  | some i, some j => i == j
  | _, _ => false

def lt (x y : Binary64) : Bool :=
  match x.place?, y.place? with
  | some i, some j => decide (i < j)
  | _, _ => false

def isNaN (x : Binary64) : Bool := x.place?.isNone

def isPositive (x : Binary64) : Bool := zero.lt x

def isNegative : Binary64 → Bool
  | nan => false
  | signed negative _ _ => negative

def isFinite : Binary64 → Bool
  | nan => false
  | signed _ rank _ => rank < infinityRank

theorem same_comm (x y : Binary64) : x.same y = y.same x := by
  unfold same
  cases x.place? <;> cases y.place? <;> simp [Bool.beq_comm]

theorem same_self_iff (x : Binary64) : x.same x = true ↔ x.isNaN = false := by
  cases h : x.place? <;> simp [same, isNaN, h]

theorem lt_irrefl (x : Binary64) : x.lt x = false := by
  cases h : x.place? <;> simp [lt, h]

/-! ## Exact values and arithmetic -/

def toUnits? : Binary64 → Option Int
  | nan => none
  | signed negative rank _ =>
    if rank < infinityRank then some (if negative then -(units rank : Int) else units rank)
    else none

/-- The whole part, rounded toward zero, for finite numbers. -/
def truncate? (x : Binary64) : Option Int :=
  x.toUnits?.map (Int.tdiv · unitsPerOne)

def toInt? (x : Binary64) : Option Int :=
  x.toUnits?.bind fun n => if n % unitsPerOne = 0 then some (n / unitsPerOne) else none

/-- The exact sum, rounded; a zero sum is positive unless both numbers are negative. -/
def add (x y : Binary64) : Binary64 :=
  match x, y with
  | nan, _ | _, nan => nan
  | signed s a _, signed t b _ =>
    match x.toUnits?, y.toUnits? with
    | some m, some n =>
      let negative := m + n < 0 ∨ (m + n = 0 ∧ s ∧ t)
      ofUnits negative (m + n).natAbs 1
    | none, some _ => ofRank s a
    | some _, none => ofRank t b
    | none, none => if s = t then infinity s else nan

/-- The exact product of finite numbers, rounded; not-a-number otherwise. -/
def mul (x y : Binary64) : Binary64 :=
  match x.toUnits?, y.toUnits? with
  | some m, some n =>
    ofUnits (x.isNegative != y.isNegative) (m.natAbs * n.natAbs) unitsPerOne
  | _, _ => nan

end Binary64

end PackIndex
