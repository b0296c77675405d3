import PackIndex.Number.Shortest

/-!
# Number texts

How numbers are written: the layout of the shortest digits, and a fixed count of places.
-/

namespace PackIndex

/-- How a double is laid out as text. With `d` digits before the point, a number is written
positionally when `minPoint ≤ d ≤ maxPoint` and with an exponent otherwise. -/
structure NumberStyle where
  minPoint : Int
  maxPoint : Int
  exponentPlus : Bool
  exponentDigits : Nat
  nan : String
  infinity : String
  negativeInfinity : String

def NumberStyle.plain : NumberStyle :=
  ⟨-3, 16, true, 2, "nan", "inf", "-inf"⟩

/-- The layout of JSON documents, where what is no finite number is `null`. -/
def NumberStyle.json : NumberStyle :=
  ⟨-4, 16, true, 1, "null", "null", "null"⟩

namespace Number

def digits (n : Nat) : List Char := Nat.toDigits 10 n

def natText (n : Nat) : String := String.ofList (digits n)

def intText (n : Int) : String :=
  if n < 0 then "-" ++ natText n.natAbs else natText n.natAbs

def padLeft (width : Nat) (fill : Char) (cs : List Char) : List Char :=
  List.replicate (width - cs.length) fill ++ cs

def positional (ds : List Char) (point : Int) : List Char :=
  if point ≤ 0 then '0' :: '.' :: (List.replicate point.natAbs '0' ++ ds)
  else
    let p := point.natAbs
    if ds.length ≤ p then ds ++ List.replicate (p - ds.length) '0' ++ ['.', '0']
    else ds.take p ++ '.' :: ds.drop p

def scientific (style : NumberStyle) (ds : List Char) (exponent : Int) : List Char :=
  let sign := if exponent < 0 then ['-'] else if style.exponentPlus then ['+'] else []
  let power := padLeft style.exponentDigits '0' (digits exponent.natAbs)
  let mantissa := if ds.length ≤ 1 then ds else ds.take 1 ++ '.' :: ds.drop 1
  mantissa ++ 'e' :: (sign ++ power)

def magnitudeText (style : NumberStyle) (rank : Nat) : List Char :=
  if rank = 0 then ['0', '.', '0']
  else
    let (n, exponent) := Binary64.shortest rank
    let ds := digits n
    let point := exponent + ds.length
    if style.minPoint ≤ point ∧ point ≤ style.maxPoint then positional ds point
    else scientific style ds (point - 1)

end Number

def Binary64.text (style : NumberStyle) : Binary64 → String
  | .nan => style.nan
  | .signed negative rank _ =>
    if rank = infinityRank then if negative then style.negativeInfinity else style.infinity
    else
      let body := Number.magnitudeText style rank
      String.ofList (if negative then '-' :: body else body)

namespace Number

/-- The whole number nearest to `num / den`, a half going to the even neighbour. -/
def roundHalfEven (num den : Nat) : Nat :=
  let q := num / den
  let rest := 2 * (num % den)
  if rest < den then q
  else if den < rest then q + 1
  else if q % 2 = 0 then q else q + 1

/-- `n / 10^places` with exactly that many places. -/
def placesText (places n : Nat) : List Char :=
  let ds := padLeft (places + 1) '0' (digits n)
  if places = 0 then ds else ds.take (ds.length - places) ++ '.' :: ds.drop (ds.length - places)

def fixedMagnitude (places rank : Nat) : List Char :=
  placesText places (roundHalfEven (Binary64.units rank * Nat.pow 10 places) Binary64.unitsPerOne)

end Number

def Binary64.fixedText (places : Nat) : Binary64 → String
  | .nan => "nan"
  | .signed negative rank _ =>
    let body := if rank = infinityRank then "inf".toList else Number.fixedMagnitude places rank
    String.ofList (if negative then '-' :: body else body)

end PackIndex
