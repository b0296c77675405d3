import PackIndex.Number.Text

/-!
# Significant digits

A double rounded to a count of significant digits, with an exponent or as short as the exponent
allows.
-/

namespace PackIndex.Number

/-- A positive finite double rounded to `count` digits, a half going to the even neighbour: the
digits, and the exponent of the first one. -/
def significant (count rank : Nat) : Nat × Int :=
  let num := Binary64.units rank
  let den := Binary64.unitsPerOne
  let point := Binary64.decimalPoint num den
  let shift := point - count
  let n :=
    if shift < 0 then roundHalfEven (num * Nat.pow 10 shift.natAbs) den
    else roundHalfEven num (den * Nat.pow 10 shift.natAbs)
  if n = Nat.pow 10 count then (n / 10, point) else (n, point - 1)

/-- The digits of a finite rank, exactly `count` of them, and the exponent of the first one. -/
def significantDigits (count rank : Nat) : List Char × Int :=
  if rank = 0 then (List.replicate count '0', 0)
  else
    let (n, exponent) := significant count rank
    (padLeft count '0' (digits n), exponent)

def exponentText (exponent : Int) : List Char :=
  'e' :: (if exponent < 0 then '-' else '+') :: padLeft 2 '0' (digits exponent.natAbs)

/-- Digits around a point, which is left out before no digits unless it is to be kept. -/
def withPoint (keep : Bool) (whole places : List Char) : List Char :=
  if places = [] ∧ keep = false then whole else whole ++ '.' :: places

/-- A finite rank with an exponent and `places` digits after the point; `keep` keeps the point
without any. -/
def exponentMagnitude (keep : Bool) (places rank : Nat) : List Char :=
  let (ds, exponent) := significantDigits (places + 1) rank
  withPoint keep (ds.take 1) (ds.drop 1) ++ exponentText exponent

def dropZeros (ds : List Char) : List Char := (ds.reverse.dropWhile (· == '0')).reverse

/-- A finite rank with at most `count` significant digits; the exponent is written if it is below
`-4` or leaves no room for a point. Final zeros are dropped, and so is a point behind which none are
left, unless they are to be kept. -/
def generalMagnitude (keep : Bool) (count rank : Nat) : List Char :=
  let count := max count 1
  let places (ds : List Char) : List Char := if keep then ds else dropZeros ds
  let (ds, exponent) := significantDigits count rank
  if -4 ≤ exponent ∧ exponent < count then
    if exponent < 0 then
      withPoint keep ['0'] (places (List.replicate (exponent.natAbs - 1) '0' ++ ds))
    else
      let whole := exponent.natAbs + 1
      withPoint keep (ds.take whole) (places (ds.drop whole))
  else withPoint keep (ds.take 1) (places (ds.drop 1)) ++ exponentText exponent

end PackIndex.Number
