import PackIndex.Number.Word
import PackIndex.Value.Text

/-!
# Timestamps

Seconds since the start of 1970 as a date and time of day in UTC, with milliseconds. Seconds are
rounded to the nearest microsecond, a half going to the even one, and then cut to milliseconds.
-/

namespace PackIndex

inductive TimestampError where
  | notANumber
  | notNumeric (typeName : String)
  /-- More seconds than a signed 64-bit word counts. -/
  | tooManySeconds
  /-- More years since 1900 than a signed 32-bit word counts. -/
  | tooManyYears
  /-- A year without four digits, as far as a signed 32-bit word shows it. -/
  | yearOutOfRange (year : Int)
  deriving DecidableEq, Repr

def TimestampError.message : TimestampError → String
  | notANumber => "Invalid value NaN (not a number)"
  | notNumeric typeName => Text.quoted typeName ++ " object cannot be interpreted as an integer"
  | tooManySeconds => "timestamp out of range for platform time_t"
  | tooManyYears => "[Errno 75] Value too large for defined data type"
  | yearOutOfRange year => "year " ++ Number.intText year ++ " is out of range"

namespace Timestamp

def secondsPerDay : Int := 86400

/-- A day counted from the first of March of the year 0 as year, month and day. -/
def civilOfDays (days : Int) : Int × Nat × Nat :=
  let era := days / 146097
  let dayOfEra := days - era * 146097
  let yearOfEra := (dayOfEra - dayOfEra / 1460 + dayOfEra / 36524 - dayOfEra / 146096) / 365
  let dayOfYear := dayOfEra - (365 * yearOfEra + yearOfEra / 4 - yearOfEra / 100)
  let shifted := (5 * dayOfYear + 2) / 153
  let day := dayOfYear - (153 * shifted + 2) / 5 + 1
  let month := if shifted < 10 then shifted + 3 else shifted - 9
  let year := yearOfEra + era * 400 + if month ≤ 2 then 1 else 0
  (year, month.toNat, day.toNat)

/-- The days from the first of March of the year 0 to the start of 1970. -/
def epochDays : Int := 719468

/-- The fraction of a number of seconds in microseconds, between minus and plus a million. -/
def microsOfFraction (x : Binary64) (whole : Int) : Int :=
  let fraction := (x.add (.ofInt (-whole))).mul (.ofInt 1000000)
  match fraction.toUnits? with
  | some n =>
    let rounded := Number.roundHalfEven n.natAbs Binary64.unitsPerOne
    if n < 0 then -(rounded : Int) else rounded
  | none => 0

def micros (x : Binary64) : Except TimestampError Int :=
  match x.truncate? with
  | some whole => .ok (whole * 1000000 + microsOfFraction x whole)
  | none => .error (if x.isNaN then .notANumber else .tooManySeconds)

def pad (width : Nat) (n : Nat) : List Char := Number.padLeft width '0' (Number.digits n)

def textOfMicros (us : Int) : Except TimestampError String :=
  let seconds := us / 1000000
  let millis := (us % 1000000).toNat / 1000
  let (year, month, day) := civilOfDays (seconds / secondsPerDay + epochDays)
  let time := (seconds % secondsPerDay).toNat
  if !Number.isSignedWord 63 seconds then .error .tooManySeconds
  else if !Number.isSignedWord 31 (year - 1900) then .error .tooManyYears
  else if year < 1 ∨ 9999 < year then .error (.yearOutOfRange (year.bmod (Nat.pow 2 32)))
  else
    .ok (String.ofList
      (pad 4 year.toNat ++ '-' :: pad 2 month ++ '-' :: pad 2 day ++ 'T' :: pad 2 (time / 3600) ++
        ':' :: pad 2 (time / 60 % 60) ++ ':' :: pad 2 (time % 60) ++ '.' :: pad 3 millis ++
        "+00:00".toList))

def text (x : Binary64) : Except TimestampError String := (micros x).bind textOfMicros

def ofValue : Value → Except TimestampError String
  | .float x => text x
  | .int n => textOfMicros (n * 1000000)
  | .bool b => textOfMicros (if b then 1000000 else 0)
  | v => .error (.notNumeric v.typeName)

end Timestamp

end PackIndex
