import QmlPreview.Text
import QmlPreview.Time

/-!
Dates and times of day of points in time, in universal time.
-/

namespace QmlPreview

structure CivilTime where
  year : Int
  month : Nat
  day : Nat
  hour : Nat
  minute : Nat
  second : Nat
  deriving DecidableEq, Repr

namespace CivilTime

/-- The year, month and day of a number of days since the start of 1970. Years are counted from
March, so that the leap day is the last of its year, and in eras of four hundred years. -/
def dateOfDays (days : Int) : Int × Nat × Nat :=
  let shifted := days + 719468
  let era := shifted / 146097
  let dayOfEra := (shifted % 146097).toNat
  let yearOfEra := (dayOfEra - dayOfEra / 1460 + dayOfEra / 36524 - dayOfEra / 146096) / 365
  let dayOfYear := dayOfEra - (365 * yearOfEra + yearOfEra / 4 - yearOfEra / 100)
  let monthFromMarch := (5 * dayOfYear + 2) / 153
  let day := dayOfYear - (153 * monthFromMarch + 2) / 5 + 1
  let month := if monthFromMarch < 10 then monthFromMarch + 3 else monthFromMarch - 9
  let year : Int := era * 400 + yearOfEra
  (if month ≤ 2 then year + 1 else year, month, day)

def ofTime (t : Time) : CivilTime :=
  let seconds := t.nanoseconds / 1000000000
  let (year, month, day) := dateOfDays (seconds / 86400)
  let rest := (seconds % 86400).toNat
  ⟨year, month, day, rest / 3600, rest / 60 % 60, rest % 60⟩

/-- A number with at least the given count of digits. -/
def padded (count n : Nat) : Text :=
  let digits := Text.ofNat n
  List.replicate (count - digits.length) '0' ++ digits

/-- The form `2024-02-29_23-59-59`. -/
def stamp (c : CivilTime) : Text :=
  padded 4 c.year.toNat ++ '-' :: padded 2 c.month ++ '-' :: padded 2 c.day ++
    '_' :: padded 2 c.hour ++ '-' :: padded 2 c.minute ++ '-' :: padded 2 c.second

end CivilTime

end QmlPreview
