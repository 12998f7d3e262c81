/-
Points in time as text, `2026-01-31 23:59:59`, from the seconds since
the start of 1970. Years are counted from March, so that a leap day is
the last day of its year.
-/

namespace SourceBundle.Text

/-- A date of the calendar. -/
structure Date where
  year : Nat
  month : Nat
  day : Nat
deriving DecidableEq, Repr

/-- The date of a day counted from the first of January 1970. -/
def dateOfDay (day : Nat) : Date :=
  let day := day + 719468
  let era := day / 146097
  let dayOfEra := day % 146097
  let yearOfEra := (dayOfEra - dayOfEra / 1460 + dayOfEra / 36524 - dayOfEra / 146096) / 365
  let dayOfYear := dayOfEra - (365 * yearOfEra + yearOfEra / 4 - yearOfEra / 100)
  let march := (5 * dayOfYear + 2) / 153
  let month := if march < 10 then march + 3 else march - 9
  { year := yearOfEra + era * 400 + (if month ≤ 2 then 1 else 0), month
    day := dayOfYear - (153 * march + 2) / 5 + 1 }

/-- A number with two digits at least. -/
def twoDigits (n : Nat) : String :=
  if n < 10 then s!"0{n}" else toString n

/-- A point in time. -/
def timestamp (seconds : Nat) : String :=
  let date := dateOfDay (seconds / 86400)
  let time := seconds % 86400
  s!"{date.year}-{twoDigits date.month}-{twoDigits date.day} "
    ++ s!"{twoDigits (time / 3600)}:{twoDigits (time / 60 % 60)}:{twoDigits (time % 60)}"

end SourceBundle.Text
