set_option autoImplicit false

/-!
# Time: the calendar

Dates of the proleptic Gregorian calendar and the count of days since 1970-01-01.
A year counts from March here, so that the leap day is its last day, and four
hundred such years make one era of 146097 days.
-/

namespace LogSpool.Time

/-- A date; months and days count from one. -/
structure Date where
  year : Int
  month : Nat
  day : Nat
  deriving DecidableEq, Repr, Inhabited

/-- The days of an era. -/
def daysPerEra : Nat := 146097

/-- The days from 0000-03-01 to 1970-01-01. -/
def epochOffset : Int := 719468

/-- The year of its era that a day of the era falls into. -/
def yearOfEra (day : Nat) : Nat :=
  (day - day / 1460 + day / 36524 - day / 146096) / 365

/-- The days before a year of an era. -/
def daysBeforeYear (year : Nat) : Nat :=
  365 * year + year / 4 - year / 100

/-- The days before a month, with March as month zero. -/
def daysBeforeMonth (month : Nat) : Nat :=
  (153 * month + 2) / 5

/-- The month that a day of a year falls into, with March as month zero. -/
def monthOfYear (day : Nat) : Nat :=
  (5 * day + 2) / 153

namespace Date

/-- The date a number of days after 1970-01-01. -/
def ofDay (n : Int) : Date :=
  let shifted := n + epochOffset
  let era := shifted.fdiv daysPerEra
  let dayOfEra := (shifted.fmod daysPerEra).toNat
  let year := yearOfEra dayOfEra
  let dayOfYear := dayOfEra - daysBeforeYear year
  let month := monthOfYear dayOfYear
  let inNextYear := 10 ≤ month
  { year := era * 400 + year + (if inNextYear then 1 else 0)
    month := if inNextYear then month - 9 else month + 3
    day := dayOfYear - daysBeforeMonth month + 1 }

/-- The number of days from 1970-01-01 to a date. -/
def toDay (date : Date) : Int :=
  let inNextYear := date.month ≤ 2
  let marchYear := date.year - (if inNextYear then 1 else 0)
  let era := marchYear.fdiv 400
  let year := (marchYear.fmod 400).toNat
  let month := if inNextYear then date.month + 9 else date.month - 3
  era * daysPerEra + daysBeforeYear year + daysBeforeMonth month + date.day - 1 - epochOffset

end Date

end LogSpool.Time
