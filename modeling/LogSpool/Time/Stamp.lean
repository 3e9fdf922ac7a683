import LogSpool.Time.Calendar
set_option autoImplicit false

/-!
# Time: time stamps

A `Stamp` is an instant in universal time with nanoseconds.  A leap second keeps
the number of the second before it and has nanoseconds beyond the first thousand
million.  `Stamp.text` writes it in the form of RFC 3339.
-/

namespace LogSpool.Time

/-- Nanoseconds in a second. -/
def nanosPerSecond : Nat := 1000000000

/-- Seconds in a day. -/
def secondsPerDay : Nat := 86400

/-- The first year with a date. -/
def firstYear : Int := -262143

/-- The last year with a date. -/
def lastYear : Int := 262142

/-- An instant: seconds since 1970-01-01T00:00:00Z, leap seconds not counted, and
nanoseconds. -/
structure Stamp where
  seconds : Int
  nanos : Nat
  deriving DecidableEq, Repr, Inhabited

/-- The seconds since midnight. -/
def Stamp.secondOfDay (s : Stamp) : Nat := (s.seconds.fmod secondsPerDay).toNat

/-- The date of an instant. -/
def Stamp.date (s : Stamp) : Date := Date.ofDay (s.seconds.fdiv secondsPerDay)

/-- The instant falls into a leap second. -/
def Stamp.isLeap (s : Stamp) : Bool := nanosPerSecond ≤ s.nanos

/-- The instant is one that a record can carry: its year has dates, and no second is longer
than two. -/
def Stamp.isValid (s : Stamp) : Bool :=
  firstYear ≤ s.date.year && s.date.year ≤ lastYear && s.nanos < 2 * nanosPerSecond

/-- A leap second, if the instant falls into one, ends a minute. -/
def Stamp.isRegular (s : Stamp) : Bool := !s.isLeap || s.secondOfDay % 60 == 59

/-- The instant of the given seconds and nanoseconds, if there is one.  A leap second within
a minute is not made in this way. -/
def Stamp.of? (seconds : Int) (nanos : Nat) : Option Stamp :=
  let s : Stamp := ⟨seconds, nanos⟩
  if s.isValid && s.isRegular then some s else none

/-- The last `width` decimal digits of a number, with leading zeros. -/
def fixedDigits (width n : Nat) : List Char :=
  match width with
  | 0 => []
  | width + 1 => fixedDigits width (n / 10) ++ [Nat.digitChar (n % 10)]

/-- A number with at least `width` digits. -/
def paddedDigits (width n : Nat) : List Char :=
  let digits := Nat.toDigits 10 n
  List.replicate (width - digits.length) '0' ++ digits

/-- A year: four digits, or a sign and at least four digits outside 0 to 9999. -/
def yearText (year : Int) : List Char :=
  if 0 ≤ year ∧ year ≤ 9999 then fixedDigits 4 year.toNat
  else (if year < 0 then '-' else '+') :: paddedDigits 4 year.natAbs

/-- A fraction of a second: nothing, three, six or nine digits, the fewest that
are exact. -/
def fractionText (nanos : Nat) : List Char :=
  if nanos = 0 then []
  else if nanos % 1000000 = 0 then '.' :: fixedDigits 3 (nanos / 1000000)
  else if nanos % 1000 = 0 then '.' :: fixedDigits 6 (nanos / 1000)
  else '.' :: fixedDigits 9 nanos

/-- The text of an instant: date, `T`, time of day and `Z`. -/
def Stamp.text (s : Stamp) : List Char :=
  let date := s.date
  let t := s.secondOfDay
  let second := t % 60 + (if s.isLeap then 1 else 0)
  yearText date.year ++ '-' :: fixedDigits 2 date.month ++ '-' :: fixedDigits 2 date.day ++
    'T' :: fixedDigits 2 (t / 3600) ++ ':' :: fixedDigits 2 (t / 60 % 60) ++
    ':' :: fixedDigits 2 second ++ fractionText (s.nanos % nanosPerSecond) ++ ['Z']

end LogSpool.Time
