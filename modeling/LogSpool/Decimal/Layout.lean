import LogSpool.Decimal.Shortest
set_option autoImplicit false

/-!
# Decimal: how a number is laid out

A `Layout` holds the decisions of one number format: which exponents are written
positionally, how an exponent is written otherwise, which way a tie goes, and the
words for what is not a number.
-/

namespace LogSpool.Decimal

/-- The decisions of a number format. -/
structure Layout where
  /-- The least exponent of a first digit written positionally. -/
  least : Int
  /-- The greatest exponent of a first digit written positionally. -/
  greatest : Int
  /-- A positive exponent is written with its sign. -/
  plusSign : Bool
  /-- The choice between two equally near decimals. -/
  tie : Tie
  /-- The text of a NaN. -/
  nan : String
  /-- The text of a positive infinity. -/
  infinity : String
  /-- The text of a negative infinity. -/
  negativeInfinity : String
  deriving DecidableEq, Repr, Inhabited

/-- The decimal digits of a natural number. -/
def digitsOf (n : Nat) : List Char := Nat.toDigits 10 n

/-- The decimal text of an integer, with a sign if it is negative. -/
def ofInt (i : Int) : List Char :=
  if i < 0 then '-' :: digitsOf i.natAbs else digitsOf i.natAbs

/-- The exponent of the first digit of a decimal. -/
def Scaled.firstExponent (s : Scaled) : Int := s.exponent + (digitCount s.digits : Int) - 1

/-- Digits with a point, and a zero on either side of it where no digit stands. -/
def positional (s : Scaled) : List Char :=
  let digits := digitsOf s.digits
  if 0 ≤ s.exponent then
    digits ++ List.replicate s.exponent.toNat '0' ++ ['.', '0']
  else
    let places := (-s.exponent).toNat
    if places < digits.length then
      digits.take (digits.length - places) ++ '.' :: digits.drop (digits.length - places)
    else ['0', '.'] ++ List.replicate (places - digits.length) '0' ++ digits

/-- One digit, the other digits after a point, and the exponent. -/
def scientific (plusSign : Bool) (s : Scaled) : List Char :=
  let e := s.firstExponent
  let mantissa := match digitsOf s.digits with
    | [] => []
    | [d] => [d]
    | d :: rest => d :: '.' :: rest
  let sign := if plusSign && 0 ≤ e then ['+'] else []
  mantissa ++ 'e' :: sign ++ ofInt e

namespace Layout

/-- The text of a positive decimal. -/
def writeScaled (layout : Layout) (s : Scaled) : List Char :=
  if layout.least ≤ s.firstExponent && s.firstExponent ≤ layout.greatest then positional s
  else scientific layout.plusSign s

/-- The text of a binary number. -/
def write (layout : Layout) (x : Binary) : List Char :=
  match x.decode with
  | .nan => layout.nan.toList
  | .infinite false => layout.infinity.toList
  | .infinite true => layout.negativeInfinity.toList
  | .zero negative => (if negative then ['-'] else []) ++ ['0', '.', '0']
  | .finite negative x =>
    (if negative then ['-'] else []) ++ layout.writeScaled (shortest layout.tie x)

end Layout

end LogSpool.Decimal
