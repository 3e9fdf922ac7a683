import LogSpool.Decimal.Shortest
set_option autoImplicit false

/-!
# Decimal: the nearest binary number

`nearest` reads a decimal as the binary number closest to it, in exact arithmetic.
A tie goes to the even significand, and what is too large becomes infinite.
-/

namespace LogSpool.Decimal

namespace Ratio

/-- The nearest natural number; a tie goes to the even one. -/
def round (r : Ratio) : Nat :=
  let below := r.num / r.den
  let twiceRest := 2 * (r.num % r.den)
  if r.den < twiceRest || (r.den == twiceRest && below % 2 == 1) then below + 1 else below

/-- The fraction divided by `2 ^ q`. -/
def divTwoPow (r : Ratio) (q : Int) : Ratio :=
  if 0 ≤ q then ⟨r.num, r.den * Nat.pow 2 q.toNat⟩ else ⟨r.num * Nat.pow 2 (-q).toNat, r.den⟩

/-- The exponent of the first binary digit: the `e` with `2 ^ e ≤ r < 2 ^ (e + 1)`. -/
def firstBinaryExponent (r : Ratio) : Int :=
  if r.den ≤ r.num then (r.num / r.den).log2
  else -(((r.den + r.num - 1) / r.num - 1).log2 + 1 : Nat)

end Ratio

/-- A decimal as a fraction. -/
def Scaled.ratio (s : Scaled) : Ratio := Ratio.divTenPow ⟨s.digits, 1⟩ (-s.exponent)

/-- The exponent of the last binary place of a fraction: fifty-three places, but none
below that of the smallest number. -/
def lastBinaryExponent (r : Ratio) : Int := max (r.firstBinaryExponent - 52) (-1074)

/-- The binary number nearest to a decimal. -/
def nearest (negative : Bool) (s : Scaled) : Binary :=
  if s.digits = 0 then .assemble negative 0 0
  else
    let q := lastBinaryExponent s.ratio
    let m := (s.ratio.divTwoPow q).round
    -- The hidden bit of the significand, and a carry out of it, count in the exponent.
    let word := min ((q + 1074).toNat * Nat.pow 2 52 + m) (2047 * Nat.pow 2 52)
    .assemble negative (word / Nat.pow 2 52) (word % Nat.pow 2 52)

end LogSpool.Decimal
