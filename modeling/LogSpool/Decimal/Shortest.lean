import LogSpool.Decimal.Binary
set_option autoImplicit false

/-!
# Decimal: the fewest digits that read back

Every real number closer to a binary number than to its neighbours reads back as
that number.  `shortest` finds, among the decimals with the fewest digits that do,
the one nearest to the number.  It searches the grids of 1, 2, ... 17 digits, on
each of which only the two neighbours of the number can be the answer, and
compares in exact arithmetic.
-/

namespace LogSpool.Decimal

/-- A decimal `digits * 10 ^ exponent`. -/
structure Scaled where
  digits : Nat
  exponent : Int
  deriving DecidableEq, Repr, Inhabited

/-- A positive fraction of natural numbers. -/
structure Ratio where
  num : Nat
  den : Nat
  deriving DecidableEq, Repr, Inhabited

/-- What to do when the two neighbours on a grid are equally near. -/
inductive Tie where
  | even
  | up
  deriving DecidableEq, Repr, Inhabited

/-- The number of decimal digits of a natural number. -/
def digitCount (n : Nat) : Nat := (Nat.toDigits 10 n).length

namespace Ratio

/-- The fraction `n * 2 ^ q`. -/
def ofScaledTwo (n : Nat) (q : Int) : Ratio :=
  if 0 ≤ q then ⟨n * Nat.pow 2 q.toNat, 1⟩ else ⟨n, Nat.pow 2 (-q).toNat⟩

/-- The fraction divided by `10 ^ k`. -/
def divTenPow (r : Ratio) (k : Int) : Ratio :=
  if 0 ≤ k then ⟨r.num, r.den * Nat.pow 10 k.toNat⟩ else ⟨r.num * Nat.pow 10 (-k).toNat, r.den⟩

/-- The exponent of the first decimal digit: the `e` with `10 ^ e ≤ r < 10 ^ (e + 1)`. -/
def firstExponent (r : Ratio) : Int :=
  if r.den ≤ r.num then (digitCount (r.num / r.den) : Int) - 1
  else -(digitCount ((r.den + r.num - 1) / r.num - 1) : Int)

end Ratio

namespace Magnitude

/-- The number in quarters of its last binary place. -/
def quarters (x : Magnitude) : Nat := 4 * x.m

/-- Where the decimals that read back begin, in the same unit. -/
def lowQuarters (x : Magnitude) : Nat := 4 * x.m - (if x.narrow then 1 else 2)

/-- Where they end. -/
def highQuarters (x : Magnitude) : Nat := 4 * x.m + 2

/-- The ends themselves read back when the significand is even. -/
def closed (x : Magnitude) : Bool := x.m % 2 == 0

/-- The decimal `d * 10 ^ k` reads back as the number. -/
def readsBack (x : Magnitude) (k : Int) (d : Nat) : Bool :=
  let low := (Ratio.ofScaledTwo x.lowQuarters (x.q - 2)).divTenPow k
  let high := (Ratio.ofScaledTwo x.highQuarters (x.q - 2)).divTenPow k
  if x.closed then low.num ≤ d * low.den && d * high.den ≤ high.num
  else low.num < d * low.den && d * high.den < high.num

/-- The number as a fraction. -/
def ratio (x : Magnitude) : Ratio := Ratio.ofScaledTwo x.quarters (x.q - 2)

/-- The best decimal of the grid `10 ^ k` that reads back: of the two neighbours
of the number the nearer one, if it reads back, or else the other. -/
def onGrid? (x : Magnitude) (tie : Tie) (k : Int) : Option Scaled :=
  let r := x.ratio.divTenPow k
  let below := r.num / r.den
  let twiceRest := 2 * (r.num % r.den)
  let preferAbove :=
    r.den < twiceRest || (r.den == twiceRest && (tie == .up || below % 2 == 1))
  let (first, second) := if preferAbove then (below + 1, below) else (below, below + 1)
  if 0 < first && x.readsBack k first then some ⟨first, k⟩
  else if 0 < second && x.readsBack k second then some ⟨second, k⟩
  else none

end Magnitude

/-- Move factors of ten from the digits into the exponent. -/
def Scaled.normal : Nat → Scaled → Scaled
  | 0, s => s
  | fuel + 1, s =>
    if s.digits % 10 = 0 && s.digits != 0 then
      Scaled.normal fuel ⟨s.digits / 10, s.exponent + 1⟩
    else s

/-- The first hit on the grids of `n`, `n + 1`, ... digits. -/
def searchGrids (x : Magnitude) (tie : Tie) (first : Int) : Nat → Nat → Option Scaled
  | 0, _ => none
  | fuel + 1, n =>
    match x.onGrid? tie (first - (n : Int) + 1) with
    | some s => some s
    | none => searchGrids x tie first fuel (n + 1)

/-- The nearest of the decimals with the fewest digits that read back as `x`,
without trailing zeros.  Seventeen digits always suffice. -/
def shortest (tie : Tie) (x : Magnitude) : Scaled :=
  match searchGrids x tie x.ratio.firstExponent 17 1 with
  | some s => s.normal (digitCount s.digits)
  | none => ⟨0, 0⟩

end LogSpool.Decimal
