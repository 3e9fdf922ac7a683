set_option autoImplicit false

/-!
# Decimal: binary floating point by its bits

A floating-point number is kept as the 64 bits of its binary64 form.  `decode`
reads them as sign, whole significand and power of two, and `ofBits32` widens the
binary32 form, which loses nothing.
-/

namespace LogSpool.Decimal

/-- A binary64 number, by its bits. -/
structure Binary where
  bits : UInt64
  deriving DecidableEq, Repr, Inhabited

/-- A positive finite number `m * 2 ^ q`.  `narrow` says that the next smaller
number of the format lies half as far away as the next larger one. -/
structure Magnitude where
  m : Nat
  q : Int
  narrow : Bool
  deriving DecidableEq, Repr, Inhabited

/-- The value of a binary64 number. -/
inductive Real where
  | nan
  | infinite (negative : Bool)
  | zero (negative : Bool)
  | finite (negative : Bool) (magnitude : Magnitude)
  deriving DecidableEq, Repr, Inhabited

namespace Binary

/-- The sign bit. -/
def negative (x : Binary) : Bool := x.bits.toNat / Nat.pow 2 63 == 1

/-- The biased exponent, eleven bits. -/
def exponentField (x : Binary) : Nat := x.bits.toNat / Nat.pow 2 52 % Nat.pow 2 11

/-- The fraction, fifty-two bits. -/
def fraction (x : Binary) : Nat := x.bits.toNat % Nat.pow 2 52

/-- The value that the bits stand for. -/
def decode (x : Binary) : Real :=
  if x.exponentField = 2047 then
    if x.fraction = 0 then .infinite x.negative else .nan
  else if x.exponentField = 0 then
    if x.fraction = 0 then .zero x.negative
    else .finite x.negative ⟨x.fraction, -1074, false⟩
  else .finite x.negative
    ⟨Nat.pow 2 52 + x.fraction, (x.exponentField : Int) - 1075, x.fraction == 0 && 1 < x.exponentField⟩

/-- The number is neither a NaN nor infinite. -/
def isFinite (x : Binary) : Bool := x.exponentField != 2047

/-- The number with the given sign, biased exponent and fraction. -/
def assemble (negative : Bool) (exponentField fraction : Nat) : Binary :=
  ⟨UInt64.ofNat ((if negative then Nat.pow 2 63 else 0) + exponentField * Nat.pow 2 52 + fraction)⟩

/-- The number whose binary32 form has the given bits. -/
def ofBits32 (bits : UInt32) : Binary :=
  let n := bits.toNat
  let sign := n / Nat.pow 2 31 == 1
  let exponentField := n / Nat.pow 2 23 % Nat.pow 2 8
  let fraction := n % Nat.pow 2 23
  if exponentField = 255 then assemble sign 2047 (fraction * Nat.pow 2 29)
  else if exponentField ≠ 0 then assemble sign (exponentField + 896) (fraction * Nat.pow 2 29)
  else if fraction = 0 then assemble sign 0 0
  else
    -- A subnormal significand is shifted until its leading bit is the hidden one.
    let top := fraction.log2
    assemble sign (top + 874) ((fraction - Nat.pow 2 top) * Nat.pow 2 (52 - top))

end Binary

end LogSpool.Decimal
