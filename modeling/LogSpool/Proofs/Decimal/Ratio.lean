import Mathlib.Algebra.Order.Field.Power
import Mathlib.Algebra.Order.Field.Rat
import Mathlib.Tactic.FieldSimp
import Mathlib.Tactic.Linarith
import Mathlib.Tactic.Positivity
import LogSpool.Decimal.Nearest
import LogSpool.Proofs.Decimal.Digits
set_option autoImplicit false

/-!
# Decimal: fractions as rational numbers

What the exact arithmetic of `Ratio` computes, as rational numbers: scaling by powers of two
and of ten, the exponent of the first digit in either base, and rounding to a natural number.
-/

namespace LogSpool.Decimal

/-- The number that a fraction is. -/
def Ratio.value (r : Ratio) : ℚ := r.num / r.den

/-- The number that a decimal is. -/
def Scaled.value (s : Scaled) : ℚ := s.digits * 10 ^ s.exponent

theorem zpow_eq_of_nonneg (b : Nat) {k : Int} (h : 0 ≤ k) : (b : ℚ) ^ k = (Nat.pow b k.toNat : Nat) := by
  obtain ⟨n, rfl⟩ := Int.eq_ofNat_of_zero_le h
  rw [Int.toNat_natCast, zpow_natCast]
  exact (Nat.cast_pow b n).symm

theorem zpow_eq_of_neg (b : Nat) {k : Int} (h : ¬ 0 ≤ k) :
    (b : ℚ) ^ k = ((Nat.pow b (-k).toNat : Nat) : ℚ)⁻¹ := by
  rw [← zpow_eq_of_nonneg b (show 0 ≤ -k by omega), zpow_neg, inv_inv]

namespace Ratio

/-! ## Scaling -/

theorem value_ofScaledTwo (n : Nat) (q : Int) : (ofScaledTwo n q).value = n * 2 ^ q := by
  unfold ofScaledTwo value
  split
  · next h =>
    rw [show (2 : ℚ) = (2 : Nat) from rfl, zpow_eq_of_nonneg 2 h]
    push_cast
    rw [div_one]
  · next h =>
    rw [show (2 : ℚ) = (2 : Nat) from rfl, zpow_eq_of_neg 2 h, div_eq_mul_inv]

theorem den_ofScaledTwo_pos (n : Nat) (q : Int) : 0 < (ofScaledTwo n q).den := by
  unfold ofScaledTwo
  split
  · exact Nat.one_pos
  · exact Nat.pow_pos (by decide)

variable {r : Ratio}

/-- A fraction with its denominator multiplied, or else its numerator. -/
theorem value_scaled (r : Ratio) (b : Nat) (k : Int) :
    (if 0 ≤ k then (⟨r.num, r.den * Nat.pow b k.toNat⟩ : Ratio)
      else ⟨r.num * Nat.pow b (-k).toNat, r.den⟩).value = r.value / (b : ℚ) ^ k := by
  unfold value
  split
  · next h =>
    rw [zpow_eq_of_nonneg b h, Nat.cast_mul, div_div]
  · next h =>
    rw [zpow_eq_of_neg b h, Nat.cast_mul, div_inv_eq_mul, div_mul_eq_mul_div]

theorem value_divTenPow (r : Ratio) (k : Int) : (r.divTenPow k).value = r.value / 10 ^ k :=
  value_scaled r 10 k

theorem value_divTwoPow (r : Ratio) (q : Int) : (r.divTwoPow q).value = r.value / 2 ^ q :=
  value_scaled r 2 q

theorem den_divTenPow_pos (h : 0 < r.den) (k : Int) : 0 < (r.divTenPow k).den := by
  unfold divTenPow
  split
  · exact Nat.mul_pos h (Nat.pow_pos (by decide))
  · exact h

theorem den_divTwoPow_pos (h : 0 < r.den) (q : Int) : 0 < (r.divTwoPow q).den := by
  unfold divTwoPow
  split
  · exact Nat.mul_pos h (Nat.pow_pos (by decide))
  · exact h

/-! ## Comparing -/

theorem le_value_iff (h : 0 < r.den) (n : Nat) : (n : ℚ) ≤ r.value ↔ n * r.den ≤ r.num := by
  unfold value
  rw [le_div_iff₀ (by exact_mod_cast h)]
  exact_mod_cast Iff.rfl

theorem value_le_iff (h : 0 < r.den) (n : Nat) : r.value ≤ n ↔ r.num ≤ n * r.den := by
  unfold value
  rw [div_le_iff₀ (by exact_mod_cast h)]
  exact_mod_cast Iff.rfl

theorem lt_value_iff (h : 0 < r.den) (n : Nat) : (n : ℚ) < r.value ↔ n * r.den < r.num := by
  rw [← not_le, value_le_iff h, Nat.not_le]

theorem value_lt_iff (h : 0 < r.den) (n : Nat) : r.value < n ↔ r.num < n * r.den := by
  rw [← not_le, le_value_iff h, Nat.not_le]

theorem inv_le_value_iff (h : 0 < r.den) {n : Nat} (hn : 0 < n) :
    (n : ℚ)⁻¹ ≤ r.value ↔ r.den ≤ n * r.num := by
  unfold value
  rw [inv_le_iff_one_le_mul₀ (by exact_mod_cast hn), div_mul_eq_mul_div,
    one_le_div₀ (by exact_mod_cast h), mul_comm]
  exact_mod_cast Iff.rfl

theorem value_lt_inv_iff (h : 0 < r.den) {n : Nat} (hn : 0 < n) :
    r.value < (n : ℚ)⁻¹ ↔ n * r.num < r.den := by
  rw [← not_le, inv_le_value_iff h hn, Nat.not_le]

/-! ## The first digit -/

theorem div_bounds (h : 0 < r.den) (n : Nat) :
    (n ≤ r.num / r.den ↔ (n : ℚ) ≤ r.value) ∧ (r.num / r.den < n ↔ r.value < n) := by
  rw [le_value_iff h, value_lt_iff h]
  exact ⟨Nat.le_div_iff_mul_le h, Nat.div_lt_iff_lt_mul h⟩

/-- The inverse of a fraction, rounded up to a natural number and less one. -/
theorem ceil_bounds (hnum : 0 < r.num) (hden : 0 < r.den) {n : Nat} (hn : 0 < n) :
    (n ≤ (r.den + r.num - 1) / r.num - 1 ↔ r.value < (n : ℚ)⁻¹) ∧
      ((r.den + r.num - 1) / r.num - 1 < n ↔ (n : ℚ)⁻¹ ≤ r.value) := by
  have hceil : n ≤ (r.den + r.num - 1) / r.num - 1 ↔ n * r.num < r.den := by
    calc n ≤ (r.den + r.num - 1) / r.num - 1
        ↔ n + 1 ≤ (r.den + r.num - 1) / r.num := by omega
      _ ↔ (n + 1) * r.num ≤ r.den + r.num - 1 := Nat.le_div_iff_mul_le hnum
      _ ↔ n * r.num < r.den := by rw [Nat.succ_mul]; omega
  rw [value_lt_inv_iff hden hn, inv_le_value_iff hden hn]
  refine ⟨hceil, ?_⟩
  rw [← Nat.not_le, hceil, Nat.not_lt]

/-- A positive fraction lies between two powers of two. -/
theorem firstBinaryExponent_bounds (hnum : 0 < r.num) (hden : 0 < r.den) :
    2 ^ r.firstBinaryExponent ≤ r.value ∧ r.value < 2 ^ (r.firstBinaryExponent + 1) := by
  unfold firstBinaryExponent
  split
  · next h =>
    have hpos : r.num / r.den ≠ 0 := Nat.ne_of_gt (Nat.div_pos h hden)
    have hlow := ((div_bounds hden _).1).mp (Nat.log2_self_le hpos)
    have hhigh := ((div_bounds hden _).2).mp Nat.lt_log2_self
    push_cast at hlow hhigh
    exact ⟨by exact_mod_cast hlow, by exact_mod_cast hhigh⟩
  · next h =>
    have hceil := (ceil_bounds hnum hden Nat.one_pos).1.mpr (by
      rw [Nat.cast_one, inv_one]
      exact_mod_cast (value_lt_iff hden 1).mpr (by omega))
    have hlow := (ceil_bounds hnum hden (Nat.two_pow_pos _)).2.mp Nat.lt_log2_self
    have hhigh := (ceil_bounds hnum hden (Nat.two_pow_pos _)).1.mp (Nat.log2_self_le (Nat.ne_of_gt hceil))
    rw [Nat.cast_pow] at hlow hhigh
    constructor
    · rw [zpow_neg, zpow_natCast]
      exact hlow
    · rw [show ∀ n : Nat, (-((n + 1 : Nat) : Int) + 1) = -(n : Int) by intro n; omega, zpow_neg,
        zpow_natCast]
      exact hhigh

/-- A positive fraction is no less than the power of ten of its first digit. -/
theorem ten_zpow_firstExponent_le (hnum : 0 < r.num) (hden : 0 < r.den) :
    10 ^ r.firstExponent ≤ r.value := by
  unfold firstExponent
  split
  · next h =>
    have hlow := ((div_bounds hden _).1).mp (ten_pow_digitCount_le (Nat.div_pos h hden))
    have hcount : 0 < digitCount (r.num / r.den) := List.length_pos_iff.mpr (digitsOf_ne_nil _)
    rw [show ((digitCount (r.num / r.den) : Int) - 1) = (digitCount (r.num / r.den) - 1 : Nat) by omega,
      zpow_natCast]
    exact_mod_cast hlow
  · next h =>
    have hlow := (ceil_bounds hnum hden (Nat.pow_pos (by decide))).2.mp
      (lt_ten_pow_digitCount ((r.den + r.num - 1) / r.num - 1))
    rw [zpow_neg, zpow_natCast]
    exact_mod_cast hlow

/-! ## Rounding -/

/-- A fraction is no further than one half from a natural number. -/
def Within (r : Ratio) (n : Nat) : Prop :=
  2 * (n : ℚ) - 1 ≤ 2 * r.value ∧ 2 * r.value ≤ 2 * n + 1

/-- It is nearer than that, or the number is even. -/
def Near (r : Ratio) (n : Nat) : Prop :=
  r.Within n ∧ (n % 2 = 0 ∨ 2 * (n : ℚ) - 1 < 2 * r.value ∧ 2 * r.value < 2 * n + 1)

/-- Being within one half, in natural numbers. -/
theorem within_iff (hden : 0 < r.den) (n : Nat) : r.Within n ↔
    2 * (n * r.den) ≤ 2 * r.num + r.den ∧ 2 * r.num ≤ 2 * (n * r.den) + r.den := by
  have hpos : (0 : ℚ) < r.den := by exact_mod_cast hden
  have hvalue : r.value * r.den = r.num := div_mul_cancel₀ _ (ne_of_gt hpos)
  have hlow : 2 * (n : ℚ) - 1 ≤ 2 * r.value ↔ 2 * (n * r.den) ≤ 2 * (r.num : ℚ) + r.den := by
    rw [← mul_le_mul_iff_of_pos_right hpos, sub_mul, mul_assoc, mul_assoc, hvalue, one_mul,
      sub_le_iff_le_add]
  have hhigh : 2 * r.value ≤ 2 * (n : ℚ) + 1 ↔ 2 * (r.num : ℚ) ≤ 2 * (n * r.den) + r.den := by
    rw [← mul_le_mul_iff_of_pos_right hpos, add_mul, mul_assoc, mul_assoc, hvalue, one_mul]
  unfold Within
  rw [hlow, hhigh]
  exact_mod_cast Iff.rfl

theorem nearer_iff (hden : 0 < r.den) (n : Nat) :
    2 * (n : ℚ) - 1 < 2 * r.value ∧ 2 * r.value < 2 * n + 1 ↔
      2 * (n * r.den) < 2 * r.num + r.den ∧ 2 * r.num < 2 * (n * r.den) + r.den := by
  have hpos : (0 : ℚ) < r.den := by exact_mod_cast hden
  have hvalue : r.value * r.den = r.num := div_mul_cancel₀ _ (ne_of_gt hpos)
  have hlow : 2 * (n : ℚ) - 1 < 2 * r.value ↔ 2 * (n * r.den) < 2 * (r.num : ℚ) + r.den := by
    rw [← mul_lt_mul_iff_of_pos_right hpos, sub_mul, mul_assoc, mul_assoc, hvalue, one_mul,
      sub_lt_iff_lt_add]
  have hhigh : 2 * r.value < 2 * (n : ℚ) + 1 ↔ 2 * (r.num : ℚ) < 2 * (n * r.den) + r.den := by
    rw [← mul_lt_mul_iff_of_pos_right hpos, add_mul, mul_assoc, mul_assoc, hvalue, one_mul]
  rw [hlow, hhigh]
  exact_mod_cast Iff.rfl

/-- A fraction is rounded to the natural number that it is near. -/
theorem round_eq {n : Nat} (hden : 0 < r.den) (hnear : r.Near n) : r.round = n := by
  unfold Near at hnear
  rw [within_iff hden, nearer_iff hden] at hnear
  obtain ⟨hwithin, hnearer⟩ := hnear
  have hsplit : r.num = r.den * (r.num / r.den) + r.num % r.den := (Nat.div_add_mod _ _).symm
  have hrest : r.num % r.den < r.den := Nat.mod_lt _ hden
  unfold round
  generalize r.num / r.den = below at *
  generalize r.num % r.den = rest at *
  -- The whole part is the number itself or the one before.
  have hcases : below = n ∨ below + 1 = n := by
    have hlow : n < below + 2 := by
      apply Nat.lt_of_mul_lt_mul_right (a := r.den)
      rw [Nat.add_mul, Nat.mul_comm below]
      omega
    have hhigh : below < n + 1 := by
      apply Nat.lt_of_mul_lt_mul_right (a := r.den)
      rw [Nat.add_mul, Nat.mul_comm below]
      omega
    omega
  obtain rfl | rfl := hcases
  · rw [Nat.mul_comm below] at hwithin hnearer
    have hdown : (r.den < 2 * rest || (r.den == 2 * rest && below % 2 == 1)) = false := by
      rw [Bool.or_eq_false_iff, Bool.and_eq_false_iff, decide_eq_false_iff_not, beq_eq_false_iff_ne,
        beq_eq_false_iff_ne]
      omega
    rw [if_neg (by rw [hdown]; exact Bool.false_ne_true)]
  · rw [Nat.add_mul, Nat.mul_comm below] at hwithin hnearer
    have hup : (r.den < 2 * rest || (r.den == 2 * rest && below % 2 == 1)) = true := by
      rw [Bool.or_eq_true, Bool.and_eq_true, decide_eq_true_eq, beq_iff_eq, beq_iff_eq]
      omega
    rw [if_pos hup]

end Ratio

theorem Scaled.value_ratio (s : Scaled) : s.ratio.value = s.value := by
  unfold Scaled.ratio Scaled.value
  rw [Ratio.value_divTenPow, zpow_neg, div_inv_eq_mul]
  unfold Ratio.value
  rw [Nat.cast_one, div_one]

theorem Scaled.den_ratio_pos (s : Scaled) : 0 < s.ratio.den :=
  Ratio.den_divTenPow_pos Nat.one_pos _

end LogSpool.Decimal
