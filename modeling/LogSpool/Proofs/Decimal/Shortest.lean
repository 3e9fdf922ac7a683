import LogSpool.Proofs.Decimal.Nearest
set_option autoImplicit false

/-!
# Decimal: the shortest decimal reads back

What the search on the grids finds is rounded by the magnitude that it was made from, and
seventeen digits suffice to find something.  So the decimal of a number is read as that number.
-/

namespace LogSpool.Decimal

namespace Magnitude

variable {x : Magnitude} {tie : Tie} {k : Int} {d : Nat} {s : Scaled}

/-! ## What a grid gives -/

/-- The check on a grid is whether the magnitude rounds the decimal. -/
theorem readsBack_iff (x : Magnitude) (k : Int) (d : Nat) :
    x.readsBack k d = true ↔ x.Rounds (Scaled.value ⟨d, k⟩) := by
  have hpos : (0 : ℚ) < 10 ^ k := by positivity
  have hlow := Ratio.den_divTenPow_pos (Ratio.den_ofScaledTwo_pos x.lowQuarters (x.q - 2)) k
  have hhigh := Ratio.den_divTenPow_pos (Ratio.den_ofScaledTwo_pos x.highQuarters (x.q - 2)) k
  unfold readsBack Rounds Scaled.value
  cases x.closed with
  | true =>
    simp only [if_true, Bool.and_eq_true, decide_eq_true_eq]
    rw [← Ratio.value_le_iff hlow, ← Ratio.le_value_iff hhigh, Ratio.value_divTenPow,
      Ratio.value_divTenPow, Ratio.value_ofScaledTwo, Ratio.value_ofScaledTwo, div_le_iff₀ hpos,
      le_div_iff₀ hpos]
  | false =>
    simp only [Bool.false_eq_true, if_false, Bool.and_eq_true, decide_eq_true_eq]
    rw [← Ratio.value_lt_iff hlow, ← Ratio.lt_value_iff hhigh, Ratio.value_divTenPow,
      Ratio.value_divTenPow, Ratio.value_ofScaledTwo, Ratio.value_ofScaledTwo, div_lt_iff₀ hpos,
      lt_div_iff₀ hpos]

/-- What is tried on a grid: first a neighbour no further than half a place, then the other. -/
theorem onGrid?_eq (x : Magnitude) (tie : Tie) (k : Int) : ∃ first second : Nat,
    (x.ratio.divTenPow k).Within first ∧ x.onGrid? tie k =
      if 0 < first && x.readsBack k first then some ⟨first, k⟩
      else if 0 < second && x.readsBack k second then some ⟨second, k⟩ else none := by
  have hden : 0 < (x.ratio.divTenPow k).den :=
    Ratio.den_divTenPow_pos (Ratio.den_ofScaledTwo_pos _ _) k
  unfold onGrid?
  dsimp only
  generalize x.ratio.divTenPow k = r at *
  have hsplit : r.num = r.num / r.den * r.den + r.num % r.den := (Nat.div_add_mod' _ _).symm
  have hrest : r.num % r.den < r.den := Nat.mod_lt _ hden
  split
  · next habove =>
    refine ⟨r.num / r.den + 1, r.num / r.den, (Ratio.within_iff hden _).mpr ?_, rfl⟩
    rw [Bool.or_eq_true, Bool.and_eq_true, decide_eq_true_eq, beq_iff_eq] at habove
    rw [Nat.add_mul]
    omega
  · next hbelow =>
    refine ⟨r.num / r.den, r.num / r.den + 1, (Ratio.within_iff hden _).mpr ?_, rfl⟩
    rw [Bool.or_eq_true, not_or, decide_eq_true_eq] at hbelow
    omega

/-- A decimal found on a grid is positive, and the magnitude rounds it. -/
theorem rounds_of_onGrid? (h : x.onGrid? tie k = some s) : 0 < s.digits ∧ x.Rounds s.value := by
  have htaken : ∀ d : Nat, (decide (0 < d) && x.readsBack k d) = true → some ⟨d, k⟩ = some s →
      0 < s.digits ∧ x.Rounds s.value := by
    intro d hd heq
    cases heq
    rwa [Bool.and_eq_true, decide_eq_true_eq, readsBack_iff] at hd
  obtain ⟨first, second, -, hgrid⟩ := x.onGrid?_eq tie k
  rw [hgrid] at h
  split at h
  · next hfirst => exact htaken first hfirst h
  · split at h
    · next hsecond => exact htaken second hsecond h
    · cases h

theorem rounds_of_searchGrids {first : Int} {fuel n : Nat}
    (h : searchGrids x tie first fuel n = some s) : 0 < s.digits ∧ x.Rounds s.value := by
  induction fuel generalizing n with
  | zero => cases h
  | succ fuel ih =>
    unfold searchGrids at h
    split at h
    · next hgrid =>
      cases h
      exact rounds_of_onGrid? hgrid
    · exact ih h

/-! ## Seventeen digits suffice -/

theorem value_ratio (x : Magnitude) : x.ratio.value = 4 * x.m * 2 ^ (x.q - 2) := by
  unfold Magnitude.ratio quarters
  rw [Ratio.value_ofScaledTwo]
  push_cast
  rfl

theorem rounds_of_between {v : ℚ} (hlow : x.lowQuarters * 2 ^ (x.q - 2) < v)
    (hhigh : v < x.highQuarters * 2 ^ (x.q - 2)) : x.Rounds v := by
  unfold Rounds
  split
  · exact ⟨hlow.le, hhigh.le⟩
  · exact ⟨hlow, hhigh⟩

/-- A place of a grid of seventeen digits is smaller than the distance to either neighbour. -/
theorem place_lt (hx : x.WellFormed) (hgrid : 10 ^ (k + 16) ≤ x.ratio.value) :
    (10 : ℚ) ^ k < 2 * (4 * x.m - x.lowQuarters) * 2 ^ (x.q - 2) ∧
      (10 : ℚ) ^ k < 2 * (x.highQuarters - 4 * x.m) * 2 ^ (x.q - 2) := by
  have hunit : (0 : ℚ) < 2 ^ (x.q - 2) := by positivity
  have hm : (x.m : ℚ) ≤ 2 ^ 53 := by exact_mod_cast hx.lt.le
  have hscaled : (x.m : ℚ) * 2 ^ (x.q - 2) ≤ 2 ^ 53 * 2 ^ (x.q - 2) :=
    mul_le_mul_of_nonneg_right hm hunit.le
  rw [zpow_add₀ (by norm_num), value_ratio] at hgrid
  constructor
  · unfold lowQuarters
    split
    · next hnarrow =>
      have hleast : x.m = 2 ^ 52 := (hx.narrow.mp hnarrow).1
      rw [hleast] at hgrid ⊢
      norm_num at hgrid ⊢
      linarith
    · have hlow : ((4 * x.m - 2 : Nat) : ℚ) = 4 * x.m - 2 := by
        have hpos := hx.pos
        rw [Nat.cast_sub (by omega)]
        push_cast
        rfl
      rw [hlow]
      norm_num at hgrid hscaled ⊢
      linarith
  · rw [x.highQuarters_eq]
    norm_num at hgrid hscaled ⊢
    linarith

/-- On a grid of seventeen digits something is found. -/
theorem isSome_onGrid? (hx : x.WellFormed) (hgrid : 10 ^ (k + 16) ≤ x.ratio.value) :
    (x.onGrid? tie k).isSome = true := by
  obtain ⟨first, second, ⟨hbelow, habove⟩, heq⟩ := x.onGrid?_eq tie k
  obtain ⟨hlow, hhigh⟩ := place_lt hx hgrid
  have hplace : (0 : ℚ) < 10 ^ k := by positivity
  rw [Ratio.value_divTenPow] at hbelow habove
  have hpos : 0 < first := by
    have hmany : (10 : ℚ) ^ 16 ≤ x.ratio.value / 10 ^ k := by
      rw [zpow_add₀ (by norm_num)] at hgrid
      rw [le_div_iff₀ hplace, mul_comm]
      exact hgrid
    have hpos : (0 : ℚ) < first := by linarith
    exact_mod_cast hpos
  have hrounds : x.Rounds (Scaled.value ⟨first, k⟩) := by
    have hvalue : x.ratio.value / 10 ^ k * 10 ^ k = 4 * x.m * 2 ^ (x.q - 2) := by
      rw [div_mul_cancel₀ _ (ne_of_gt hplace), value_ratio]
    have hdown := mul_le_mul_of_nonneg_right hbelow hplace.le
    have hup := mul_le_mul_of_nonneg_right habove hplace.le
    rw [sub_mul, mul_assoc, mul_assoc, hvalue, one_mul] at hdown
    rw [add_mul, mul_assoc, mul_assoc, hvalue, one_mul] at hup
    unfold Scaled.value
    apply rounds_of_between <;> linarith
  rw [heq, if_pos]
  · rfl
  · rw [Bool.and_eq_true, decide_eq_true_eq, readsBack_iff]
    exact ⟨hpos, hrounds⟩

theorem isSome_searchGrids {first : Int} {fuel n : Nat} (i : Nat) (hi : i < fuel)
    (h : (x.onGrid? tie (first - ((n + i : Nat) : Int) + 1)).isSome = true) :
    (searchGrids x tie first fuel n).isSome = true := by
  induction fuel generalizing n i with
  | zero => exact absurd hi (Nat.not_lt_zero i)
  | succ fuel ih =>
    unfold searchGrids
    split
    · rfl
    · next hnone =>
      cases i with
      | zero =>
        rw [Nat.add_zero, hnone] at h
        cases h
      | succ i => exact ih i (Nat.lt_of_succ_lt_succ hi) (by rwa [Nat.add_assoc, Nat.add_comm 1])

end Magnitude

/-! ## The shortest decimal -/

theorem Scaled.value_shift {s : Scaled} (h : s.digits % 10 = 0) :
    Scaled.value ⟨s.digits / 10, s.exponent + 1⟩ = s.value := by
  have hsplit : s.digits = s.digits / 10 * 10 := by omega
  have hcast : (s.digits : ℚ) = (s.digits / 10 : Nat) * 10 := by exact_mod_cast hsplit
  unfold Scaled.value
  rw [hcast, zpow_add_one₀ (by norm_num), mul_assoc, mul_comm (10 : ℚ)]

/-- Moving zeros into the exponent makes no positive decimal zero and changes no value. -/
theorem Scaled.normal_spec (fuel : Nat) {s : Scaled} (h : 0 < s.digits) :
    0 < (s.normal fuel).digits ∧ (s.normal fuel).value = s.value := by
  induction fuel generalizing s with
  | zero => exact ⟨h, rfl⟩
  | succ fuel ih =>
    unfold Scaled.normal
    split
    · next hzero =>
      have hlast : s.digits % 10 = 0 := of_decide_eq_true (Bool.and_eq_true_iff.mp hzero).1
      obtain ⟨hpos, hvalue⟩ := ih (s := ⟨s.digits / 10, s.exponent + 1⟩) (by dsimp only; omega)
      exact ⟨hpos, hvalue.trans (Scaled.value_shift hlast)⟩
    · exact ⟨h, rfl⟩

/-- The shortest decimal of a magnitude is positive, and the magnitude rounds it. -/
theorem rounds_shortest (tie : Tie) {x : Magnitude} (hx : x.WellFormed) :
    0 < (shortest tie x).digits ∧ x.Rounds (shortest tie x).value := by
  have hden : 0 < x.ratio.den := Ratio.den_ofScaledTwo_pos _ _
  have hnum : 0 < x.ratio.num := by
    have hm : (0 : ℚ) < x.m := by exact_mod_cast hx.pos
    have hvalue : ((0 : Nat) : ℚ) < x.ratio.value := by
      rw [x.value_ratio, Nat.cast_zero]
      positivity
    have hpos := (Ratio.lt_value_iff hden 0).mp hvalue
    rwa [Nat.zero_mul] at hpos
  have hgrid : (x.onGrid? tie (x.ratio.firstExponent - ((1 + 16 : Nat) : Int) + 1)).isSome = true := by
    apply Magnitude.isSome_onGrid? hx
    rw [show x.ratio.firstExponent - ((1 + 16 : Nat) : Int) + 1 + 16 = x.ratio.firstExponent by omega]
    exact Ratio.ten_zpow_firstExponent_le hnum hden
  obtain ⟨s, hfound⟩ := Option.isSome_iff_exists.mp
    (Magnitude.isSome_searchGrids 16 (by decide : 16 < 17) hgrid)
  obtain ⟨hpos, hrounds⟩ := Magnitude.rounds_of_searchGrids hfound
  unfold shortest
  rw [hfound]
  obtain ⟨hnormal, hvalue⟩ := Scaled.normal_spec (digitCount s.digits) hpos
  refine ⟨hnormal, ?_⟩
  dsimp only
  rw [hvalue]
  exact hrounds

end LogSpool.Decimal
