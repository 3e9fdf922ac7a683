import LogSpool.Proofs.Decimal.Ratio
set_option autoImplicit false

/-!
# Decimal: what reads back as a number

The numbers between the middles of a magnitude and its two neighbours are those that it
`Rounds`.  `nearest` reads every decimal among them as the number whose magnitude it is.
-/

namespace LogSpool.Decimal

theorem natPow_eq (b n : Nat) : Nat.pow b n = b ^ n := rfl

/-! ## Magnitudes -/

namespace Magnitude

/-- A magnitude of the format: fifty-three binary places, of which the first is not zero unless
the last is the smallest there is. -/
structure WellFormed (x : Magnitude) : Prop where
  pos : 0 < x.m
  lt : x.m < 2 ^ 53
  least : -1074 ≤ x.q
  greatest : x.q ≤ 971
  full : x.q = -1074 ∨ 2 ^ 52 ≤ x.m
  narrow : x.narrow = true ↔ x.m = 2 ^ 52 ∧ -1074 < x.q

/-- The numbers that are nearer to a magnitude than to another one, and those in the middle
when the significand is even. -/
def Rounds (x : Magnitude) (v : ℚ) : Prop :=
  if x.closed then x.lowQuarters * 2 ^ (x.q - 2) ≤ v ∧ v ≤ x.highQuarters * 2 ^ (x.q - 2)
  else x.lowQuarters * 2 ^ (x.q - 2) < v ∧ v < x.highQuarters * 2 ^ (x.q - 2)

/-- Exponent and fraction in one number.  The hidden bit counts in the exponent. -/
def word (x : Magnitude) : Nat := (x.q + 1074).toNat * 2 ^ 52 + x.m

variable {x : Magnitude} {v : ℚ}

theorem WellFormed.word_lt (h : x.WellFormed) : x.word < 2047 * 2 ^ 52 := by
  have hlt := h.lt
  have hleast := h.least
  have hgreatest := h.greatest
  unfold word
  omega

/-- The lower end in quarters is no lower than for a magnitude with even distances. -/
theorem le_lowQuarters (x : Magnitude) : (4 * x.m - 2 : ℚ) ≤ x.lowQuarters := by
  have hle : 4 * x.m ≤ x.lowQuarters + 2 := by
    unfold lowQuarters
    split <;> omega
  have hcast : (4 * x.m : ℚ) ≤ x.lowQuarters + 2 := by exact_mod_cast hle
  linarith

theorem highQuarters_eq (x : Magnitude) : (x.highQuarters : ℚ) = 4 * x.m + 2 := by
  unfold highQuarters
  push_cast
  rfl

/-- What a magnitude rounds, in quarters of its last place. -/
theorem Rounds.bounds (h : x.Rounds v) :
    (x.lowQuarters : ℚ) ≤ 4 * (v / 2 ^ x.q) ∧ 4 * (v / 2 ^ x.q) ≤ x.highQuarters ∧
      (x.m % 2 ≠ 0 → (x.lowQuarters : ℚ) < 4 * (v / 2 ^ x.q) ∧ 4 * (v / 2 ^ x.q) < x.highQuarters) := by
  have hpos : (0 : ℚ) < 2 ^ (x.q - 2) := by positivity
  have hquarter : 4 * (v / 2 ^ x.q) = v / 2 ^ (x.q - 2) := by
    rw [zpow_sub₀ (by norm_num)]
    field_simp
    norm_num [mul_comm]
  rw [hquarter, le_div_iff₀ hpos, div_le_iff₀ hpos, lt_div_iff₀ hpos, div_lt_iff₀ hpos]
  unfold Rounds closed at h
  split at h
  · next heven => exact ⟨h.1, h.2, fun hodd => absurd (beq_iff_eq.mp heven) hodd⟩
  · exact ⟨h.1.le, h.2.le, fun _ => h⟩

end Magnitude

/-! ## Reading -/

section Reading

variable {x : Magnitude} {r : Ratio} {s : Scaled} {q : Int}

/-- The last binary place of a fraction, by where the fraction lies. -/
theorem lastBinaryExponent_eq (hnum : 0 < r.num) (hden : 0 < r.den) (hleast : -1074 ≤ q)
    (hlow : q = -1074 ∨ 2 ^ (q + 52) ≤ r.value) (hhigh : r.value < 2 ^ (q + 53)) :
    lastBinaryExponent r = q := by
  obtain ⟨hfirst, hnext⟩ := Ratio.firstBinaryExponent_bounds hnum hden
  have hbelow : r.firstBinaryExponent < q + 53 :=
    (zpow_lt_zpow_iff_right₀ one_lt_two).mp (lt_of_le_of_lt hfirst hhigh)
  unfold lastBinaryExponent
  obtain rfl | hlow := hlow
  · omega
  · have hpowers : (2 : ℚ) ^ (q + 52) < 2 ^ (r.firstBinaryExponent + 1) := lt_of_le_of_lt hlow hnext
    have habove : q + 52 < r.firstBinaryExponent + 1 :=
      (zpow_lt_zpow_iff_right₀ one_lt_two).mp hpowers
    omega

theorem value_lt_two_zpow_iff (v : ℚ) (q : Int) (n : Nat) :
    v < 2 ^ (q + n) ↔ v / 2 ^ q < 2 ^ n := by
  rw [zpow_add₀ two_ne_zero, zpow_natCast, div_lt_iff₀ (by positivity), mul_comm]

/-- The word that a fraction is rounded to.  Where it lies just below a power of two that it
rounds to, its last place is one lower and the rounding carries. -/
theorem rounded_word (hx : x.WellFormed) (hnum : 0 < r.num) (hden : 0 < r.den)
    (hrounds : x.Rounds r.value) :
    (lastBinaryExponent r + 1074).toNat * 2 ^ 52 + (r.divTwoPow (lastBinaryExponent r)).round =
      x.word := by
  have hleast := hx.least
  have hm : (x.m : ℚ) + 1 ≤ 2 ^ 53 := by exact_mod_cast hx.lt
  obtain ⟨hlow, hhigh, hstrict⟩ := hrounds.bounds
  have hlowest := x.le_lowQuarters
  rw [x.highQuarters_eq] at hhigh hstrict
  have hbelow : r.value < 2 ^ (x.q + 53) := by
    apply (value_lt_two_zpow_iff r.value x.q 53).mpr
    linarith
  by_cases hfull : x.q = -1074 ∨ 2 ^ (x.q + 52) ≤ r.value
  · -- The last place is that of the magnitude, and the fraction is near its significand.
    rw [lastBinaryExponent_eq hnum hden hleast hfull hbelow]
    have hnear : (r.divTwoPow x.q).Near x.m := by
      unfold Ratio.Near Ratio.Within
      rw [Ratio.value_divTwoPow]
      refine ⟨⟨by linarith, by linarith⟩, ?_⟩
      apply Classical.or_iff_not_imp_left.mpr
      intro hodd
      obtain ⟨hlow, hhigh⟩ := hstrict hodd
      constructor <;> linarith
    rw [Ratio.round_eq (Ratio.den_divTwoPow_pos hden _) hnear]
    rfl
  · -- The fraction is below the power of two that the magnitude is.
    obtain ⟨hq, hunder⟩ := not_or.mp hfull
    have hunit := (value_lt_two_zpow_iff r.value x.q 52).mp (not_le.mp hunder)
    have hsignificand : x.m = 2 ^ 52 := by
      apply Nat.le_antisymm _ (hx.full.resolve_left hq)
      apply Nat.le_of_lt_succ
      have hlt : (x.m : ℚ) < 2 ^ 52 + 1 := by linarith
      exact_mod_cast hlt
    have hnarrow : (x.lowQuarters : ℚ) = 4 * 2 ^ 52 - 1 := by
      have hflag := hx.narrow.mpr ⟨hsignificand, by omega⟩
      unfold Magnitude.lowQuarters
      rw [hflag, hsignificand]
      norm_num
    rw [hnarrow] at hlow
    have hbefore : -1074 ≤ x.q - 1 := by omega
    have hreaches : 2 ^ (x.q - 1 + 52) ≤ r.value := by
      rw [show x.q - 1 + 52 = x.q + (51 : Nat) by omega, ← not_lt, value_lt_two_zpow_iff, not_lt]
      linarith
    have hstays : r.value < 2 ^ (x.q - 1 + 53) := by
      rw [show x.q - 1 + 53 = x.q + 52 by omega]
      exact not_le.mp hunder
    rw [lastBinaryExponent_eq hnum hden hbefore (.inr hreaches) hstays]
    have hnear : (r.divTwoPow (x.q - 1)).Near (2 ^ 53) := by
      unfold Ratio.Near Ratio.Within
      rw [Ratio.value_divTwoPow, zpow_sub_one₀ two_ne_zero]
      have hdouble : r.value / (2 ^ x.q * 2⁻¹) = 2 * (r.value / 2 ^ x.q) := by
        field_simp
      rw [hdouble]
      push_cast
      exact ⟨⟨by linarith, by linarith⟩, .inl (by norm_num)⟩
    rw [Ratio.round_eq (Ratio.den_divTwoPow_pos hden _) hnear]
    unfold Magnitude.word
    omega

/-- A decimal that a magnitude rounds is read as the number of that magnitude. -/
theorem nearest_of_rounds (negative : Bool) (hx : x.WellFormed) (hdigits : 0 < s.digits)
    (hrounds : x.Rounds s.value) :
    nearest negative s = .assemble negative (x.word / 2 ^ 52) (x.word % 2 ^ 52) := by
  have hnum : 0 < s.ratio.num := by
    have hvalue : (0 : ℚ) < s.ratio.value := by
      rw [Scaled.value_ratio]
      unfold Scaled.value
      positivity
    have hpos := (Ratio.lt_value_iff s.den_ratio_pos 0).mp (by exact_mod_cast hvalue)
    rwa [Nat.zero_mul] at hpos
  rw [← Scaled.value_ratio] at hrounds
  have hword := rounded_word hx hnum s.den_ratio_pos hrounds
  unfold nearest
  rw [if_neg (Nat.ne_of_gt hdigits)]
  simp only [natPow_eq]
  rw [hword, Nat.min_eq_left hx.word_lt.le]

end Reading

/-! ## Bits -/

namespace Binary

variable {b : Binary} {negative : Bool} {x : Magnitude}

theorem assemble_parts (b : Binary) : .assemble b.negative b.exponentField b.fraction = b := by
  obtain ⟨bits⟩ := b
  have hlt : bits.toNat < 2 ^ 64 := bits.toNat_lt
  have hsum : (if bits.toNat / 2 ^ 63 == 1 then 2 ^ 63 else 0) + bits.toNat / 2 ^ 52 % 2 ^ 11 * 2 ^ 52 +
      bits.toNat % 2 ^ 52 = bits.toNat := by
    rw [beq_eq_decide]
    simp only [decide_eq_true_eq]
    split <;> omega
  unfold assemble negative exponentField fraction
  simp only [natPow_eq]
  rw [hsum, UInt64.ofNat_toNat]

theorem parts_lt (b : Binary) : b.exponentField < 2048 ∧ b.fraction < 2 ^ 52 :=
  ⟨Nat.mod_lt _ (by decide), Nat.mod_lt _ (by decide)⟩

theorem parts_of_decode (h : b.decode = .finite negative x) :
    negative = b.negative ∧ x.WellFormed ∧ x.word = b.exponentField * 2 ^ 52 + b.fraction := by
  obtain ⟨hexponent, hfraction⟩ := b.parts_lt
  unfold decode at h
  simp only [natPow_eq] at h
  split at h
  · split at h <;> cases h
  · next hfinite =>
    split at h
    · next hzero =>
      split at h
      · cases h
      · next hpos =>
        cases h
        refine ⟨rfl, ?_, ?_⟩
        · have hsize : b.fraction < 2 ^ 53 := by omega
          have hleast : (-1074 : Int) ≤ 971 := by decide
          exact ⟨Nat.pos_of_ne_zero hpos, hsize, le_refl _, hleast, .inl rfl,
            fun h => absurd h Bool.false_ne_true, fun h => absurd h.2 (lt_irrefl _)⟩
        · unfold Magnitude.word
          dsimp only
          omega
    · next hnormal =>
      cases h
      refine ⟨rfl, ?_, ?_⟩
      · constructor <;> simp only [Bool.and_eq_true, beq_iff_eq, decide_eq_true_eq] <;> omega
      · unfold Magnitude.word
        dsimp only
        omega

theorem assemble_of_zero (h : b.decode = .zero negative) : .assemble negative 0 0 = b := by
  unfold decode at h
  split at h
  · split at h <;> cases h
  · split at h
    · next hexponent =>
      split at h
      · next hfraction =>
        cases h
        have hparts := b.assemble_parts
        rwa [hexponent, hfraction] at hparts
      · cases h
    · cases h

theorem isFinite_eq (b : Binary) : b.isFinite = match b.decode with
    | .nan | .infinite _ => false
    | .zero _ | .finite _ _ => true := by
  unfold isFinite decode
  by_cases hexponent : b.exponentField = 2047
  · rw [if_pos hexponent, hexponent]
    by_cases hfraction : b.fraction = 0
    · rw [if_pos hfraction]
      rfl
    · rw [if_neg hfraction]
      rfl
  · rw [if_neg hexponent, bne_iff_ne.mpr hexponent]
    by_cases hzero : b.exponentField = 0
    · rw [if_pos hzero]
      by_cases hfraction : b.fraction = 0
      · rw [if_pos hfraction]
      · rw [if_neg hfraction]
    · rw [if_neg hzero]

theorem assemble_of_decode (h : b.decode = .finite negative x) :
    .assemble negative (x.word / 2 ^ 52) (x.word % 2 ^ 52) = b := by
  obtain ⟨hexponent, hfraction⟩ := b.parts_lt
  obtain ⟨rfl, hx, hword⟩ := parts_of_decode h
  have hhigh : x.word / 2 ^ 52 = b.exponentField := by omega
  have hlow : x.word % 2 ^ 52 = b.fraction := by omega
  rw [hhigh, hlow, assemble_parts]

/-- A decimal that the magnitude of a number rounds is read as the number. -/
theorem nearest_of_decode (h : b.decode = .finite negative x) {s : Scaled} (hdigits : 0 < s.digits)
    (hrounds : x.Rounds s.value) : nearest negative s = b := by
  rw [nearest_of_rounds negative (parts_of_decode h).2.1 hdigits hrounds, assemble_of_decode h]

end Binary

end LogSpool.Decimal
