import LogSpool.Time.Calendar
set_option autoImplicit false

/-!
# Time: a date and its day

The date of a day is a date of that day.  The year that a day of an era falls into is read off
a count in which every year has 365 days: the count never falls, and it has the right year on
the first and on the last day of each of the four hundred.
-/

namespace LogSpool.Time

/-! ## Years -/

/-- The days of an era up to a day, without the leap days among them. -/
def plainDays (day : Nat) : Nat := day - day / 1460 + day / 36524 - day / 146096

theorem plainDays_le {a b : Nat} (h : a ≤ b) (hb : b < daysPerEra) : plainDays a ≤ plainDays b := by
  have hlast : b < 146097 := hb
  have hleap : a - a / 1460 ≤ b - b / 1460 := by omega
  have hcentury : a / 36524 ≤ b / 36524 := Nat.div_le_div_right h
  unfold plainDays
  by_cases hend : b = 146096
  · obtain rfl | hbefore := Nat.eq_or_lt_of_le h
    · exact Nat.le_refl _
    · -- The day that ends the fourth century ends the era.
      have hthree : a / 36524 ≤ 3 := by omega
      omega
  · have hnone : b / 146096 = 0 := by omega
    omega

/-- The day before a year counts as one of the years before, and a day after it as one of those
after. -/
theorem plainDays_around : ∀ year < 400,
    (year = 0 ∨ plainDays (daysBeforeYear year - 1) < 365 * year) ∧
      (daysPerEra ≤ daysBeforeYear year + 366 ∨
        365 * (year + 1) ≤ plainDays (daysBeforeYear year + 366)) := by
  decide +kernel

/-- A day of an era falls into one of its years, and not before it nor long after it began. -/
theorem yearOfEra_bounds {day : Nat} (h : day < daysPerEra) :
    yearOfEra day < 400 ∧ daysBeforeYear (yearOfEra day) ≤ day ∧
      day ≤ daysBeforeYear (yearOfEra day) + 365 := by
  have hcount : 365 * yearOfEra day ≤ plainDays day ∧ plainDays day < 365 * (yearOfEra day + 1) := by
    change 365 * (plainDays day / 365) ≤ _ ∧ _ < 365 * (plainDays day / 365 + 1)
    omega
  have hyear : yearOfEra day < 400 := by
    have hlast := plainDays_le (Nat.le_of_lt_succ h) (Nat.lt_succ_self _)
    have hall : plainDays 146096 < 365 * 400 := by decide
    omega
  generalize yearOfEra day = year at *
  obtain ⟨hbefore, hafter⟩ := plainDays_around year hyear
  refine ⟨hyear, Nat.not_lt.mp fun hearly => ?_, Nat.not_lt.mp fun hlate => ?_⟩
  · obtain rfl | hbefore := hbefore
    · exact absurd hearly (Nat.not_lt_zero _)
    · have hstart : daysBeforeYear year - 1 < 146097 := by
        unfold daysBeforeYear
        omega
      have hle := plainDays_le (Nat.le_sub_one_of_lt hearly) hstart
      omega
  · obtain hend | hafter := hafter
    · omega
    · have hle : plainDays (daysBeforeYear year + 366) ≤ plainDays day := plainDays_le hlate h
      omega

/-! ## Months -/

/-- A day of a year falls into one of its months, and not before it. -/
theorem monthOfYear_bounds {day : Nat} (h : day ≤ 365) :
    monthOfYear day ≤ 11 ∧ daysBeforeMonth (monthOfYear day) ≤ day ∧
      day < daysBeforeMonth (monthOfYear day) + 31 := by
  unfold monthOfYear daysBeforeMonth
  omega

/-! ## Dates -/

/-- The parts that a date is made of, and the day they make. -/
theorem exists_parts (n : Int) : ∃ (era : Int) (year month day : Nat),
    year < 400 ∧ month ≤ 11 ∧ day < 31 ∧
      n = era * daysPerEra + daysBeforeYear year + daysBeforeMonth month + day - epochOffset ∧
      Date.ofDay n = ⟨era * 400 + year + (if 10 ≤ month then 1 else 0),
        if 10 ≤ month then month - 9 else month + 3, day + 1⟩ := by
  have hsplit := Int.fdiv_mul_add_fmod (n + epochOffset) daysPerEra
  have hpos := Int.fmod_nonneg_of_pos (n + epochOffset) (by decide : (0 : Int) < daysPerEra)
  have hlt := Int.fmod_lt_of_pos (n + epochOffset) (by decide : (0 : Int) < daysPerEra)
  obtain ⟨dayOfEra, hday⟩ := Int.eq_ofNat_of_zero_le hpos
  have hera : dayOfEra < daysPerEra := by omega
  obtain ⟨hyear, hyearStart, hyearEnd⟩ := yearOfEra_bounds hera
  have hmonths := monthOfYear_bounds (Nat.sub_le_iff_le_add'.mpr hyearEnd)
  obtain ⟨hmonth, hmonthStart, hmonthEnd⟩ := hmonths
  refine ⟨(n + epochOffset).fdiv daysPerEra, yearOfEra dayOfEra, _, _, hyear, hmonth,
    Nat.sub_lt_left_of_lt_add hmonthStart hmonthEnd, ?_, ?_⟩
  · omega
  · unfold Date.ofDay
    simp only [hday, Int.toNat_natCast]

theorem Date.toDay_ofDay (n : Int) : Date.toDay (Date.ofDay n) = n := by
  obtain ⟨era, year, month, day, hyear, hmonth, hday, hn, hdate⟩ := exists_parts n
  have hera : (era * 400 + year).fdiv 400 = era := by
    rw [Int.fdiv_eq_ediv_of_nonneg _ (by decide)]
    omega
  have hrest : (era * 400 + year).fmod 400 = year := by
    rw [Int.fmod_eq_emod_of_nonneg _ (by decide)]
    omega
  rw [hdate]
  unfold Date.toDay
  by_cases hnext : 10 ≤ month
  · have hearly : month - 9 ≤ 2 := by omega
    have hback : month - 9 + 9 = month := by omega
    simp only [if_pos hnext, if_pos hearly, Int.add_sub_cancel, hera, hrest, Int.toNat_natCast, hback]
    omega
  · have hlate : ¬ month + 3 ≤ 2 := by omega
    simp only [if_neg hnext, if_neg hlate, Int.add_zero, Int.sub_zero, hera, hrest,
      Int.toNat_natCast, Nat.add_sub_cancel]
    omega

theorem Date.ofDay_bounds (n : Int) :
    (Date.ofDay n).month ≤ 12 ∧ (Date.ofDay n).day ≤ 31 := by
  obtain ⟨era, year, month, day, hyear, hmonth, hday, hn, hdate⟩ := exists_parts n
  rw [hdate]
  dsimp only
  split <;> omega

end LogSpool.Time
