import LogSpool.Proofs.Decimal.Digits
import LogSpool.Proofs.Time.Calendar
import LogSpool.Time.Reader
set_option autoImplicit false

/-!
# Time: a time stamp and its text

The text of an instant is read as that instant, whatever comes after it: a year of four digits
or a signed one, a leap second, and a fraction of none, three, six or nine digits.  Only a leap
second that does not end a minute has the text of another instant, as far into the second after
it: that one is read (`Stamp.carried`).
-/

namespace LogSpool.Time

open LogSpool.Decimal (isDigit spanDigits ofDigits ofDigits_concat ofDigits_digitsOf
  ofDigits_zeros_append toNat_digitChar_sub isDigit_of_mem_digitsOf NoDigitFirst noDigitFirst_cons
  spanDigits_of_digits digitsOf)

variable {n width : Nat} {rest : List Char}

/-! ## Digits -/

@[simp] theorem length_fixedDigits (width n : Nat) : (fixedDigits width n).length = width := by
  induction width generalizing n with
  | zero => rfl
  | succ width ih => rw [fixedDigits, List.length_append, ih, List.length_singleton]

theorem isDigit_of_mem_fixedDigits {c : Char} (h : c ∈ fixedDigits width n) : isDigit c = true := by
  induction width generalizing n with
  | zero => cases h
  | succ width ih =>
    rw [fixedDigits, List.mem_append, List.mem_singleton] at h
    obtain h | rfl := h
    · exact ih h
    · exact Nat.isDigit_digitChar.trans (decide_eq_true (Nat.mod_lt n (by decide)))

theorem ofDigits_fixedDigits (width n : Nat) : ofDigits (fixedDigits width n) = n % 10 ^ width := by
  induction width generalizing n with
  | zero => rw [Nat.pow_zero, Nat.mod_one]; rfl
  | succ width ih =>
    rw [fixedDigits, ofDigits_concat, ih, toNat_digitChar_sub (Nat.mod_lt n (by decide)),
      Nat.pow_succ, Nat.mul_comm (10 ^ width), Nat.mod_mul]
    omega

theorem readDigits?_fixedDigits (h : n < 10 ^ width) (rest : List Char) :
    readDigits? width (fixedDigits width n ++ rest) = some (n, rest) := by
  have htake : (fixedDigits width n ++ rest).take width = fixedDigits width n :=
    List.take_left' (length_fixedDigits width n)
  have hdrop : (fixedDigits width n ++ rest).drop width = rest :=
    List.drop_left' (length_fixedDigits width n)
  have hdigits : (fixedDigits width n).all isDigit = true :=
    List.all_eq_true.mpr fun _ hc => isDigit_of_mem_fixedDigits hc
  unfold readDigits?
  simp only [htake, hdrop, ofDigits_fixedDigits, Nat.mod_eq_of_lt h]
  exact if_pos ⟨length_fixedDigits width n, hdigits⟩

theorem spanDigits_paddedDigits (width n : Nat) (hrest : NoDigitFirst rest) :
    spanDigits (paddedDigits width n ++ rest) = (paddedDigits width n, rest) := by
  apply spanDigits_of_digits _ hrest
  intro c hc
  obtain hc | hc := List.mem_append.mp hc
  · rw [List.eq_of_mem_replicate hc]
    decide
  · exact isDigit_of_mem_digitsOf hc

theorem ofDigits_paddedDigits (width n : Nat) : ofDigits (paddedDigits width n) = n :=
  (ofDigits_zeros_append _ _).trans (ofDigits_digitsOf n)

theorem le_length_paddedDigits (width n : Nat) : width ≤ (paddedDigits width n).length := by
  unfold paddedDigits
  rw [List.length_append, List.length_replicate]
  omega

/-! ## Parts -/

theorem head?_fixedDigits_ne {c : Char} (hc : isDigit c = false) (width n : Nat) (rest : List Char) :
    (fixedDigits (width + 1) n ++ rest).head? ≠ some c := by
  intro hhead
  have hlength := length_fixedDigits (width + 1) n
  cases hdigits : fixedDigits (width + 1) n with
  | nil =>
    rw [hdigits] at hlength
    cases hlength
  | cons d more =>
    rw [hdigits, List.cons_append, List.head?_cons] at hhead
    have hdigit : isDigit d = true := isDigit_of_mem_fixedDigits (hdigits ▸ List.mem_cons_self)
    rw [Option.some.inj hhead, hc] at hdigit
    cases hdigit

theorem readYear?_signed (hrest : NoDigitFirst rest) (n : Nat) :
    readYear? ('-' :: paddedDigits 4 n ++ rest) = some (-(n : Int), rest) ∧
      readYear? ('+' :: paddedDigits 4 n ++ rest) = some ((n : Int), rest) := by
  have hspan := spanDigits_paddedDigits 4 n hrest
  have hlength := Nat.not_lt.mpr (le_length_paddedDigits 4 n)
  unfold readYear?
  simp only [List.cons_append, hspan, ofDigits_paddedDigits, if_neg hlength, and_self]

theorem readYear?_yearText (year : Int) (hrest : NoDigitFirst rest) :
    readYear? (yearText year ++ rest) = some (year, rest) := by
  unfold yearText
  split
  · next hplain =>
    have hread : readDigits? 4 (fixedDigits 4 year.toNat ++ rest) = some (year.toNat, rest) :=
      readDigits?_fixedDigits (by omega) rest
    unfold readYear?
    split
    · next heq => exact absurd (congrArg List.head? heq) (head?_fixedDigits_ne (by decide) _ _ _)
    · next heq => exact absurd (congrArg List.head? heq) (head?_fixedDigits_ne (by decide) _ _ _)
    · rw [hread, Option.map_some, Int.toNat_of_nonneg hplain.1]
  · obtain ⟨hminus, hplus⟩ := readYear?_signed hrest year.natAbs
    split
    · rw [hminus, show -(year.natAbs : Int) = year by omega]
    · rw [hplus, show (year.natAbs : Int) = year by omega]

theorem readFraction?_fixedDigits {n : Nat} (hpos : 0 < width) (hle : width ≤ 9)
    (hn : n < 10 ^ width) (hrest : NoDigitFirst rest) :
    readFraction? ('.' :: fixedDigits width n ++ rest) = some (n * 10 ^ (9 - width), rest) := by
  have hspan : spanDigits (fixedDigits width n ++ rest) = (fixedDigits width n, rest) :=
    spanDigits_of_digits (fun _ hc => isDigit_of_mem_fixedDigits hc) hrest
  have hsome : ¬ ((fixedDigits width n).isEmpty = true ∨ 9 < width) := by
    rw [List.isEmpty_iff_length_eq_zero, length_fixedDigits]
    omega
  unfold readFraction?
  simp only [List.cons_append, hspan, ofDigits_fixedDigits, Nat.mod_eq_of_lt hn, length_fixedDigits]
  exact if_neg hsome

/-- A fraction of a second is read where no digit and no point follows. -/
theorem readFraction?_fractionText (h : n < nanosPerSecond) (hrest : NoDigitFirst rest)
    (hpoint : rest.head? ≠ some '.') : readFraction? (fractionText n ++ rest) = some (n, rest) := by
  have hbound : n < 1000000000 := h
  unfold fractionText
  split
  · next hzero =>
    unfold readFraction?
    split
    · next heq => exact absurd (congrArg List.head? heq) hpoint
    · rw [hzero]
      rfl
  · split
    · next hmillis =>
      rw [readFraction?_fixedDigits (by decide) (by decide) (by omega) hrest]
      rw [show n / 1000000 * 10 ^ (9 - 3) = n by omega]
    · split
      · next hmicros =>
        rw [readFraction?_fixedDigits (by decide) (by decide) (by omega) hrest]
        rw [show n / 1000 * 10 ^ (9 - 6) = n by omega]
      · rw [readFraction?_fixedDigits (by decide) (by decide) hbound hrest]
        rw [show n * 10 ^ (9 - 9) = n by omega]

/-! ## Instants -/

theorem readChar?_self (c : Char) (rest : List Char) : readChar? c (c :: rest) = some rest :=
  if_pos rfl

theorem Stamp.seconds_eq (s : Stamp) :
    s.seconds = s.seconds.fdiv secondsPerDay * secondsPerDay + s.secondOfDay ∧
      s.secondOfDay < secondsPerDay := by
  have hsplit := Int.fdiv_mul_add_fmod s.seconds secondsPerDay
  have hpos := Int.fmod_nonneg_of_pos s.seconds (by decide : (0 : Int) < secondsPerDay)
  have hlt := Int.fmod_lt_of_pos s.seconds (by decide : (0 : Int) < secondsPerDay)
  unfold secondOfDay
  omega

theorem Stamp.nanos_lt {s : Stamp} (h : s.isValid = true) : s.nanos < 2 * nanosPerSecond := by
  unfold isValid at h
  simp only [Bool.and_eq_true, decide_eq_true_eq] at h
  exact h.2

theorem Stamp.isRegular_iff {s : Stamp} :
    s.isRegular = true ↔ (s.isLeap = true → s.secondOfDay % 60 = 59) := by
  unfold isRegular
  cases s.isLeap <;> simp

/-- The instant that the text of an instant stands for.  The text counts a leap second within a
minute as the second after it. -/
def Stamp.carried (s : Stamp) : Stamp :=
  if s.isRegular then s else ⟨s.seconds + 1, s.nanos - nanosPerSecond⟩

/-- A text stands for its instant exactly if that is regular. -/
theorem Stamp.carried_eq_self_iff {s : Stamp} : s.carried = s ↔ s.isRegular = true := by
  unfold carried
  cases hregular : s.isRegular with
  | true => simp
  | false =>
    simp only [Bool.false_eq_true, if_false, iff_false]
    intro heq
    have hseconds := congrArg Stamp.seconds heq
    dsimp only at hseconds
    omega

/-- A day, a time of day and what is left of a second make up an instant again, where a second
60 is the leap second after 59. -/
theorem Stamp.carried_of_parts {s : Stamp} (h : s.isValid = true) :
    (⟨Date.toDay s.date * secondsPerDay +
        (s.secondOfDay / 3600 * 3600 + s.secondOfDay / 60 % 60 * 60 : Nat) +
        (if s.secondOfDay % 60 + (if s.isLeap then 1 else 0) == 60 then 59
          else s.secondOfDay % 60 + (if s.isLeap then 1 else 0) : Nat),
      if s.secondOfDay % 60 + (if s.isLeap then 1 else 0) == 60 then
        nanosPerSecond + s.nanos % nanosPerSecond else s.nanos % nanosPerSecond⟩ : Stamp) =
      s.carried := by
  obtain ⟨hseconds, -⟩ := s.seconds_eq
  have hnanos := nanos_lt h
  have hregular := @isRegular_iff s
  have hday : Date.toDay s.date = s.seconds.fdiv secondsPerDay := Date.toDay_ofDay _
  have hunit : nanosPerSecond = 1000000000 := rfl
  unfold carried
  obtain ⟨seconds, nanos⟩ := s
  dsimp only at *
  generalize Stamp.secondOfDay ⟨seconds, nanos⟩ = second at *
  have hhours : second / 60 / 60 = second / 3600 := Nat.div_div_eq_div_mul _ _ _
  cases hflag : Stamp.isLeap ⟨seconds, nanos⟩ with
  | true =>
    have hlong : nanosPerSecond ≤ nanos := of_decide_eq_true hflag
    by_cases hminute : second % 60 = 59
    · have hlast : (second % 60 + 1 == 60) = true := beq_iff_eq.mpr (by rw [hminute])
      rw [if_pos (hregular.mpr fun _ => hminute)]
      simp only [if_true, hlast, hday, hunit, Stamp.mk.injEq]
      constructor
      · omega
      · omega
    · have hlast : (second % 60 + 1 == 60) = false := beq_eq_false_iff_ne.mpr (by omega)
      rw [if_neg fun hends => hminute (hregular.mp hends hflag)]
      simp only [if_true, Bool.false_eq_true, if_false, hlast, hday, hunit, Stamp.mk.injEq]
      constructor
      · omega
      · omega
  | false =>
    have hshort : nanos < nanosPerSecond := Nat.not_le.mp (of_decide_eq_false hflag)
    have hlast : (second % 60 + 0 == 60) = false := beq_eq_false_iff_ne.mpr (by omega)
    rw [if_pos (hregular.mpr fun hleap => absurd (hflag.symm.trans hleap) (by decide))]
    simp only [Bool.false_eq_true, if_false, hlast, hday, Nat.mod_eq_of_lt hshort, Stamp.mk.injEq]
    constructor
    · omega
    · trivial

/-- A second that does not end a minute is followed by one of the same day. -/
theorem Stamp.next_second {s : Stamp} (h : s.secondOfDay % 60 ≠ 59) (nanos : Nat) :
    Stamp.date ⟨s.seconds + 1, nanos⟩ = s.date ∧
      Stamp.secondOfDay ⟨s.seconds + 1, nanos⟩ = s.secondOfDay + 1 := by
  have hdays : ∀ n : Int, n.fdiv secondsPerDay = n / 86400 :=
    fun n => Int.fdiv_eq_ediv_of_nonneg n (by decide)
  have hrest : ∀ n : Int, n.fmod secondsPerDay = n % 86400 :=
    fun n => Int.fmod_eq_emod_of_nonneg n (by decide)
  unfold secondOfDay at h ⊢
  unfold date
  rw [hrest] at h
  simp only [hdays, hrest]
  constructor
  · rw [show (s.seconds + 1) / 86400 = s.seconds / 86400 by omega]
  · omega

/-- The second after a leap second within a minute has the text of the leap second. -/
theorem Stamp.text_carried {s : Stamp} (h : s.isValid = true) : s.carried.text = s.text := by
  cases hregular : s.isRegular with
  | true => rw [carried_eq_self_iff.mpr hregular]
  | false =>
    obtain ⟨hflag, hwithin⟩ : s.isLeap = true ∧ s.secondOfDay % 60 ≠ 59 := by
      simpa [isRegular] using hregular
    have hleap : nanosPerSecond ≤ s.nanos := of_decide_eq_true hflag
    have hnanos := nanos_lt h
    have hcarried : s.carried = ⟨s.seconds + 1, s.nanos - nanosPerSecond⟩ := by
      rw [carried, hregular]
      rfl
    obtain ⟨hdate, hsecond⟩ := next_second hwithin (s.nanos - nanosPerSecond)
    have hplain : Stamp.isLeap ⟨s.seconds + 1, s.nanos - nanosPerSecond⟩ = false :=
      decide_eq_false (by dsimp only; omega)
    have hfraction : (s.nanos - nanosPerSecond) % nanosPerSecond = s.nanos % nanosPerSecond :=
      (Nat.mod_eq_sub_mod hleap).symm
    have hhour : (s.secondOfDay + 1) / 3600 = s.secondOfDay / 3600 := by omega
    have hminute : (s.secondOfDay + 1) / 60 % 60 = s.secondOfDay / 60 % 60 := by omega
    have hlast : (s.secondOfDay + 1) % 60 + 0 = s.secondOfDay % 60 + 1 := by omega
    rw [hcarried]
    unfold text
    simp only [hdate, hsecond, hplain, hflag, hfraction, hhour, hminute, hlast, if_true,
      Bool.false_eq_true, if_false]

theorem Stamp.read?_text {s : Stamp} (h : s.isValid = true) (rest : List Char) :
    Stamp.read? (s.text ++ rest) = some (s.carried, rest) := by
  obtain ⟨hmonth, hday⟩ := Date.ofDay_bounds (s.seconds.fdiv secondsPerDay)
  have hlong : s.secondOfDay < 86400 := s.seconds_eq.2
  have hyear : ∀ more, NoDigitFirst ('-' :: more) := fun _ => noDigitFirst_cons (by decide)
  have hmonth : s.date.month < 10 ^ 2 := by unfold Stamp.date; omega
  have hday : s.date.day < 10 ^ 2 := by unfold Stamp.date; omega
  have hhour : s.secondOfDay / 3600 < 10 ^ 2 := by omega
  have hminute : s.secondOfDay / 60 % 60 < 10 ^ 2 := by omega
  have hsecond : s.secondOfDay % 60 + (if s.isLeap then 1 else 0) < 10 ^ 2 := by
    split <;> omega
  have hfraction : s.nanos % nanosPerSecond < nanosPerSecond := Nat.mod_lt _ (by decide)
  have hzone : NoDigitFirst ('Z' :: rest) := noDigitFirst_cons (by decide)
  have hpoint : ('Z' :: rest).head? ≠ some '.' := fun heq => absurd (Option.some.inj heq) (by decide)
  have hparts := Stamp.carried_of_parts h
  unfold Stamp.read? Stamp.text
  simp only [List.append_assoc, List.cons_append, List.nil_append, readYear?_yearText _ (hyear _),
    readDigits?_fixedDigits hmonth, readDigits?_fixedDigits hday, readDigits?_fixedDigits hhour,
    readDigits?_fixedDigits hminute, readDigits?_fixedDigits hsecond,
    readFraction?_fractionText hfraction hzone hpoint, readChar?_self, Option.bind_eq_bind,
    Option.bind_some, Option.pure_def]
  rw [hparts]

theorem Stamp.ofText?_text {s : Stamp} (h : s.isValid = true) :
    Stamp.ofText? s.text = some s.carried := by
  have hread := Stamp.read?_text h []
  rw [List.append_nil] at hread
  unfold Stamp.ofText?
  rw [hread]
  rfl

end LogSpool.Time
