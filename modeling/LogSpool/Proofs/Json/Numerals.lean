import LogSpool.Proofs.Decimal.Shortest
import LogSpool.Proofs.Json.Grammar
set_option autoImplicit false

/-!
# Json: numbers are written as the grammar has them

The text of an integer is a numeral of that integer.  The text of a finite number is a numeral
of a decimal that is read as the number, in each of the forms that a layout has for it: with
zeros and a point after the digits, with a point among them, with a point and zeros before them,
and with an exponent.  It is never the numeral of an integer.
-/

namespace LogSpool.Json

open LogSpool.Decimal

variable {digits sign : List Char} {negative : Bool} {n : Nat}

/-! ## Digits -/

theorem isDigits_digitsOf (n : Nat) : IsDigits (digitsOf n) :=
  ⟨digitsOf_ne_nil n, fun _ hc => isDigit_of_mem_digitsOf hc⟩

theorem isDigit_of_mem_zeros {k : Nat} {c : Char} (h : c ∈ List.replicate k '0') :
    isDigit c = true := by
  rw [List.eq_of_mem_replicate h]
  decide

/-- Digits that start like those of a positive number have no zero in front. -/
theorem isWhole_of_positive (hn : 0 < n) {whole more tail : List Char} (hdigits : IsDigits whole)
    (hstart : whole ++ more = digitsOf n ++ tail) : IsWhole whole where
  toIsDigits := hdigits
  noZeroFirst := by
    rintro rest rfl
    obtain ⟨d, others, hd⟩ := List.exists_cons_of_ne_nil (digitsOf_ne_nil n)
    rw [hd, List.cons_append, List.cons_append] at hstart
    rw [← (List.cons.inj hstart).1] at hd
    exact absurd hd (digitsOf_ne_zero_cons hn others)

theorem isWhole_singleton {d : Char} (h : isDigit d = true) : IsWhole [d] where
  nonempty := List.cons_ne_nil _ _
  digit := List.forall_mem_singleton.mpr h
  noZeroFirst := by
    intro rest hrest
    exact (List.cons.inj hrest).2.symm

theorem isWhole_digitsOf (n : Nat) : IsWhole (digitsOf n) := by
  obtain rfl | hn := Nat.eq_zero_or_pos n
  · exact isWhole_singleton (by decide)
  · exact isWhole_of_positive hn (isDigits_digitsOf n) (rfl : digitsOf n ++ [] = digitsOf n ++ [])

/-! ## Integers -/

/-- An integer is written as a numeral that is read as it. -/
theorem isNumber_ofInt (i : Int) : IsNumber (ofInt i) (.integer i) := by
  have hwrite : ∀ {sign negative}, IsMinus sign negative → IsNumber (sign ++ digitsOf i.natAbs)
      (.integer (if negative then -(i.natAbs : Int) else i.natAbs)) := by
    intro sign negative hsign
    have hnumber := IsNumber.mk hsign (isWhole_digitsOf i.natAbs) .none .none
    unfold numberOf at hnumber
    rwa [List.append_nil, List.append_nil, ofDigits_digitsOf] at hnumber
  unfold ofInt
  split
  · have hvalue := hwrite .minus
    rwa [if_pos rfl, show -(i.natAbs : Int) = i by omega] at hvalue
  · have hvalue := hwrite .plus
    rwa [if_neg Bool.false_ne_true, show (i.natAbs : Int) = i by omega] at hvalue

theorem isExponent_ofInt (plusSign : Bool) (e : Int) :
    IsExponent ('e' :: ((if plusSign && decide (0 ≤ e) then ['+'] else []) ++ ofInt e)) (some e) := by
  apply IsExponent.some (.inl rfl)
  have hdigits := isDigits_digitsOf e.natAbs
  unfold ofInt
  by_cases hneg : e < 0
  · have hsigned := IsSigned.minus hdigits
    rw [ofDigits_digitsOf, show -(e.natAbs : Int) = e by omega] at hsigned
    rwa [if_pos hneg, decide_eq_false (not_le.mpr hneg), Bool.and_false, if_neg Bool.false_ne_true]
  · have hplus := IsSigned.plus hdigits
    have hbare := IsSigned.bare hdigits
    rw [ofDigits_digitsOf, show (e.natAbs : Int) = e by omega] at hplus hbare
    rw [if_neg hneg]
    split
    · exact hplus
    · exact hbare

/-! ## Decimals -/

/-- A text is a numeral of a decimal of the same value, and of no integer. -/
def Writes (text : List Char) (s : Scaled) : Prop :=
  ∀ (sign : List Char) (negative : Bool), IsMinus sign negative → ∃ t : Scaled,
    0 < t.digits ∧ t.value = s.value ∧ IsNumber (sign ++ text) (.number (nearest negative t))

theorem isNumber_pointed {whole places : List Char} (hsign : IsMinus sign negative)
    (hwhole : IsWhole whole) (hplaces : IsDigits places) :
    IsNumber (sign ++ (whole ++ '.' :: places))
      (.number (nearest negative ⟨ofDigits (whole ++ places), -(places.length : Int)⟩)) := by
  have hnumber := IsNumber.mk hsign hwhole (.some hplaces) .none
  unfold numberOf at hnumber
  rw [List.append_nil, List.append_assoc] at hnumber
  rw [← Int.zero_sub]
  exact hnumber

/-- Zeros at the end count as places. -/
theorem value_append_zeros (n k : Nat) (e : Int) :
    Scaled.value ⟨n * 10 ^ k, e - k⟩ = Scaled.value ⟨n, e⟩ := by
  unfold Scaled.value
  rw [zpow_sub₀ (by norm_num), zpow_natCast]
  push_cast
  field_simp

/-- A decimal that is a whole number is written with zeros up to the point and one after it. -/
theorem writes_whole {s : Scaled} (hs : 0 < s.digits) (hexponent : 0 ≤ s.exponent) :
    Writes (digitsOf s.digits ++ List.replicate s.exponent.toNat '0' ++ ['.', '0']) s := by
  intro sign negative hsign
  have hdigits : IsDigits (digitsOf s.digits ++ List.replicate s.exponent.toNat '0') := by
    refine ⟨List.append_ne_nil_of_left_ne_nil (digitsOf_ne_nil _) _, ?_⟩
    exact List.forall_mem_append.mpr
      ⟨fun _ hc => isDigit_of_mem_digitsOf hc, fun _ hc => isDigit_of_mem_zeros hc⟩
  have hwhole := isWhole_of_positive hs hdigits (List.append_nil _)
  have hplace : IsDigits ['0'] := ⟨List.cons_ne_nil _ _, List.forall_mem_singleton.mpr (by decide)⟩
  have hvalue : ofDigits (digitsOf s.digits ++ List.replicate s.exponent.toNat '0' ++ ['0']) =
      s.digits * 10 ^ (s.exponent.toNat + 1) := by
    rw [List.append_assoc, ← List.replicate_succ', ofDigits_append_zeros, ofDigits_digitsOf]
  refine ⟨_, ?_, ?_, isNumber_pointed hsign hwhole hplace⟩
  · rw [hvalue]
    positivity
  · rw [hvalue, ← value_append_zeros s.digits (s.exponent.toNat + 1) s.exponent]
    congr
    rw [List.length_singleton]
    push_cast
    omega

/-- A decimal is written with a point among its digits. -/
theorem writes_pointed {s : Scaled} (hs : 0 < s.digits) {k : Nat} (hk : 0 < k)
    (hlength : k < (digitsOf s.digits).length)
    (hexponent : s.exponent = -(((digitsOf s.digits).length - k : Nat) : Int)) :
    Writes ((digitsOf s.digits).take k ++ '.' :: (digitsOf s.digits).drop k) s := by
  intro sign negative hsign
  have hall := isDigits_digitsOf s.digits
  have hwhole : IsWhole ((digitsOf s.digits).take k) := by
    refine isWhole_of_positive hs ⟨?_, fun c hc => hall.digit c (List.mem_of_mem_take hc)⟩
      ((List.take_append_drop k _).trans (List.append_nil _).symm)
    exact List.ne_nil_of_length_pos (by rw [List.length_take]; omega)
  have hplaces : IsDigits ((digitsOf s.digits).drop k) := by
    refine ⟨?_, fun c hc => hall.digit c (List.mem_of_mem_drop hc)⟩
    exact List.ne_nil_of_length_pos (by rw [List.length_drop]; omega)
  have hnumber := isNumber_pointed hsign hwhole hplaces
  rw [List.take_append_drop, ofDigits_digitsOf, List.length_drop, ← hexponent] at hnumber
  exact ⟨s, hs, rfl, hnumber⟩

/-- A decimal below one is written with a zero before the point and zeros after it. -/
theorem writes_below {s : Scaled} (hs : 0 < s.digits) {k : Nat}
    (hexponent : s.exponent = -((k + (digitsOf s.digits).length : Nat) : Int)) :
    Writes (['0', '.'] ++ List.replicate k '0' ++ digitsOf s.digits) s := by
  intro sign negative hsign
  have hall := isDigits_digitsOf s.digits
  have hplaces : IsDigits (List.replicate k '0' ++ digitsOf s.digits) := by
    refine ⟨List.append_ne_nil_of_right_ne_nil _ hall.nonempty, ?_⟩
    exact List.forall_mem_append.mpr ⟨fun _ hc => isDigit_of_mem_zeros hc, hall.digit⟩
  have hnumber := isNumber_pointed hsign (isWhole_singleton (d := '0') (by decide)) hplaces
  have hvalue : ofDigits (['0'] ++ (List.replicate k '0' ++ digitsOf s.digits)) = s.digits := by
    have hzero : ['0'] = List.replicate 1 '0' := rfl
    rw [hzero, ofDigits_zeros_append, ofDigits_zeros_append, ofDigits_digitsOf]
  rw [hvalue, List.length_append, List.length_replicate, ← hexponent] at hnumber
  exact ⟨s, hs, rfl, hnumber⟩

theorem writes_positional {s : Scaled} (hs : 0 < s.digits) : Writes (positional s) s := by
  have hlength := List.length_pos_iff.mpr (digitsOf_ne_nil s.digits)
  unfold positional
  dsimp only
  split
  · next hwhole => exact writes_whole hs hwhole
  · next hplaces =>
    split
    · next hpoint =>
      apply writes_pointed hs <;> omega
    · next hpoint =>
      apply writes_below hs
      omega

theorem writes_scientific (plusSign : Bool) {s : Scaled} (hs : 0 < s.digits) :
    Writes (scientific plusSign s) s := by
  intro sign negative hsign
  have hexponent := isExponent_ofInt plusSign s.firstExponent
  have hall := isDigits_digitsOf s.digits
  have hcount := length_digitsOf s.digits
  have hvalue := ofDigits_digitsOf s.digits
  have hfirst : s.firstExponent = s.exponent + digitCount s.digits - 1 := rfl
  unfold scientific
  dsimp only
  generalize s.firstExponent = e at *
  generalize digitsOf s.digits = digits at *
  split
  · exact absurd rfl hall.nonempty
  · next d =>
    have hnumber := IsNumber.mk hsign (isWhole_singleton (hall.digit d List.mem_cons_self)) .none hexponent
    have hplaces : e - (0 : Nat) = s.exponent := by
      rw [List.length_singleton] at hcount
      omega
    refine ⟨⟨ofDigits [d], e - (0 : Nat)⟩, by rw [hvalue]; exact hs, ?_, ?_⟩
    · rw [hvalue, hplaces]
    · rw [List.append_nil, List.append_assoc] at hnumber
      exact hnumber
  · next d rest hrest =>
    obtain ⟨hd, hmore⟩ := List.forall_mem_cons.mp hall.digit
    have hnumber := IsNumber.mk hsign (isWhole_singleton hd) (.some ⟨hrest, hmore⟩) hexponent
    have hplaces : e - rest.length = s.exponent := by
      rw [List.length_cons] at hcount
      omega
    refine ⟨⟨ofDigits (d :: rest), e - rest.length⟩, by rw [hvalue]; exact hs, ?_, ?_⟩
    · rw [hvalue, hplaces]
    · simp only [List.append_assoc] at hnumber ⊢
      exact hnumber

theorem writes_writeScaled (layout : Layout) {s : Scaled} (hs : 0 < s.digits) :
    Writes (layout.writeScaled s) s := by
  unfold Layout.writeScaled
  split
  · exact writes_positional hs
  · exact writes_scientific _ hs

/-! ## Numbers -/

theorem isMinus_sign (negative : Bool) : IsMinus (if negative then ['-'] else []) negative := by
  cases negative with
  | false => exact .plus
  | true => exact .minus

/-- Zero is written as a numeral that is read as zero of the same sign. -/
theorem isNumber_zero {x : Binary} (hzero : x.decode = .zero negative) :
    IsNumber ((if negative then ['-'] else []) ++ ['0', '.', '0']) (.number x) := by
  have hplace : IsDigits ['0'] := ⟨List.cons_ne_nil _ _, List.forall_mem_singleton.mpr (by decide)⟩
  have hzeroDigit : IsWhole ['0'] := isWhole_singleton (by decide)
  have hnumber := isNumber_pointed (isMinus_sign negative) hzeroDigit hplace
  have hvalue : ofDigits (['0'] ++ ['0']) = 0 := rfl
  unfold nearest at hnumber
  rwa [if_pos hvalue, Binary.assemble_of_zero hzero] at hnumber

theorem isNumber_finite (layout : Layout) {x : Binary} {magnitude : Magnitude}
    (hfinite : x.decode = .finite negative magnitude) :
    IsNumber ((if negative then ['-'] else []) ++ layout.writeScaled (shortest layout.tie magnitude))
      (.number x) := by
  obtain ⟨-, hmagnitude, -⟩ := Binary.parts_of_decode hfinite
  obtain ⟨hdigits, hrounds⟩ := rounds_shortest layout.tie hmagnitude
  obtain ⟨t, ht, hvalue, hnumber⟩ := writes_writeScaled layout hdigits _ _ (isMinus_sign negative)
  rw [← hvalue] at hrounds
  rwa [Binary.nearest_of_decode hfinite ht hrounds] at hnumber

/-- A finite number is written as a numeral that is read as it, a number that is not finite as
null. -/
theorem isValue_write (x : Binary) : IsValue (numberLayout.write x) (.ofBinary x) := by
  unfold Layout.write Value.ofBinary
  rw [x.isFinite_eq]
  cases hx : x.decode with
  | nan => exact .null
  | infinite negative =>
    cases negative with
    | false => exact .null
    | true => exact .null
  | zero negative => exact .number (isNumber_zero hx)
  | finite negative magnitude => exact .number (isNumber_finite numberLayout hx)

end LogSpool.Json
