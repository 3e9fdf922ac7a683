import Mathlib.Algebra.Group.Nat.Defs
import LogSpool.Decimal.Digits
import LogSpool.Decimal.Layout
set_option autoImplicit false

/-!
# Decimal: digits read back

The digits of a number stand for the number, zeros before them change nothing and zeros
after them multiply it.  The digits at the start of a text are taken as far as they go, so a
number followed by no digit is taken whole.
-/

namespace LogSpool.Decimal

variable {digits rest : List Char}

/-! ## The number that digits stand for -/

@[simp] theorem ofDigits_nil : ofDigits [] = 0 := rfl

theorem ofDigits_append (digits more : List Char) :
    ofDigits (digits ++ more) = ofDigits digits * 10 ^ more.length + ofDigits more := by
  have hshift : ∀ (more : List Char) (n : Nat),
      more.foldl (fun n c => n * 10 + (c.toNat - '0'.toNat)) n =
        n * 10 ^ more.length + ofDigits more := by
    intro more
    induction more with
    | nil => simp
    | cons c more ih =>
      intro n
      unfold ofDigits
      rw [List.foldl_cons, List.foldl_cons, ih, ih, List.length_cons, Nat.pow_succ]
      simp only [Nat.add_mul, Nat.zero_mul, Nat.zero_add, Nat.mul_assoc, Nat.mul_comm 10,
        Nat.add_assoc]
  unfold ofDigits
  rw [List.foldl_append]
  exact hshift more _

/-- The last digit counts once, those before it tenfold. -/
theorem ofDigits_concat (digits : List Char) (c : Char) :
    ofDigits (digits ++ [c]) = ofDigits digits * 10 + (c.toNat - '0'.toNat) := by
  rw [ofDigits_append, List.length_singleton, Nat.pow_one]
  simp [ofDigits]

@[simp] theorem ofDigits_zeros (n : Nat) : ofDigits (List.replicate n '0') = 0 := by
  induction n with
  | zero => rfl
  | succ n ih => rw [List.replicate_succ', ofDigits_concat, ih]; rfl

theorem ofDigits_zeros_append (n : Nat) (digits : List Char) :
    ofDigits (List.replicate n '0' ++ digits) = ofDigits digits := by
  rw [ofDigits_append, ofDigits_zeros, Nat.zero_mul, Nat.zero_add]

theorem ofDigits_append_zeros (digits : List Char) (n : Nat) :
    ofDigits (digits ++ List.replicate n '0') = ofDigits digits * 10 ^ n := by
  rw [ofDigits_append, ofDigits_zeros, List.length_replicate, Nat.add_zero]

theorem toNat_digitChar_sub {n : Nat} (h : n < 10) :
    (Nat.digitChar n).toNat - '0'.toNat = n := by
  rw [Nat.toNat_digitChar_of_lt_ten h]
  exact Nat.add_sub_cancel_left 48 n

/-- The digits of a number stand for it. -/
@[simp] theorem ofDigits_digitsOf (n : Nat) : ofDigits (digitsOf n) = n := by
  induction n using Nat.strongRecOn with
  | ind n ih =>
    unfold digitsOf
    rw [Nat.toDigits_eq_if (by decide)]
    split
    · next h =>
      rw [← List.nil_append [_], ofDigits_concat, toNat_digitChar_sub h, ofDigits_nil, Nat.zero_mul,
        Nat.zero_add]
    · next h =>
      have hlast : n % 10 < 10 := Nat.mod_lt _ (by decide)
      rw [ofDigits_concat, toNat_digitChar_sub hlast]
      have hrest : ofDigits (Nat.toDigits 10 (n / 10)) = n / 10 := ih (n / 10) (by omega)
      omega

/-! ## What the digits of a number look like -/

theorem isDigit_of_mem_digitsOf {n : Nat} {c : Char} (h : c ∈ digitsOf n) : isDigit c = true :=
  Nat.isDigit_of_mem_toDigits (by decide) (by decide) h

theorem digitsOf_ne_nil (n : Nat) : digitsOf n ≠ [] := Nat.toDigits_ne_nil

/-- A number is below the power of ten of its number of digits. -/
theorem lt_ten_pow_digitCount (n : Nat) : n < 10 ^ digitCount n :=
  (Nat.length_toDigits_le_iff (by decide) (List.length_pos_iff.mpr (digitsOf_ne_nil n))).mp
    (Nat.le_refl _)

theorem ten_pow_digitCount_le {n : Nat} (h : 0 < n) : 10 ^ (digitCount n - 1) ≤ n := by
  by_cases hone : digitCount n = 1
  · rw [hone]
    exact h
  · have hcount : 0 < digitCount n := List.length_pos_iff.mpr (digitsOf_ne_nil n)
    apply Nat.not_lt.mp
    intro hlt
    have hle := (Nat.length_toDigits_le_iff (by decide) (by omega)).mpr hlt
    change digitCount n ≤ digitCount n - 1 at hle
    omega

theorem length_digitsOf (n : Nat) : (digitsOf n).length = digitCount n := rfl

theorem worth_of_isDigit {c : Char} (h : isDigit c = true) : c.toNat - '0'.toNat ≤ 9 := by
  have hle : c.toNat ≤ '9'.toNat :=
    UInt32.le_iff_toNat_le.mp (of_decide_eq_true (Bool.and_eq_true_iff.mp h).2)
  have hvalues : '9'.toNat - '0'.toNat = 9 := rfl
  omega

/-- Digits stand for less than the power of ten of their number. -/
theorem ofDigits_lt (h : ∀ c ∈ digits, isDigit c = true) : ofDigits digits < 10 ^ digits.length := by
  induction digits with
  | nil => decide
  | cons c digits ih =>
    obtain ⟨hc, hdigits⟩ := List.forall_mem_cons.mp h
    have hlt := ih hdigits
    have hworth := Nat.mul_le_mul_right (10 ^ digits.length) (worth_of_isDigit hc)
    have happend := ofDigits_append [c] digits
    have hfirst : ofDigits [c] = c.toNat - '0'.toNat := Nat.zero_add _
    rw [hfirst] at happend
    rw [List.length_cons, Nat.pow_succ]
    calc ofDigits (c :: digits)
        = (c.toNat - '0'.toNat) * 10 ^ digits.length + ofDigits digits := happend
      _ < 10 ^ digits.length * 10 := by omega

theorem digitsOf_ne_zero_cons {n : Nat} (h : 0 < n) (rest : List Char) :
    digitsOf n ≠ '0' :: rest := by
  intro heq
  have hrest : ∀ c ∈ rest, isDigit c = true := fun c hc =>
    isDigit_of_mem_digitsOf (n := n) (by rw [heq]; exact List.mem_cons_of_mem _ hc)
  have hvalue : n = ofDigits rest := by
    have := ofDigits_zeros_append 1 rest
    rw [← this, ← ofDigits_digitsOf n, heq]
    rfl
  have hlength : digitCount n - 1 = rest.length := by
    rw [← length_digitsOf, heq, List.length_cons, Nat.add_sub_cancel]
  have hle := ten_pow_digitCount_le h
  have hlt := ofDigits_lt hrest
  rw [hlength] at hle
  omega

/-! ## Digits at the start of a text -/

/-- No digit stands at the start of the text. -/
def NoDigitFirst (text : List Char) : Prop := ∀ c ∈ text.head?, isDigit c = false

theorem noDigitFirst_cons {c : Char} (h : isDigit c = false) : NoDigitFirst (c :: rest) := by
  intro d hd
  cases hd
  exact h

/-- Digits followed by no digit are what a text starts with. -/
theorem spanDigits_of_digits (hdigits : ∀ c ∈ digits, isDigit c = true) (hrest : NoDigitFirst rest) :
    spanDigits (digits ++ rest) = (digits, rest) := by
  unfold spanDigits
  rw [List.takeWhile_append_of_pos hdigits, List.dropWhile_append_of_pos hdigits]
  cases rest with
  | nil => simp
  | cons c rest =>
    have hc : isDigit c = false := hrest c rfl
    rw [List.takeWhile_cons, List.dropWhile_cons, hc]
    simp

end LogSpool.Decimal
