set_option autoImplicit false

/-!
# Decimal: digits

The decimal digits at the start of a text, and the number that digits stand for.
-/

namespace LogSpool.Decimal

/-- The character is an ASCII digit. -/
def isDigit (c : Char) : Bool := '0' ≤ c && c ≤ '9'

/-- The digits at the start of a text, and what follows. -/
def spanDigits (text : List Char) : List Char × List Char :=
  (text.takeWhile isDigit, text.dropWhile isDigit)

/-- The number that some digits stand for. -/
def ofDigits (digits : List Char) : Nat :=
  digits.foldl (fun n c => n * 10 + (c.toNat - '0'.toNat)) 0

theorem spanDigits_append (text : List Char) :
    (spanDigits text).1 ++ (spanDigits text).2 = text :=
  List.takeWhile_append_dropWhile

theorem isDigit_of_mem_spanDigits {text : List Char} {c : Char}
    (h : c ∈ (spanDigits text).1) : isDigit c = true := by
  have := List.all_takeWhile (p := isDigit) (l := text)
  rw [List.all_eq_true] at this
  exact this c h

end LogSpool.Decimal
