import LogSpool.Environment.Reading
import LogSpool.Proofs.Decimal.Digits
import LogSpool.Proofs.Text.Letters
set_option autoImplicit false

/-!
# Environment: what can be read

The texts that stand for numbers, switches and severities, each kind described by what its texts
look like.  A reader reads the texts of its kind with the values they stand for, and no others: a
number may have zeros and one plus sign before it but not too large a value, a switch is one of two
words, and a severity has a name in any case and a numeral, which no name is.
-/

namespace LogSpool.Reading

variable {text : List Char} {bound n : Nat} {s : Severity} {b : Bool}

/-- Digits, one at least, after one plus sign or none, which stand for a number below the bound. -/
structure Numeral (bound : Nat) (text : List Char) (n : Nat) : Prop where
  parts : ∃ digits, (text = digits ∨ text = '+' :: digits) ∧ digits ≠ [] ∧
    (∀ c ∈ digits, Decimal.isDigit c = true) ∧ Decimal.ofDigits digits = n
  bounded : n < bound

/-- The two words for a switch. -/
inductive Word : List Char → Bool → Prop where
  | on : Word "true".toList true
  | off : Word "false".toList false

/-- The texts that stand for a severity: its name in any case, and the numerals of its place. -/
inductive Level : List Char → Severity → Prop where
  | named {text : List Char} {s : Severity} (h : Text.SameLetters text s.name.toList) : Level text s
  | placed {text : List Char} {s : Severity} (h : Numeral (Nat.pow 2 64) text s.rank) : Level text s

/-! ## Numbers -/

theorem digit?_eq (c : Char) :
    digit? c = if Decimal.isDigit c = true then some (c.toNat - '0'.toNat) else none := by
  simp only [digit?, Decimal.isDigit, Bool.and_eq_true, decide_eq_true_eq]

/-- Digits are read one by one, each making tenfold what the ones before it stand for. -/
theorem foldlM_digit?_eq_some_iff (value : Nat) :
    text.foldlM (fun value c => (digit? c).map (value * 10 + ·)) value = some n ↔
      (∀ c ∈ text, Decimal.isDigit c = true) ∧
        text.foldl (fun value c => value * 10 + (c.toNat - '0'.toNat)) value = n := by
  induction text generalizing value with
  | nil => simp
  | cons c text ih =>
    rw [List.foldlM_cons, List.foldl_cons, List.forall_mem_cons, digit?_eq]
    by_cases hc : Decimal.isDigit c = true
    · rw [if_pos hc, Option.map_some]
      exact (ih _).trans (by rw [and_iff_right hc])
    · simp [hc]

theorem digits?_eq_some_iff :
    digits? text = some n ↔
      text ≠ [] ∧ (∀ c ∈ text, Decimal.isDigit c = true) ∧ Decimal.ofDigits text = n := by
  unfold digits?
  by_cases hsome : text = []
  · subst hsome
    simp
  · rw [if_neg (by rwa [List.isEmpty_iff]), foldlM_digit?_eq_some_iff, and_iff_right hsome,
      Decimal.ofDigits]

theorem not_isDigit_plus : ¬ Decimal.isDigit '+' = true := by decide

theorem natural?_eq_some_iff : natural? bound text = some n ↔ Numeral bound text n := by
  unfold natural?
  simp only [Option.filter_eq_some_iff, decide_eq_true_eq, digits?_eq_some_iff]
  split
  · next rest =>
    constructor
    · rintro ⟨⟨hsome, hdigits, hworth⟩, hbound⟩
      exact ⟨⟨rest, .inr rfl, hsome, hdigits, hworth⟩, hbound⟩
    · rintro ⟨⟨digits, hdigits | hdigits, hsome, hall, hworth⟩, hbound⟩
      · exact absurd (hall '+' (hdigits ▸ List.mem_cons_self)) not_isDigit_plus
      · cases hdigits
        exact ⟨⟨hsome, hall, hworth⟩, hbound⟩
  · next hunsigned =>
    constructor
    · rintro ⟨⟨hsome, hdigits, hworth⟩, hbound⟩
      exact ⟨⟨text, .inl rfl, hsome, hdigits, hworth⟩, hbound⟩
    · rintro ⟨⟨digits, rfl | hsigned, hsome, hall, hworth⟩, hbound⟩
      · exact ⟨⟨hsome, hall, hworth⟩, hbound⟩
      · exact absurd hsigned (hunsigned digits)

/-! ## Switches -/

theorem switch?_eq_some_iff : switch? text = some b ↔ Word text b := by
  unfold switch?
  constructor
  · intro h
    split at h
    · next htrue =>
      cases h
      exact htrue ▸ .on
    split at h
    · next hfalse =>
      cases h
      exact hfalse ▸ .off
    · cases h
  · rintro (_ | _) <;> rfl

/-! ## Severities -/

theorem ofRank?_eq_some_iff : Severity.ofRank? n = some s ↔ n = s.rank := by
  refine ⟨fun h => ?_, fun h => h ▸ Severity.ofRank?_rank s⟩
  have hrank := List.find?_some h
  exact (eq_of_beq hrank).symm

theorem find?_name_eq_some_iff :
    (Severity.all.find? fun s => s.name.toList == text) = some s ↔ text = s.name.toList := by
  constructor
  · intro h
    have hname := List.find?_some h
    exact (eq_of_beq hname).symm
  · rintro rfl
    cases s <;> rfl

/-- The characters of a numeral have no case. -/
theorem Numeral.map_toUpper (h : Numeral bound text n) : text.map Char.toUpper = text := by
  obtain ⟨⟨digits, htext, -, hdigits, -⟩, -⟩ := h
  have hdigit : ∀ c ∈ digits, c.toUpper = c := fun c hc => by
    refine Char.toUpper_eq_of_not_isLower fun hlower => ?_
    have hleast := (Bool.and_eq_true_iff.mp hlower).1
    have hmost := (Bool.and_eq_true_iff.mp (hdigits c hc)).2
    exact absurd (le_trans (of_decide_eq_true hleast) (of_decide_eq_true hmost)) (by decide)
  have hmap : digits.map Char.toUpper = digits := by
    rw [List.map_congr_left hdigit, List.map_id']
  rcases htext with rfl | rfl
  · exact hmap
  · rw [List.map_cons, hmap]
    rfl

/-- No name of a severity is a numeral, in any case. -/
theorem not_numeral_of_named (h : Text.SameLetters text s.name.toList) : ¬ Numeral bound text n := by
  intro hnumeral
  have hupper := Text.sameLetters_iff_toUpper.mp h
  have hname : s.name.toList.map Char.toUpper = s.name.toList := by cases s <;> rfl
  rw [hnumeral.map_toUpper, hname] at hupper
  have hread := natural?_eq_some_iff.mpr hnumeral
  rw [hupper] at hread
  cases s <;> cases hread

/-- Names and numerals of severities are read as the severities. -/
theorem severity?_eq_some_iff : severity? text = some s ↔ Level text s := by
  have hplaced : ∀ {s}, (natural? (Nat.pow 2 64) text).bind Severity.ofRank? = some s ↔
      Numeral (Nat.pow 2 64) text s.rank := by
    intro s
    simp [Option.bind_eq_some_iff, ofRank?_eq_some_iff, natural?_eq_some_iff]
  have hnamed : ∀ {s}, (Severity.all.find? fun s => s.name.toList == text.map Char.toUpper) = some s ↔
      Text.SameLetters text s.name.toList := by
    intro s
    have hname : s.name.toList.map Char.toUpper = s.name.toList := by cases s <;> rfl
    rw [find?_name_eq_some_iff, Text.sameLetters_iff_toUpper, hname]
  unfold severity?
  split
  · next other hother =>
    refine ⟨fun h => ?_, ?_⟩
    · cases h
      exact .placed (hplaced.mp hother)
    · rintro (hsame | hnumeral)
      · exact absurd (hplaced.mp hother) (not_numeral_of_named hsame)
      · rw [← hother]
        exact hplaced.mpr hnumeral
  · next hnone =>
    refine ⟨fun h => .named (hnamed.mp h), ?_⟩
    rintro (hsame | hnumeral)
    · exact hnamed.mpr hsame
    · rw [hplaced.mpr hnumeral] at hnone
      cases hnone

end LogSpool.Reading
