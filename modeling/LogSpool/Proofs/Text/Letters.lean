import Mathlib
set_option autoImplicit false

/-!
# Text: letters in either case

`SameLetter` says which characters are the same but for ASCII case: a character and itself, and
the twenty-six pairs of letters.  These are the characters that are the same in lower case, and
those that are the same in upper case; the letters of other scripts have no part in it.
-/

namespace LogSpool.Text

variable {c d : Char} {text other : List Char}

/-- The same character, or the same ASCII letter in the other case. -/
inductive SameLetter : Char → Char → Prop where
  | same (c : Char) : SameLetter c c
  | lower {c : Char} (hupper : c.isUpper = true) : SameLetter c c.toLower
  | upper {c : Char} (hupper : c.isUpper = true) : SameLetter c.toLower c

/-- Texts that are the same letter by letter but for ASCII case. -/
def SameLetters (text other : List Char) : Prop := List.Forall₂ SameLetter text other

/-- Two characters that are the same in lower case are so in upper case. -/
theorem toUpper_eq_of_toLower_eq (h : c.toLower = d.toLower) : c.toUpper = d.toUpper := by
  rw [← Char.toUpper_toLower_eq_toUpper c, h, Char.toUpper_toLower_eq_toUpper]

theorem toUpper_of_isUpper (h : c.isUpper = true) : c.toUpper = c :=
  Char.toUpper_eq_of_not_isLower (Char.not_isLower_of_isUpper h)

theorem sameLetter_iff_toLower : SameLetter c d ↔ c.toLower = d.toLower := by
  constructor
  · rintro (_ | _ | _)
    · rfl
    · exact (Char.toLower_toLower_eq_toLower c).symm
    · exact Char.toLower_toLower_eq_toLower d
  · intro h
    by_cases hc : c.isUpper = true <;> by_cases hd : d.isUpper = true
    · have hupper := toUpper_eq_of_toLower_eq h
      rw [toUpper_of_isUpper hc, toUpper_of_isUpper hd] at hupper
      exact hupper ▸ .same c
    · rw [Char.toLower_eq_of_not_isUpper hd] at h
      exact h ▸ .lower hc
    · rw [Char.toLower_eq_of_not_isUpper hc] at h
      exact h ▸ .upper hd
    · rw [Char.toLower_eq_of_not_isUpper hc, Char.toLower_eq_of_not_isUpper hd] at h
      exact h ▸ .same c

theorem sameLetter_iff_toUpper : SameLetter c d ↔ c.toUpper = d.toUpper := by
  rw [sameLetter_iff_toLower]
  refine ⟨toUpper_eq_of_toLower_eq, fun h => ?_⟩
  rw [← Char.toLower_toUpper_eq_toLower c, h, Char.toLower_toUpper_eq_toLower]

theorem sameLetters_iff_map {f : Char → Char} (hf : ∀ c d, SameLetter c d ↔ f c = f d) :
    SameLetters text other ↔ text.map f = other.map f := by
  have hsame : SameLetter = fun c d => f c = f d := funext₂ fun c d => propext (hf c d)
  rw [SameLetters, hsame, ← List.forall₂_eq_eq_eq, List.forall₂_map_left_iff,
    List.forall₂_map_right_iff]

/-- Two texts are the same but for case if they are the same in lower case. -/
theorem sameLetters_iff_toLower :
    SameLetters text other ↔ text.map Char.toLower = other.map Char.toLower :=
  sameLetters_iff_map fun _ _ => sameLetter_iff_toLower

theorem sameLetters_iff_toUpper :
    SameLetters text other ↔ text.map Char.toUpper = other.map Char.toUpper :=
  sameLetters_iff_map fun _ _ => sameLetter_iff_toUpper

end LogSpool.Text
