import LogSpool.Proofs.Decimal.Digits
import LogSpool.Proofs.Json.Grammar
set_option autoImplicit false

/-!
# Json: numbers are read as the grammar has them

One lemma in either direction for each part of a number.  A number is read whole before
everything that does not go on with it: a digit, a point or the letter of an exponent.
-/

namespace LogSpool.Json

open LogSpool.Decimal (isDigit spanDigits ofDigits spanDigits_append isDigit_of_mem_spanDigits
  NoDigitFirst noDigitFirst_cons spanDigits_of_digits)

/-- The text does not go on with a number. -/
def NumberEnds (text : List Char) : Prop :=
  ∀ c ∈ text.head?, isDigit c = false ∧ c ≠ '.' ∧ c ≠ 'e' ∧ c ≠ 'E'

theorem numberEnds_nil : NumberEnds [] := by
  intro c hc
  cases hc

theorem numberEnds_cons {c : Char} {text : List Char}
    (h : isDigit c = false ∧ c ≠ '.' ∧ c ≠ 'e' ∧ c ≠ 'E') : NumberEnds (c :: text) := by
  intro d hd
  cases hd
  exact h

/-- The text goes on neither with digits nor with a fraction. -/
def WholeEnds (text : List Char) : Prop := NoDigitFirst text ∧ text.head? ≠ some '.'

/-- The text goes on neither with digits nor with an exponent. -/
def FractionEnds (text : List Char) : Prop :=
  NoDigitFirst text ∧ text.head? ≠ some 'e' ∧ text.head? ≠ some 'E'

theorem head?_ne_of_isDigits {digits rest : List Char} (h : IsDigits digits) {c : Char}
    (hc : isDigit c = false) : (digits ++ rest).head? ≠ some c := by
  obtain ⟨d, more, rfl⟩ := List.exists_cons_of_ne_nil h.nonempty
  intro heq
  have hd := h.digit d List.mem_cons_self
  rw [Option.some.inj heq, hc] at hd
  cases hd

/-! ## Digits -/

/-- Digits at the start of a text, at least one. -/
def readDigits? : Reads (List Char) := fun text =>
  if (spanDigits text).1.isEmpty then none else some (spanDigits text)

/-- Digits are read before no digit. -/
theorem complete_readDigits? :
    Complete (fun text digits => digits = text ∧ IsDigits text) NoDigitFirst readDigits? := by
  rintro text rest digits ⟨rfl, h⟩ hrest
  unfold readDigits?
  rw [spanDigits_of_digits h.digit hrest, if_neg]
  rw [List.isEmpty_iff]
  exact h.nonempty

theorem sound_readDigits? : Sound (fun text digits => digits = text ∧ IsDigits text) readDigits? := by
  intro text rest digits h
  unfold readDigits? at h
  split at h
  · cases h
  · next hsome =>
    have hspan := spanDigits_append text
    rw [Option.some.inj h] at hsome hspan
    refine ⟨digits, hspan.symm, rfl, fun hnil => hsome (List.isEmpty_iff.mpr hnil), ?_⟩
    intro c hc
    have hmem : c ∈ (spanDigits text).1 := by rwa [Option.some.inj h]
    exact isDigit_of_mem_spanDigits hmem

/-- What is made of digits that were read is made of digits. -/
theorem exists_digits_of_map {α : Type} (f : List Char → α) {text rest : List Char} {x : α}
    (h : (readDigits? text).map (fun r => (f r.1, r.2)) = some (x, rest)) :
    ∃ digits, text = digits ++ rest ∧ IsDigits digits ∧ x = f digits := by
  obtain ⟨⟨digits, after⟩, hread, heq⟩ := Option.map_eq_some_iff.mp h
  cases heq
  obtain ⟨_, htext, rfl, hdigits⟩ := sound_readDigits? hread
  exact ⟨digits, htext, hdigits, rfl⟩

/-! ## The parts of a number -/

theorem readWhole?_eq (text : List Char) : readWhole? text = (readDigits? text).bind fun r =>
    if 1 < r.1.length && r.1.head? == some '0' then none else some r := by
  unfold readWhole? readDigits?
  obtain ⟨digits, rest⟩ := spanDigits text
  dsimp only
  cases digits.isEmpty <;> rfl

theorem complete_readWhole? :
    Complete (fun text digits => digits = text ∧ IsWhole text) NoDigitFirst readWhole? := by
  rintro text rest digits ⟨rfl, h⟩ hrest
  rw [readWhole?_eq, complete_readDigits? ⟨rfl, h.toIsDigits⟩ hrest, Option.bind_some, if_neg]
  rw [Bool.and_eq_true, decide_eq_true_eq, beq_iff_eq]
  rintro ⟨hlength, hzero⟩
  obtain ⟨more, rfl⟩ := List.head?_eq_some_iff.mp hzero
  rw [h.noZeroFirst more rfl] at hlength
  exact absurd hlength (Nat.lt_irrefl 1)

theorem sound_readWhole? : Sound (fun text digits => digits = text ∧ IsWhole text) readWhole? := by
  intro text rest digits h
  rw [readWhole?_eq] at h
  obtain ⟨r, hread, h⟩ := Option.bind_eq_some_iff.mp h
  split at h
  · cases h
  · next hwhole =>
    cases h
    obtain ⟨t, htext, rfl, hdigits⟩ := sound_readDigits? hread
    refine ⟨_, htext, rfl, hdigits, ?_⟩
    rintro more rfl
    cases more with
    | nil => rfl
    | cons => exact absurd rfl hwhole

theorem readFraction?_point (text : List Char) :
    readFraction? ('.' :: text) = (readDigits? text).map fun r => (some r.1, r.2) := by
  unfold readDigits?
  rw [apply_ite (Option.map _)]
  rfl

theorem readFraction?_of_ne {text : List Char} (h : text.head? ≠ some '.') :
    readFraction? text = some (none, text) := by
  unfold readFraction?
  split
  · exact absurd rfl h
  · rfl

/-- The fraction is read where it ends. -/
theorem complete_readFraction? : Complete IsFraction WholeEnds readFraction? := by
  rintro text rest places h ⟨hdigit, hpoint⟩
  cases h with
  | none => exact readFraction?_of_ne hpoint
  | some hdigits =>
    rw [List.cons_append, readFraction?_point, complete_readDigits? ⟨rfl, hdigits⟩ hdigit]
    rfl

theorem sound_readFraction? : Sound IsFraction readFraction? := by
  intro text rest places h
  by_cases hpoint : text.head? = some '.'
  · obtain ⟨after, rfl⟩ := List.head?_eq_some_iff.mp hpoint
    rw [readFraction?_point] at h
    obtain ⟨digits, rfl, hdigits, rfl⟩ := exists_digits_of_map some h
    exact ⟨'.' :: digits, rfl, .some hdigits⟩
  · rw [readFraction?_of_ne hpoint] at h
    cases h
    exact ⟨[], rfl, .none⟩

theorem readSigned?_minus (text : List Char) :
    readSigned? ('-' :: text) = (readDigits? text).map fun r => (-(ofDigits r.1 : Int), r.2) := by
  unfold readDigits?
  rw [apply_ite (Option.map _)]
  rfl

theorem readSigned?_plus (text : List Char) :
    readSigned? ('+' :: text) = (readDigits? text).map fun r => ((ofDigits r.1 : Int), r.2) := by
  unfold readDigits?
  rw [apply_ite (Option.map _)]
  rfl

theorem readSigned?_of_ne {text : List Char} (hminus : text.head? ≠ some '-')
    (hplus : text.head? ≠ some '+') :
    readSigned? text = (readDigits? text).map fun r => ((ofDigits r.1 : Int), r.2) := by
  unfold readSigned? readDigits?
  dsimp only
  split
  · exact absurd rfl hminus
  · exact absurd rfl hplus
  · rw [apply_ite (Option.map _)]
    rfl

theorem complete_readSigned? : Complete IsSigned NoDigitFirst readSigned? := by
  intro text rest e h hrest
  cases h with
  | bare hdigits =>
    rw [readSigned?_of_ne (head?_ne_of_isDigits hdigits (by decide))
      (head?_ne_of_isDigits hdigits (by decide)), complete_readDigits? ⟨rfl, hdigits⟩ hrest]
    rfl
  | plus hdigits =>
    rw [List.cons_append, readSigned?_plus, complete_readDigits? ⟨rfl, hdigits⟩ hrest]
    rfl
  | minus hdigits =>
    rw [List.cons_append, readSigned?_minus, complete_readDigits? ⟨rfl, hdigits⟩ hrest]
    rfl

theorem sound_readSigned? : Sound IsSigned readSigned? := by
  intro text rest e h
  by_cases hminus : text.head? = some '-'
  · obtain ⟨after, rfl⟩ := List.head?_eq_some_iff.mp hminus
    rw [readSigned?_minus] at h
    obtain ⟨digits, rfl, hdigits, rfl⟩ := exists_digits_of_map (fun digits => -(ofDigits digits : Int)) h
    exact ⟨'-' :: digits, rfl, .minus hdigits⟩
  · by_cases hplus : text.head? = some '+'
    · obtain ⟨after, rfl⟩ := List.head?_eq_some_iff.mp hplus
      rw [readSigned?_plus] at h
      obtain ⟨digits, rfl, hdigits, rfl⟩ := exists_digits_of_map (fun digits => (ofDigits digits : Int)) h
      exact ⟨'+' :: digits, rfl, .plus hdigits⟩
    · rw [readSigned?_of_ne hminus hplus] at h
      obtain ⟨digits, rfl, hdigits, rfl⟩ := exists_digits_of_map (fun digits => (ofDigits digits : Int)) h
      exact ⟨digits, rfl, .bare hdigits⟩

theorem readExponent?_letter {c : Char} (hc : c = 'e' ∨ c = 'E') (text : List Char) :
    readExponent? (c :: text) = (readSigned? text).map fun r => (some r.1, r.2) := by
  obtain rfl | rfl := hc <;> rfl

theorem readExponent?_of_ne {text : List Char} (hlower : text.head? ≠ some 'e')
    (hupper : text.head? ≠ some 'E') : readExponent? text = some (none, text) := by
  unfold readExponent?
  split
  · exact absurd rfl hlower
  · exact absurd rfl hupper
  · rfl

theorem complete_readExponent? : Complete IsExponent FractionEnds readExponent? := by
  rintro text rest e h ⟨hdigit, hlower, hupper⟩
  cases h with
  | none => exact readExponent?_of_ne hlower hupper
  | some hc hsigned =>
    rw [List.cons_append, readExponent?_letter hc, complete_readSigned? hsigned hdigit]
    rfl

theorem sound_readExponent? : Sound IsExponent readExponent? := by
  intro text rest e h
  cases text with
  | nil =>
    cases h
    exact ⟨[], rfl, .none⟩
  | cons c after =>
    by_cases hc : c = 'e' ∨ c = 'E'
    · rw [readExponent?_letter hc] at h
      obtain ⟨⟨digits, rest⟩, hread, heq⟩ := Option.map_eq_some_iff.mp h
      cases heq
      obtain ⟨t, rfl, hsigned⟩ := sound_readSigned? hread
      exact ⟨c :: t, rfl, .some hc hsigned⟩
    · obtain ⟨hlower, hupper⟩ := not_or.mp hc
      have hnone : readExponent? (c :: after) = some (none, c :: after) :=
        readExponent?_of_ne (mt Option.some.inj hlower) (mt Option.some.inj hupper)
      rw [hnone] at h
      cases h
      exact ⟨[], rfl, .none⟩

/-! ## The number -/

theorem readMinus_append {sign whole rest : List Char} {negative : Bool} (hsign : IsMinus sign negative)
    (hwhole : IsDigits whole) : readMinus (sign ++ (whole ++ rest)) = (negative, whole ++ rest) := by
  cases hsign with
  | minus => rfl
  | plus =>
    rw [List.nil_append]
    unfold readMinus
    split
    · next heq => exact absurd (congrArg List.head? heq) (head?_ne_of_isDigits hwhole (by decide))
    · rfl

theorem isMinus_readMinus (text : List Char) :
    ∃ sign, text = sign ++ (readMinus text).2 ∧ IsMinus sign (readMinus text).1 := by
  unfold readMinus
  split
  · exact ⟨['-'], rfl, .minus⟩
  · exact ⟨[], rfl, .plus⟩

/-- After the digits before the point a fraction, an exponent or the end of the number comes. -/
theorem ends_of_numberEnds {exponent rest : List Char} {e : Option Int} (h : IsExponent exponent e)
    (hrest : NumberEnds rest) : WholeEnds (exponent ++ rest) := by
  cases h with
  | none =>
    refine ⟨fun c hc => (hrest c hc).1, fun hpoint => ?_⟩
    exact (hrest '.' hpoint).2.1 rfl
  | some hc =>
    obtain rfl | rfl := hc
    · exact ⟨noDigitFirst_cons (by decide), fun heq => absurd (Option.some.inj heq) (by decide)⟩
    · exact ⟨noDigitFirst_cons (by decide), fun heq => absurd (Option.some.inj heq) (by decide)⟩

/-- A number is read whole before everything that does not go on with it. -/
theorem complete_readNumber? : Complete IsNumber NumberEnds readNumber? := by
  intro text rest v h hrest
  obtain @⟨sign, whole, fraction, exponent, negative, places, e, hsign, hwhole, hfraction, hexponent⟩ := h
  have hends := ends_of_numberEnds hexponent hrest
  have hstops : FractionEnds rest :=
    ⟨fun c hc => (hrest c hc).1, fun heq => (hrest 'e' heq).2.2.1 rfl,
      fun heq => (hrest 'E' heq).2.2.2 rfl⟩
  have hpoint : NoDigitFirst (fraction ++ (exponent ++ rest)) := by
    cases hfraction with
    | none => exact hends.1
    | some => exact noDigitFirst_cons (by decide)
  unfold readNumber?
  simp only [List.append_assoc, readMinus_append hsign hwhole.toIsDigits,
    complete_readWhole? ⟨rfl, hwhole⟩ hpoint, complete_readFraction? hfraction hends,
    complete_readExponent? hexponent hstops, Option.bind_eq_bind, Option.bind_some, Option.pure_def]

/-- What is read as a number is one. -/
theorem sound_readNumber? : Sound IsNumber readNumber? := by
  intro text rest v h
  obtain ⟨sign, htext, hsign⟩ := isMinus_readMinus text
  unfold readNumber? at h
  generalize readMinus text = minus at *
  obtain ⟨negative, afterSign⟩ := minus
  obtain ⟨⟨whole, afterWhole⟩, hreadWhole, h⟩ := Option.bind_eq_some_iff.mp h
  obtain ⟨⟨places, afterFraction⟩, hreadFraction, h⟩ := Option.bind_eq_some_iff.mp h
  obtain ⟨⟨e, afterExponent⟩, hreadExponent, h⟩ := Option.bind_eq_some_iff.mp h
  cases h
  obtain ⟨_, rfl, rfl, hwhole⟩ := sound_readWhole? hreadWhole
  obtain ⟨fraction, rfl, hfraction⟩ := sound_readFraction? hreadFraction
  obtain ⟨exponent, rfl, hexponent⟩ := sound_readExponent? hreadExponent
  refine ⟨_, ?_, .mk hsign hwhole hfraction hexponent⟩
  rw [htext]
  simp only [List.append_assoc]

end LogSpool.Json
