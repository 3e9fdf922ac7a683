import LogSpool.Backend
import LogSpool.Proofs.Text.Blank
import LogSpool.Proofs.Text.Letters
set_option autoImplicit false

/-!
# Backends: the scheme and the rest

`Splits` says where a DSN is split: at the first separator.  The separator does not overlap with
itself, so this is the only place before which no separator stands whole, and neither blank
characters around the DSN nor the case of its letters move it.
-/

namespace LogSpool.Backend

open Text (SameLetter SameLetters isBlank dropEnd trim)

variable {text scheme other rest : List Char} {c : Char}

/-- A text is a scheme, a separator and the rest, and no separator stands further to the left. -/
structure Splits (text scheme rest : List Char) : Prop where
  parts : text = scheme ++ separator ++ rest
  first : ∀ earlier later, text = earlier ++ separator ++ later → scheme.length ≤ earlier.length

/-! ## The first separator -/

/-- A separator in a text that begins before another separator stands whole before it. -/
theorem infix_of_append_eq {earlier later : List Char}
    (h : earlier ++ separator ++ later = scheme ++ separator ++ rest)
    (hlength : earlier.length < scheme.length) : separator <:+: scheme := by
  rw [List.append_assoc, List.append_assoc] at h
  obtain ⟨between, rfl, hrest⟩ | ⟨between, rfl, -⟩ := List.append_eq_append_iff.mp h
  · match between, hrest with
    | [], _ => simp at hlength
    | [_], hrest => simp [separator] at hrest
    | [_, _], hrest => simp [separator] at hrest
    | a :: b :: c :: between, hrest =>
      obtain ⟨rfl, rfl, rfl, -⟩ : ':' = a ∧ '/' = b ∧ '/' = c ∧ later = between ++ (separator ++ rest) := by
        simpa [separator] using hrest
      exact ⟨earlier, between, by simp [separator]⟩
  · simp at hlength

theorem splits_iff :
    Splits text scheme rest ↔ text = scheme ++ separator ++ rest ∧ ¬ separator <:+: scheme := by
  constructor
  · rintro ⟨htext, hfirst⟩
    refine ⟨htext, ?_⟩
    rintro ⟨earlier, later, rfl⟩
    have hlength := hfirst earlier (later ++ separator ++ rest) (by rw [htext]; simp)
    simp [separator] at hlength
  · rintro ⟨rfl, hnone⟩
    refine ⟨rfl, fun earlier later h => ?_⟩
    by_contra hless
    exact hnone (infix_of_append_eq h.symm (Nat.lt_of_not_le hless))

/-- A text is split in one place only. -/
theorem Splits.unique {otherRest : List Char} (h : Splits text scheme rest)
    (hother : Splits text other otherRest) : scheme = other ∧ rest = otherRest := by
  have hlength := Nat.le_antisymm (h.first _ _ hother.parts) (hother.first _ _ h.parts)
  have hsame := h.parts.symm.trans hother.parts
  rw [List.append_assoc, List.append_assoc] at hsame
  obtain ⟨hscheme, hrest⟩ := List.append_inj hsame hlength
  exact ⟨hscheme, List.append_cancel_left hrest⟩

/-- A character before a text that no separator starts with belongs to the scheme. -/
theorem Splits.cons (h : Splits text scheme rest) (hnot : ¬ separator <+: c :: text) :
    Splits (c :: text) (c :: scheme) rest := by
  obtain ⟨rfl, hnone⟩ := splits_iff.mp h
  refine splits_iff.mpr ⟨rfl, fun hwithin => ?_⟩
  rcases List.infix_cons_iff.mp hwithin with hstarts | hwithin
  · have hwhole : separator <+: c :: scheme ++ (separator ++ rest) := hstarts.trans (List.prefix_append _ _)
    exact hnot (by simpa using hwhole)
  · exact hnone hwithin

theorem splits_of_splitScheme? (h : splitScheme? text = some (scheme, rest)) :
    Splits text scheme rest := by
  induction text generalizing scheme with
  | nil => cases h
  | cons c text ih =>
    unfold splitScheme? at h
    split at h
    · next hstarts =>
      cases h
      obtain ⟨later, hlater⟩ := List.isPrefixOf_iff_prefix.mp hstarts
      refine splits_iff.mpr ⟨?_, by simp [separator]⟩
      rw [← hlater]
      have hdrop := congrArg (List.drop 3) hlater
      simpa [separator] using hdrop
    · next hnot =>
      obtain ⟨⟨front, back⟩, hfound, heq⟩ := Option.map_eq_some_iff.mp h
      cases heq
      exact (ih hfound).cons fun hstarts => hnot (List.isPrefixOf_iff_prefix.mpr hstarts)

theorem splitScheme?_eq_none_iff : splitScheme? text = none ↔ ¬ separator <:+: text := by
  induction text with
  | nil => simp [splitScheme?, separator]
  | cons c text ih =>
    rw [splitScheme?, List.infix_cons_iff, not_or]
    split
    · next hstarts => simp [List.isPrefixOf_iff_prefix.mp hstarts]
    · next hnot =>
      have hstarts : ¬ separator <+: c :: text := fun h => hnot (List.isPrefixOf_iff_prefix.mpr h)
      rw [Option.map_eq_none_iff, ih]
      exact (and_iff_right hstarts).symm

theorem splitScheme?_eq_some_iff :
    splitScheme? text = some (scheme, rest) ↔ Splits text scheme rest := by
  refine ⟨splits_of_splitScheme?, fun h => ?_⟩
  cases hfound : splitScheme? text with
  | none => exact absurd ⟨scheme, rest, h.parts.symm⟩ (splitScheme?_eq_none_iff.mp hfound)
  | some parts =>
    obtain ⟨rfl, rfl⟩ := (splits_of_splitScheme? hfound).unique h
    rfl

/-! ## Blank characters and the case of letters -/

theorem not_isBlank_of_mem_separator (h : c ∈ separator) : isBlank c = false := by
  simp only [separator, List.mem_cons, List.not_mem_nil, or_false] at h
  rcases h with rfl | rfl | rfl <;> decide

/-- The blank characters around a DSN are those before its scheme and those after its rest. -/
theorem trim_of_parts (scheme rest : List Char) :
    trim (scheme ++ separator ++ rest) =
      scheme.dropWhile isBlank ++ separator ++ dropEnd isBlank rest := by
  obtain ⟨after, hafter, hblank⟩ := Text.exists_dropEnd_append isBlank rest
  have hfirst : ∀ c, (scheme.dropWhile isBlank ++ separator ++ dropEnd isBlank rest).head? = some c →
      isBlank c = false := by
    intro c hc
    rw [List.append_assoc, List.head?_append] at hc
    rcases Option.or_eq_some_iff.mp hc with hscheme | ⟨-, hsep⟩
    · exact Text.not_head?_dropWhile hscheme
    · exact not_isBlank_of_mem_separator (List.mem_of_mem_head? (by simpa [separator] using hsep))
  have hlast : ∀ c, (scheme.dropWhile isBlank ++ separator ++ dropEnd isBlank rest).getLast? = some c →
      isBlank c = false := by
    intro c hc
    rw [List.getLast?_append] at hc
    rcases Option.or_eq_some_iff.mp hc with hrest | ⟨-, hfront⟩
    · exact Text.not_getLast?_dropEnd hrest
    · rw [List.getLast?_append] at hfront
      exact not_isBlank_of_mem_separator (List.mem_of_getLast? (by simpa [separator] using hfront))
  refine Text.trim_eq_iff.mpr ⟨⟨scheme.takeWhile isBlank, after, ?_, ?_, hblank⟩, hfirst, hlast⟩
  · conv_lhs => rw [hafter, ← List.takeWhile_append_dropWhile (p := isBlank) (l := scheme)]
    simp only [List.append_assoc]
  · exact fun c hc => List.mem_takeWhile_imp hc

/-- A DSN is split in the same place when the blank characters around it are trimmed. -/
theorem Splits.trim (h : Splits text scheme rest) :
    Splits (Text.trim text) (scheme.dropWhile isBlank) (dropEnd isBlank rest) := by
  obtain ⟨rfl, hnone⟩ := splits_iff.mp h
  refine splits_iff.mpr ⟨trim_of_parts scheme rest, fun hwithin => hnone ?_⟩
  exact hwithin.trans (List.dropWhile_suffix _).isInfix

theorem eq_of_toLower_of_mem_separator (h : c.toLower ∈ separator) : c.toLower = c := by
  refine Char.toLower_eq_of_not_isUpper fun hupper => ?_
  have hlower := Char.isLower_toLower_eq_isAlpha c
  rw [Char.isAlpha, hupper, Bool.true_or] at hlower
  simp only [separator, List.mem_cons, List.not_mem_nil, or_false] at h
  rcases h with h | h | h <;> rw [h] at hlower <;> exact absurd hlower (by decide)

/-- The case of letters makes no separator. -/
theorem infix_of_sameLetters (h : SameLetters scheme other) (hwithin : separator <:+: other) :
    separator <:+: scheme := by
  obtain ⟨earlier, later, rfl⟩ := hwithin
  have hlower := Text.sameLetters_iff_toLower.mp h
  rw [List.map_append, List.map_append] at hlower
  obtain ⟨front, back, rfl, hfront, -⟩ := List.map_eq_append_iff.mp hlower
  obtain ⟨before, middle, rfl, -, hmiddle⟩ := List.map_eq_append_iff.mp hfront
  have hself : middle.map Char.toLower = middle := by
    refine (List.map_congr_left fun c hc => ?_).trans (List.map_id' _)
    have hmem : c.toLower ∈ separator.map Char.toLower := hmiddle ▸ List.mem_map_of_mem hc
    exact eq_of_toLower_of_mem_separator (by simpa [separator] using hmem)
  have hsep : middle = separator := by
    rw [← hself, hmiddle]
    decide
  exact ⟨before, back, by rw [hsep]⟩

/-- A DSN is split in the same place whatever the case of the letters of its scheme. -/
theorem Splits.of_sameLetters (h : Splits text scheme rest) (hsame : SameLetters scheme other) :
    Splits (other ++ separator ++ rest) other rest :=
  splits_iff.mpr ⟨rfl, fun hwithin => (splits_iff.mp h).2 (infix_of_sameLetters hsame hwithin)⟩

theorem not_isBlank_of_isAlpha (h : c.isAlpha = true) : isBlank c = false := by
  simp only [Char.isAlpha, Char.isUpper, Char.isLower, UInt32.le_iff_toNat_le, Char.toNat_val,
    Bool.or_eq_true, Bool.and_eq_true, decide_eq_true_eq, ge_iff_le, Char.reduceVal,
    UInt32.reduceToNat] at h
  simp only [isBlank, Bool.or_eq_false_iff, Bool.and_eq_false_iff, decide_eq_false_iff_not,
    beq_eq_false_iff_ne]
  omega

theorem isBlank_of_sameLetter {d : Char} (h : SameLetter c d) : isBlank c = isBlank d := by
  have hcapital : ∀ {c : Char}, c.isUpper = true → isBlank c = isBlank c.toLower := by
    intro c hupper
    have halpha : c.isAlpha = true := by rw [Char.isAlpha, hupper, Bool.true_or]
    have hlower : c.toLower.isAlpha = true := by rw [Char.isAlpha_toLower_eq_isAlpha, halpha]
    rw [not_isBlank_of_isAlpha halpha, not_isBlank_of_isAlpha hlower]
  cases h with
  | same => rfl
  | lower hupper => exact hcapital hupper
  | upper hupper => exact (hcapital hupper).symm

theorem sameLetters_dropWhile (h : SameLetters scheme other) :
    SameLetters (scheme.dropWhile isBlank) (other.dropWhile isBlank) := by
  induction h with
  | nil => exact .nil
  | @cons c d scheme other hletter hrest ih =>
    rw [List.dropWhile_cons, List.dropWhile_cons, isBlank_of_sameLetter hletter]
    split
    · exact ih
    · exact .cons hletter hrest

end LogSpool.Backend
