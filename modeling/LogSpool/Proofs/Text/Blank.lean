import LogSpool.Text.Blank
import Mathlib.Data.List.DropRight
set_option autoImplicit false

/-!
# Text: what trimming leaves

`TrimsTo` says what a text is without the blank characters at both ends, and `trim_eq_iff` that
this is what trimming gives.  An ending is dropped as far as its characters satisfy a test, and no
further (`dropEnd_eq_iff`).
-/

namespace LogSpool.Text

variable {p : Char → Bool} {text core tail before after : List Char}

/-! ## Endings -/

theorem exists_dropEnd_append (p : Char → Bool) (text : List Char) :
    ∃ tail, text = dropEnd p text ++ tail ∧ ∀ c ∈ tail, p c = true :=
  ⟨text.rtakeWhile p, List.rdropWhile_append_rtakeWhile.symm, fun _ hc => List.mem_rtakeWhile_imp hc⟩

theorem not_getLast?_dropEnd {c : Char} (h : (dropEnd p text).getLast? = some c) : p c = false := by
  obtain ⟨hne, hlast⟩ := List.mem_getLast?_eq_getLast h
  have hnot := List.rdropWhile_last_not p text hne
  exact Bool.eq_false_iff.mpr (hlast.symm ▸ hnot)

theorem dropEnd_append (htail : ∀ c ∈ tail, p c = true) :
    dropEnd p (core ++ tail) = dropEnd p core := by
  have hreverse : ∀ c ∈ tail.reverse, p c = true := fun c hc => htail c (List.mem_reverse.mp hc)
  unfold dropEnd
  rw [List.reverse_append, List.dropWhile_append_of_pos hreverse]

theorem dropEnd_eq_self (hlast : ∀ c, core.getLast? = some c → p c = false) :
    dropEnd p core = core := by
  refine List.rdropWhile_eq_self_iff.mpr fun hne => ?_
  rw [hlast _ (List.getLast?_eq_some_getLast hne)]
  exact Bool.false_ne_true

/-- An ending is dropped as far as its characters satisfy a test, and no further. -/
theorem dropEnd_eq_iff : dropEnd p text = core ↔
    (∃ tail, text = core ++ tail ∧ ∀ c ∈ tail, p c = true) ∧
      ∀ c, core.getLast? = some c → p c = false := by
  constructor
  · rintro rfl
    exact ⟨exists_dropEnd_append p text, fun c => not_getLast?_dropEnd⟩
  · rintro ⟨⟨tail, rfl, htail⟩, hlast⟩
    rw [dropEnd_append htail, dropEnd_eq_self hlast]

theorem dropEnd_eq_nil_iff : dropEnd p text = [] ↔ ∀ c ∈ text, p c = true :=
  List.rdropWhile_eq_nil_iff

/-! ## Both ends -/

/-- A text is blank characters, what it is without them, and blank characters again. -/
structure TrimsTo (text core : List Char) : Prop where
  parts : ∃ before after, text = before ++ core ++ after ∧ (∀ c ∈ before, isBlank c = true) ∧
    ∀ c ∈ after, isBlank c = true
  first : ∀ c, core.head? = some c → isBlank c = false
  last : ∀ c, core.getLast? = some c → isBlank c = false

theorem not_head?_dropWhile {c : Char} (h : (text.dropWhile p).head? = some c) : p c = false := by
  have hnot := List.head?_dropWhile_not p text
  rwa [h] at hnot

/-- Trimming leaves what a text is without the blank characters at both ends. -/
theorem trimsTo_trim (text : List Char) : TrimsTo text (trim text) := by
  obtain ⟨after, hafter, hblank⟩ := exists_dropEnd_append isBlank (text.dropWhile isBlank)
  refine ⟨⟨text.takeWhile isBlank, after, ?_, fun c hc => ?_, hblank⟩, fun c hc => ?_,
    fun c => not_getLast?_dropEnd⟩
  · rw [List.append_assoc, trim, ← hafter, List.takeWhile_append_dropWhile]
  · exact List.mem_takeWhile_imp hc
  · -- What trimming leaves starts as the text does without the blank characters before it.
    refine not_head?_dropWhile (?_ : (text.dropWhile isBlank).head? = some c)
    rw [hafter, List.head?_append]
    exact Option.or_eq_some_iff.mpr (.inl hc)

/-- Trimming a text that starts with no blank character drops what is blank at its end. -/
theorem trim_append (hfirst : ∀ c, core.head? = some c → isBlank c = false)
    (hlast : ∀ c, core.getLast? = some c → isBlank c = false)
    (hafter : ∀ c ∈ after, isBlank c = true) : trim (core ++ after) = core := by
  unfold trim
  cases core with
  | nil =>
    rw [List.nil_append, List.dropWhile_eq_nil_iff.mpr hafter]
    rfl
  | cons c rest =>
    have hc : ¬ isBlank c = true := Bool.eq_false_iff.mp (hfirst c rfl)
    rw [List.cons_append, List.dropWhile_cons_of_neg hc, ← List.cons_append, dropEnd_append hafter,
      dropEnd_eq_self hlast]

theorem trim_blank_append (hbefore : ∀ c ∈ before, isBlank c = true) (text : List Char) :
    trim (before ++ text) = trim text := by
  unfold trim
  rw [List.dropWhile_append_of_pos hbefore]

theorem trim_eq_iff : trim text = core ↔ TrimsTo text core := by
  constructor
  · rintro rfl
    exact trimsTo_trim text
  · rintro ⟨⟨before, after, rfl, hbefore, hafter⟩, hfirst, hlast⟩
    rw [List.append_assoc, trim_blank_append hbefore, trim_append hfirst hlast hafter]

/-- Blank characters around a text make no difference. -/
theorem trim_surrounded (hbefore : ∀ c ∈ before, isBlank c = true)
    (hafter : ∀ c ∈ after, isBlank c = true) (text : List Char) :
    trim (before ++ text ++ after) = trim text := by
  obtain ⟨⟨front, back, htext, hfront, hback⟩, hfirst, hlast⟩ := trimsTo_trim text
  refine trim_eq_iff.mpr ⟨⟨before ++ front, back ++ after, ?_, ?_, ?_⟩, hfirst, hlast⟩
  · conv_lhs => rw [htext]
    simp only [List.append_assoc]
  · exact fun c hc => (List.mem_append.mp hc).elim (hbefore c) (hfront c)
  · exact fun c hc => (List.mem_append.mp hc).elim (hback c) (hafter c)

theorem trim_eq_self (hfirst : ∀ c, core.head? = some c → isBlank c = false)
    (hlast : ∀ c, core.getLast? = some c → isBlank c = false) : trim core = core := by
  have h := trim_append hfirst hlast (List.forall_mem_nil _)
  rwa [List.append_nil] at h

@[simp] theorem trim_trim (text : List Char) : trim (trim text) = trim text :=
  trim_eq_self (trimsTo_trim text).first (trimsTo_trim text).last

end LogSpool.Text
