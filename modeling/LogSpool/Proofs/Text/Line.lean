import LogSpool.Text.Line
set_option autoImplicit false

/-!
# Text: lines there and back

Texts without line ends, each ended by a newline, are the lines of what they make together.
-/

namespace LogSpool.Text

/-- Some texts, each ended by a newline. -/
def unlines (parts : List (List Char)) : List Char := parts.flatMap (· ++ ['\n'])

theorem splitNewlines_append {part : List Char} (hpart : '\n' ∉ part) (rest : List Char) :
    splitNewlines (part ++ '\n' :: rest) = part :: splitNewlines rest := by
  have hsome : ∀ text : List Char, ∃ first parts, splitNewlines text = first :: parts := by
    intro text
    induction text with
    | nil => exact ⟨[], [], rfl⟩
    | cons c text ih =>
      obtain ⟨first, parts, heq⟩ := ih
      by_cases hc : c = '\n'
      · exact ⟨[], first :: parts, by simp [splitNewlines, heq, hc]⟩
      · exact ⟨c :: first, parts, by simp [splitNewlines, heq, hc]⟩
  induction part with
  | nil =>
    obtain ⟨first, parts, heq⟩ := hsome rest
    simp [splitNewlines, heq]
  | cons c part ih =>
    have hc : c ≠ '\n' := fun heq => hpart (heq ▸ List.mem_cons_self)
    have hmore := ih fun hmem => hpart (List.mem_cons_of_mem c hmem)
    simp [splitNewlines, hmore, hc]

/-- The parts of some texts without newlines, each ended by one: these, and an empty one. -/
theorem splitNewlines_unlines {parts : List (List Char)} (h : ∀ part ∈ parts, '\n' ∉ part) :
    splitNewlines (unlines parts) = parts ++ [[]] := by
  induction parts with
  | nil => rfl
  | cons part parts ih =>
    obtain ⟨hpart, hparts⟩ := List.forall_mem_cons.mp h
    have hcons : unlines (part :: parts) = part ++ '\n' :: unlines parts := by
      simp [unlines]
    rw [hcons, splitNewlines_append hpart, ih hparts]
    rfl

theorem dropReturn_of_notMem {text : List Char} (h : '\r' ∉ text) : dropReturn text = text := by
  unfold dropReturn
  rw [if_neg]
  intro hlast
  exact h (List.mem_of_getLast? hlast)

/-- Texts without line ends are the lines of what they make, each ended by a newline. -/
theorem lines_unlines {parts : List (List Char)}
    (h : ∀ part ∈ parts, '\n' ∉ part ∧ '\r' ∉ part) : lines (unlines parts) = parts := by
  unfold lines
  rw [splitNewlines_unlines fun part hpart => (h part hpart).1]
  induction parts with
  | nil => rfl
  | cons part parts ih =>
    obtain ⟨hpart, hparts⟩ := List.forall_mem_cons.mp h
    have hrest := ih hparts
    have hdrop := dropReturn_of_notMem hpart.2
    cases parts with
    | nil => simp [linesOfParts, hdrop]
    | cons next more =>
      rw [List.cons_append, List.cons_append, linesOfParts, hdrop, ← List.cons_append, hrest]
      exact fun heq => by cases heq

end LogSpool.Text
