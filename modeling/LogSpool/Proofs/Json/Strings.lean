import LogSpool.Proofs.Json.Grammar
set_option autoImplicit false

/-!
# Json: strings are read as the grammar has them

A string ends with a quote, so what follows it does not matter.
-/

namespace LogSpool.Json

variable {text rest : List Char}

/-- Nothing is asked of what follows. -/
def Anything (_ : List Char) : Prop := True

/-! ## Escapes -/

theorem complete_readUnit? : Complete IsUnit Anything readUnit? := by
  intro text rest n h _
  obtain ⟨ha, hb, hc, hd⟩ := h
  simp only [List.cons_append, List.nil_append, readUnit?, ha, hb, hc, hd, Option.bind_eq_bind,
    Option.bind_some, Option.pure_def]

theorem sound_readUnit? : Sound IsUnit readUnit? := by
  intro text rest n h
  unfold readUnit? at h
  split at h
  · next a b c d after =>
    obtain ⟨w, ha, h⟩ := Option.bind_eq_some_iff.mp h
    obtain ⟨x, hb, h⟩ := Option.bind_eq_some_iff.mp h
    obtain ⟨y, hc, h⟩ := Option.bind_eq_some_iff.mp h
    obtain ⟨z, hd, h⟩ := Option.bind_eq_some_iff.mp h
    cases h
    exact ⟨[a, b, c, d], rfl, .mk ha hb hc hd⟩
  · cases h

theorem complete_readUnicode? :
    Complete (fun text c => IsChar ('\\' :: 'u' :: text) c) Anything readUnicode? := by
  intro text rest c h hrest
  cases h with
  | short h =>
    have hno : ∀ p ∈ shortEscapes, p.1 ≠ 'u' := by decide
    exact absurd rfl (hno _ h)
  | unit h hhigh hlow =>
    unfold readUnicode?
    simp only [complete_readUnit? h hrest, Option.bind_eq_bind, Option.bind_some, hhigh, hlow,
      Bool.false_eq_true, if_false, Option.pure_def]
  | @pair first more n low h hhigh hmore hlow =>
    have hfirst : readUnit? (first ++ '\\' :: 'u' :: (more ++ rest)) =
        some (n, '\\' :: 'u' :: (more ++ rest)) := complete_readUnit? h trivial
    unfold readUnicode?
    simp only [List.append_assoc, List.cons_append, hfirst, Option.bind_eq_bind,
      Option.bind_some, hhigh, complete_readUnit? hmore hrest, hlow, if_true, Option.pure_def]

theorem sound_readUnicode? :
    Sound (fun text c => IsChar ('\\' :: 'u' :: text) c) readUnicode? := by
  intro text rest c h
  unfold readUnicode? at h
  obtain ⟨⟨n, after⟩, hunit, hvalue⟩ := Option.bind_eq_some_iff.mp h
  clear h
  obtain ⟨first, rfl, hfirst⟩ := sound_readUnit? hunit
  dsimp only at hvalue
  split at hvalue
  · next hhigh =>
    split at hvalue
    · obtain ⟨⟨low, last⟩, hsecond, hpair⟩ := Option.bind_eq_some_iff.mp hvalue
      clear hvalue
      obtain ⟨more, rfl, hmore⟩ := sound_readUnit? hsecond
      dsimp only at hpair
      split at hpair
      · next hlow =>
        obtain ⟨rfl, rfl⟩ := Prod.mk.inj (Option.some.inj hpair)
        refine ⟨first ++ '\\' :: 'u' :: more, ?_, .pair hfirst hhigh hmore hlow⟩
        rw [List.append_assoc, List.cons_append, List.cons_append]
      · cases hpair
    · cases hvalue
  · next hhigh =>
    split at hvalue
    · cases hvalue
    · next hlow =>
      cases hvalue
      exact ⟨first, rfl, .unit hfirst (Bool.not_eq_true _ ▸ hhigh) (Bool.not_eq_true _ ▸ hlow)⟩

/-! ## Characters -/

theorem readChar?_short {letter c : Char} (h : (letter, c) ∈ shortEscapes) (rest : List Char) :
    readChar? ('\\' :: letter :: rest) = some (c, rest) := by
  have hall : ∀ p ∈ shortEscapes, readChar? ('\\' :: p.1 :: rest) = some (p.2, rest) := by
    unfold shortEscapes
    simp only [List.forall_mem_cons]
    exact ⟨rfl, rfl, rfl, rfl, rfl, rfl, rfl, rfl, fun _ h => absurd h List.not_mem_nil⟩
  exact hall (letter, c) h

theorem readChar?_plain {c : Char} (hslash : c ≠ '\\') (rest : List Char) :
    readChar? (c :: rest) = if c.toNat < 0x20 ∨ c = '"' then none else some (c, rest) := by
  rw [readChar?]
  all_goals
    intros
    contradiction

theorem complete_readChar? : Complete IsChar Anything readChar? := by
  intro text rest c h hrest
  cases h with
  | plain hcontrol hquote hslash =>
    rw [List.cons_append, List.nil_append, readChar?_plain hslash, if_neg]
    exact not_or.mpr ⟨Nat.not_lt.mpr hcontrol, hquote⟩
  | short h => exact readChar?_short h rest
  | unit h hhigh hlow => exact complete_readUnicode? (.unit h hhigh hlow) hrest
  | pair h hhigh hmore hlow => exact complete_readUnicode? (.pair h hhigh hmore hlow) hrest

theorem sound_readChar? : Sound IsChar readChar? := by
  intro text rest c h
  cases text with
  | nil => cases h
  | cons first after =>
    by_cases hslash : first = '\\'
    · subst hslash
      unfold readChar? at h
      split at h
      case h_9 heq =>
        obtain ⟨t, rfl, ht⟩ := sound_readUnicode? h
        exact ⟨'\\' :: 'u' :: t, heq, ht⟩
      case h_10 => cases h
      case h_11 hne heq => exact absurd (List.cons.inj heq).1.symm hne
      case h_12 => cases h
      -- The escapes of one letter.
      all_goals
        next heq =>
        cases h
        exact ⟨['\\', _], heq, .short (by decide)⟩
    · rw [readChar?_plain hslash] at h
      split at h
      · cases h
      · next hplain =>
        obtain ⟨hcontrol, hquote⟩ := not_or.mp hplain
        cases h
        exact ⟨[_], rfl, .plain (Nat.not_lt.mp hcontrol) hquote hslash⟩

/-- The text of a character starts, but not with a closing quote. -/
theorem IsChar.exists_cons {c : Char} (h : IsChar text c) :
    ∃ first more, text = first :: more ∧ first ≠ '"' := by
  cases h with
  | plain hcontrol hquote hslash => exact ⟨_, _, rfl, hquote⟩
  | short | unit | pair => exact ⟨_, _, rfl, by decide⟩

/-! ## Strings -/

/-- Where no quote ends a string, a character is read. -/
theorem readChars?_of_ne {first : Char} (h : first ≠ '"') (fuel : Nat) (rest : List Char) :
    readChars? (fuel + 1) (first :: rest) = (readChar? (first :: rest)).bind fun r =>
      (readChars? fuel r.2).map fun q => (r.1 :: q.1, q.2) := by
  rw [readChars?]
  · cases readChar? (first :: rest) with
    | none => rfl
    | some r => cases hmore : readChars? fuel r.2 <;> simp [hmore]
  · intro more heq
    exact h (List.cons.inj heq).1

/-- The characters of a string are read up to the closing quote, if the fuel suffices. -/
theorem complete_readChars? {cs : List Char} (h : IsChars text cs) (rest : List Char) :
    ∀ fuel, cs.length < fuel → readChars? fuel (text ++ '"' :: rest) = some (cs, rest) := by
  induction h with
  | nil =>
    intro fuel hfuel
    obtain ⟨fuel, rfl⟩ := Nat.exists_eq_add_of_lt hfuel
    rfl
  | @cons text more c cs h hmore ih =>
    intro fuel hfuel
    obtain ⟨fuel, rfl⟩ := Nat.exists_eq_add_of_lt (Nat.zero_lt_of_lt hfuel)
    have hchar : readChar? (text ++ (more ++ '"' :: rest)) = some (c, more ++ '"' :: rest) :=
      complete_readChar? h trivial
    obtain ⟨first, others, rfl, hfirst⟩ := h.exists_cons
    rw [List.cons_append] at hchar
    rw [List.append_assoc, List.cons_append, Nat.zero_add, readChars?_of_ne hfirst, hchar,
      Option.bind_some, ih fuel (by simpa using hfuel)]
    rfl

theorem sound_readChars? {fuel : Nat} {cs : List Char} (h : readChars? fuel text = some (cs, rest)) :
    ∃ t, text = t ++ '"' :: rest ∧ IsChars t cs := by
  induction fuel generalizing text cs with
  | zero => cases h
  | succ fuel ih =>
    cases text with
    | nil => cases h
    | cons first after =>
      by_cases hquote : first = '"'
      · subst hquote
        cases h
        exact ⟨[], rfl, .nil⟩
      · rw [readChars?_of_ne hquote] at h
        obtain ⟨⟨c, mid⟩, hfirst, hread⟩ := Option.bind_eq_some_iff.mp h
        obtain ⟨⟨others, last⟩, hothers, heq⟩ := Option.map_eq_some_iff.mp hread
        cases heq
        obtain ⟨t, htext, hchar⟩ := sound_readChar? hfirst
        obtain ⟨more, rfl, hmore⟩ := ih hothers
        refine ⟨t ++ more, ?_, .cons hchar hmore⟩
        rw [htext, List.append_assoc]

/-- Every character takes some text. -/
theorem IsChars.length_le {cs : List Char} (h : IsChars text cs) : cs.length ≤ text.length := by
  induction h with
  | nil => exact Nat.le_refl 0
  | cons h hmore ih =>
    obtain ⟨first, more, rfl, -⟩ := h.exists_cons
    rw [List.length_append, List.length_cons, List.length_cons]
    omega

theorem complete_readText? : Complete IsBody Anything readText? := by
  intro text rest s h _
  obtain @⟨text, cs, h⟩ := h
  have hlength := h.length_le
  unfold readText?
  rw [List.append_assoc, List.cons_append, List.nil_append, complete_readChars? h]
  · rfl
  · rw [List.length_append, List.length_cons]
    omega

theorem sound_readText? : Sound IsBody readText? := by
  intro text rest s h
  obtain ⟨⟨cs, after⟩, hread, heq⟩ := Option.map_eq_some_iff.mp h
  cases heq
  obtain ⟨t, htext, hchars⟩ := sound_readChars? hread
  refine ⟨t ++ ['"'], ?_, .mk hchars⟩
  rw [htext, List.append_assoc, List.cons_append, List.nil_append]

end LogSpool.Json
