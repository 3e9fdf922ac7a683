import LogSpool.Proofs.Text.Utf8
set_option autoImplicit false

/-!
# Text: what can be decoded

The strict reader accepts the bytes of texts and nothing else.  A character that `readOne` gives has
the bytes that it took as its form: the lead byte and the range of the byte after it leave out
the forms that are too long, the surrogates, and what lies beyond the last character.
-/

namespace LogSpool.Utf8

variable {c : Char} {b low high : UInt8} {count n : Nat} {bytes other rest : Bytes}
  {text : List Char}

theorem Form.unique (h : Form c bytes) (hother : Form c other) : bytes = other := by
  have hsame : ∀ {x y : UInt8} {n : Nat}, x.toNat = n → y.toNat = n → x = y :=
    fun hx hy => UInt8.toNat_inj.mp (hx.trans hy.symm)
  cases h with
  | one hmost hb =>
    cases hother with
    | one _ hb' => rw [hsame hb hb']
    | two | three | four => omega
  | two hleast hmost hb hb₁ =>
    cases hother with
    | two _ _ hb' hb₁' => rw [hsame hb hb', hsame hb₁ hb₁']
    | one | three | four => omega
  | three hleast hmost hb hb₁ hb₂ =>
    cases hother with
    | three _ _ hb' hb₁' hb₂' => rw [hsame hb hb', hsame hb₁ hb₁', hsame hb₂ hb₂']
    | one | two | four => omega
  | four hleast hb hb₁ hb₂ hb₃ =>
    cases hother with
    | four _ hb' hb₁' hb₂' hb₃' =>
      rw [hsame hb hb', hsame hb₁ hb₁', hsame hb₂ hb₂', hsame hb₃ hb₃']
    | one | two | three => omega

theorem toNat_ofNat_of_valid (h : n < 0xD800 ∨ 0xDFFF < n ∧ n < 0x110000) :
    (Char.ofNat n).toNat = n := by
  rw [Char.ofNat, dif_pos h]
  rfl

/-! ## One character -/

/-- Where all the bytes that were announced continue a character, the first of them is in its
range, and so for the others. -/
theorem continuation_of_length (h : (continuation (count + 1) low high rest).length = count + 1) :
    ∃ b tail, rest = b :: tail ∧ low.toNat ≤ b.toNat ∧ b.toNat ≤ high.toNat ∧
      continuation (count + 1) low high rest = b :: continuation count 0x80 0xBF tail ∧
      (continuation count 0x80 0xBF tail).length = count := by
  cases rest with
  | nil => cases count <;> simp [continuation] at h
  | cons b tail =>
    rw [continuation] at h
    split at h
    · next hrange =>
      have hlow := UInt8.le_iff_toNat_le.mp hrange.1
      have hhigh := UInt8.le_iff_toNat_le.mp hrange.2
      exact ⟨b, tail, rfl, hlow, hhigh, continuation_cons count hlow hhigh tail, Nat.succ.inj h⟩
    · cases h

theorem continuation_zero (low high : UInt8) (rest : Bytes) : continuation 0 low high rest = [] := by
  unfold continuation
  rfl

theorem form_two (hb : 0xC2 ≤ b.toNat ∧ b.toNat ≤ 0xDF)
    (h : (continuation 1 0x80 0xBF rest).length = 1) :
    Form (Char.ofNat (scalar b (continuation 1 0x80 0xBF rest))) (b :: rest.take 1) := by
  obtain ⟨b₁, tail, rfl, hlow, hhigh, heq, -⟩ := continuation_of_length h
  change 128 ≤ _ at hlow
  change _ ≤ 191 at hhigh
  have hnumber : (Char.ofNat (scalar b [b₁])).toNat = b.toNat % 32 * 64 + b₁.toNat % 64 :=
    toNat_ofNat_of_valid (n := b.toNat % 32 * 64 + b₁.toNat % 64) (by omega)
  rw [heq, continuation_zero]
  exact .two (by omega) (by omega) (by omega) (by omega)

/-- A lead byte of the third form and its bytes, if the form is not too long and no surrogate's. -/
theorem form_three (hb : 0xE0 ≤ b.toNat ∧ b.toNat ≤ 0xEF)
    (hlow : 0x80 ≤ low.toNat ∧ (b.toNat = 0xE0 → 0xA0 ≤ low.toNat))
    (hhigh : high.toNat ≤ 0xBF ∧ (b.toNat = 0xED → high.toNat ≤ 0x9F))
    (h : (continuation 2 low high rest).length = 2) :
    Form (Char.ofNat (scalar b (continuation 2 low high rest))) (b :: rest.take 2) := by
  obtain ⟨b₁, tail, rfl, hlow₁, hhigh₁, heq, hlast⟩ := continuation_of_length h
  obtain ⟨b₂, tail, rfl, hlow₂, hhigh₂, heq₂, -⟩ := continuation_of_length hlast
  change 128 ≤ _ at hlow₂
  change _ ≤ 191 at hhigh₂
  have hnumber : (Char.ofNat (scalar b [b₁, b₂])).toNat =
      (b.toNat % 16 * 64 + b₁.toNat % 64) * 64 + b₂.toNat % 64 :=
    toNat_ofNat_of_valid (n := (b.toNat % 16 * 64 + b₁.toNat % 64) * 64 + b₂.toNat % 64) (by omega)
  rw [heq, heq₂, continuation_zero]
  exact .three (by omega) (by omega) (by omega) (by omega) (by omega)

/-- A lead byte of the fourth form and its bytes, if the form is not too long and not beyond the
last character. -/
theorem form_four (hb : 0xF0 ≤ b.toNat ∧ b.toNat ≤ 0xF4)
    (hlow : 0x80 ≤ low.toNat ∧ (b.toNat = 0xF0 → 0x90 ≤ low.toNat))
    (hhigh : high.toNat ≤ 0xBF ∧ (b.toNat = 0xF4 → high.toNat ≤ 0x8F))
    (h : (continuation 3 low high rest).length = 3) :
    Form (Char.ofNat (scalar b (continuation 3 low high rest))) (b :: rest.take 3) := by
  obtain ⟨b₁, tail, rfl, hlow₁, hhigh₁, heq, hlast⟩ := continuation_of_length h
  obtain ⟨b₂, tail, rfl, hlow₂, hhigh₂, heq₂, hlast⟩ := continuation_of_length hlast
  obtain ⟨b₃, tail, rfl, hlow₃, hhigh₃, heq₃, -⟩ := continuation_of_length hlast
  change 128 ≤ _ at hlow₂ hlow₃
  change _ ≤ 191 at hhigh₂ hhigh₃
  have hnumber : (Char.ofNat (scalar b [b₁, b₂, b₃])).toNat =
      ((b.toNat % 8 * 64 + b₁.toNat % 64) * 64 + b₂.toNat % 64) * 64 + b₃.toNat % 64 :=
    toNat_ofNat_of_valid
      (n := ((b.toNat % 8 * 64 + b₁.toNat % 64) * 64 + b₂.toNat % 64) * 64 + b₃.toNat % 64) (by omega)
  rw [heq, heq₂, heq₃, continuation_zero]
  exact .four (by omega) (by omega) (by omega) (by omega) (by omega)

/-- What a lead byte announces and the bytes that follow it are the form of a character, in each
row of the table of lead bytes. -/
theorem form_of_lead (hlead : lead? b = some (count, low, high))
    (hlength : (continuation count low high rest).length = count) :
    Form (Char.ofNat (scalar b (continuation count low high rest))) (b :: rest.take count) := by
  rw [lead?_eq] at hlead
  split at hlead
  · next hb =>
    cases hlead
    exact form_two hb hlength
  split at hlead
  · next hb =>
    cases hlead
    exact form_three (by omega) ⟨by decide, fun _ => by decide⟩
      ⟨by decide, fun hed => absurd hed (by omega)⟩ hlength
  split at hlead
  · next hb =>
    cases hlead
    exact form_three (by omega) ⟨by decide, fun he0 => absurd he0 (by omega)⟩
      ⟨by decide, fun _ => by decide⟩ hlength
  split at hlead
  · next hb =>
    cases hlead
    exact form_three (by omega) ⟨by decide, fun he0 => absurd he0 (by omega)⟩
      ⟨by decide, fun hed => absurd hed (by omega)⟩ hlength
  split at hlead
  · next hb =>
    cases hlead
    exact form_four (by omega) ⟨by decide, fun _ => by decide⟩
      ⟨by decide, fun hf4 => absurd hf4 (by omega)⟩ hlength
  split at hlead
  · next hb =>
    cases hlead
    exact form_four (by omega) ⟨by decide, fun hf0 => absurd hf0 (by omega)⟩
      ⟨by decide, fun hf4 => absurd hf4 (by omega)⟩ hlength
  split at hlead
  · next hb =>
    cases hlead
    exact form_four (by omega) ⟨by decide, fun hf0 => absurd hf0 (by omega)⟩
      ⟨by decide, fun _ => by decide⟩ hlength
  · cases hlead

theorem form_of_readOne (h : readOne b rest = (some c, n)) : Form c (b :: rest.take n) := by
  unfold readOne at h
  split at h
  · next hsmall =>
    cases h
    have hb : b.toNat < 128 := UInt8.lt_iff_toNat_lt.mp hsmall
    have hnumber := toNat_ofNat_of_valid (n := b.toNat) (by omega)
    exact .one (by omega) hnumber.symm
  · split at h
    · cases h
    · next count low high hlead =>
      dsimp only at h
      split at h
      · next hlength =>
        cases h
        exact form_of_lead hlead hlength
      · cases h

/-! ## Texts -/

theorem eq_encode_of_scan (bytes : Bytes) (h : scan bytes = text.map some) : bytes = encode text := by
  fun_induction scan bytes generalizing text with
  | case1 =>
    cases text with
    | nil => rfl
    | cons c text => cases h
  | case2 b rest first used hread ih =>
    cases text with
    | nil => cases h
    | cons c text =>
      rw [List.map_cons] at h
      obtain ⟨rfl, htail⟩ := List.cons.inj h
      have hform := (form_of_readOne hread).unique (form_encodeChar c)
      rw [encode_cons, ← hform, ← ih htail, List.cons_append, List.take_append_drop]

/-- The strict reader reads the bytes of a text, and nothing else. -/
theorem decode?_eq_some_iff : decode? bytes = some text ↔ bytes = encode text := by
  refine ⟨fun h => eq_encode_of_scan bytes ?_, fun h => h ▸ decode?_encode text⟩
  unfold decode? at h
  generalize scan bytes = parts at h
  induction parts generalizing text with
  | nil =>
    cases h
    rfl
  | cons first parts ih =>
    simp only [List.mapM_cons, Option.bind_eq_bind, Option.bind_eq_some_iff, id] at h
    obtain ⟨c, rfl, rest, hrest, htext⟩ := h
    cases htext
    rw [List.map_cons, ← ih hrest]

end LogSpool.Utf8

namespace LogSpool

theorem ofUtf8?_eq_some_iff {bytes : Bytes} {s : String} : ofUtf8? bytes = some s ↔ bytes = utf8 s := by
  unfold ofUtf8? utf8
  rw [Option.map_eq_some_iff]
  constructor
  · rintro ⟨text, htext, rfl⟩
    rw [String.toList_ofList]
    exact Utf8.decode?_eq_some_iff.mp htext
  · exact fun h => ⟨s.toList, Utf8.decode?_eq_some_iff.mpr h, String.ofList_toList⟩

end LogSpool
