import LogSpool.Text.Utf8
set_option autoImplicit false

/-!
# Text: UTF-8 there and back

`Form` is what the bytes of a character are, one case for each number of bytes.  The first
byte announces that number and every byte is one that may stand where it stands, so `readOne`
takes exactly these bytes and gives the character back, whatever follows.  Hence a text is
read back from its bytes by either reader, and two texts with the same bytes are the same.
Texts come in the order of their bytes (`utf8_lt`).
-/

namespace LogSpool.Utf8

theorem encode_append (before after : List Char) :
    encode (before ++ after) = encode before ++ encode after :=
  List.flatMap_append

theorem encode_cons (c : Char) (text : List Char) :
    encode (c :: text) = String.utf8EncodeChar c ++ encode text :=
  List.flatMap_cons

/-! ## The forms of a character -/

/-- The bytes of a character, by their numbers. -/
inductive Form (c : Char) : Bytes → Prop where
  | one {b : UInt8} (hmost : c.toNat ≤ 0x7F) (hb : b.toNat = c.toNat) : Form c [b]
  | two {b b₁ : UInt8} (hleast : 0x7F < c.toNat) (hmost : c.toNat ≤ 0x7FF)
      (hb : b.toNat = c.toNat / 64 % 32 + 192) (hb₁ : b₁.toNat = c.toNat % 64 + 128) : Form c [b, b₁]
  | three {b b₁ b₂ : UInt8} (hleast : 0x7FF < c.toNat) (hmost : c.toNat ≤ 0xFFFF)
      (hb : b.toNat = c.toNat / 4096 % 16 + 224) (hb₁ : b₁.toNat = c.toNat / 64 % 64 + 128)
      (hb₂ : b₂.toNat = c.toNat % 64 + 128) : Form c [b, b₁, b₂]
  | four {b b₁ b₂ b₃ : UInt8} (hleast : 0xFFFF < c.toNat)
      (hb : b.toNat = c.toNat / 262144 % 8 + 240) (hb₁ : b₁.toNat = c.toNat / 4096 % 64 + 128)
      (hb₂ : b₂.toNat = c.toNat / 64 % 64 + 128) (hb₃ : b₃.toNat = c.toNat % 64 + 128) :
      Form c [b, b₁, b₂, b₃]

theorem isValidChar_toNat (c : Char) : c.toNat < 0xD800 ∨ (0xDFFF < c.toNat ∧ c.toNat < 0x110000) :=
  c.valid

theorem form_encodeChar (c : Char) : Form c (String.utf8EncodeChar c) := by
  have hbyte : ∀ {n : Nat}, n < 256 → (UInt8.ofNat n).toNat = n := by
    intro n hn
    rw [UInt8.toNat_ofNat']
    exact Nat.mod_eq_of_lt hn
  have hvalid := isValidChar_toNat c
  by_cases hone : c.toNat ≤ 0x7F
  · have hbytes : String.utf8EncodeChar c = [UInt8.ofNat c.toNat] := if_pos hone
    rw [hbytes]
    exact .one hone (hbyte (by omega))
  by_cases htwo : c.toNat ≤ 0x7FF
  · have hbytes : String.utf8EncodeChar c =
        [UInt8.ofNat (c.toNat / 64 % 32 + 192), UInt8.ofNat (c.toNat % 64 + 128)] :=
      (if_neg hone).trans (if_pos htwo)
    rw [hbytes]
    exact .two (by omega) htwo (hbyte (by omega)) (hbyte (by omega))
  by_cases hthree : c.toNat ≤ 0xFFFF
  · have hbytes : String.utf8EncodeChar c =
        [UInt8.ofNat (c.toNat / 4096 % 16 + 224), UInt8.ofNat (c.toNat / 64 % 64 + 128),
          UInt8.ofNat (c.toNat % 64 + 128)] :=
      (if_neg hone).trans ((if_neg htwo).trans (if_pos hthree))
    rw [hbytes]
    exact .three (by omega) hthree (hbyte (by omega)) (hbyte (by omega)) (hbyte (by omega))
  · have hbytes : String.utf8EncodeChar c =
        [UInt8.ofNat (c.toNat / 262144 % 8 + 240), UInt8.ofNat (c.toNat / 4096 % 64 + 128),
          UInt8.ofNat (c.toNat / 64 % 64 + 128), UInt8.ofNat (c.toNat % 64 + 128)] :=
      (if_neg hone).trans ((if_neg htwo).trans (if_neg hthree))
    rw [hbytes]
    exact .four (by omega) (hbyte (by omega)) (hbyte (by omega)) (hbyte (by omega)) (hbyte (by omega))

/-! ## One character -/

/-- What a lead byte announces, by its number. -/
theorem lead?_eq (b : UInt8) :
    lead? b =
      if 0xC2 ≤ b.toNat ∧ b.toNat ≤ 0xDF then some (1, 0x80, 0xBF)
      else if b.toNat = 0xE0 then some (2, 0xA0, 0xBF)
      else if b.toNat = 0xED then some (2, 0x80, 0x9F)
      else if 0xE1 ≤ b.toNat ∧ b.toNat ≤ 0xEF then some (2, 0x80, 0xBF)
      else if b.toNat = 0xF0 then some (3, 0x90, 0xBF)
      else if 0xF1 ≤ b.toNat ∧ b.toNat ≤ 0xF3 then some (3, 0x80, 0xBF)
      else if b.toNat = 0xF4 then some (3, 0x80, 0x8F)
      else none := by
  unfold lead?
  simp only [UInt8.le_iff_toNat_le, ← UInt8.toNat_inj]
  rfl

theorem continuation_cons (count : Nat) {low high b : UInt8} (hlow : low.toNat ≤ b.toNat)
    (hhigh : b.toNat ≤ high.toNat) (rest : Bytes) :
    continuation (count + 1) low high (b :: rest) = b :: continuation count 0x80 0xBF rest :=
  if_pos ⟨UInt8.le_iff_toNat_le.mpr hlow, UInt8.le_iff_toNat_le.mpr hhigh⟩

/-- A last byte continues a character, and no byte after it. -/
theorem continuation_last {low high b : UInt8} (hlow : low.toNat ≤ b.toNat)
    (hhigh : b.toNat ≤ high.toNat) (rest : Bytes) :
    continuation 1 low high (b :: rest) = [b] := by
  rw [continuation_cons 0 hlow hhigh]
  unfold continuation
  rfl

theorem isTail {b : UInt8} {n : Nat} (hb : b.toNat = n % 64 + 128) :
    (0x80 : UInt8).toNat ≤ b.toNat ∧ b.toNat ≤ (0xBF : UInt8).toNat := by
  change 128 ≤ b.toNat ∧ b.toNat ≤ 191
  omega

/-- A lead byte and the bytes it announces are read as the character that they are worth. -/
theorem readOne_of_lead {b low high : UInt8} {count : Nat} {tail rest : Bytes} (c : Char)
    (hlarge : 0x80 ≤ b.toNat) (hlead : lead? b = some (count, low, high))
    (htail : continuation count low high (tail ++ rest) = tail) (hlength : tail.length = count)
    (hscalar : scalar b tail = c.toNat) : readOne b (tail ++ rest) = (some c, tail.length) := by
  have hnot : ¬ b < 0x80 := by
    rw [UInt8.lt_iff_toNat_lt]
    exact Nat.not_lt.mpr hlarge
  unfold readOne
  rw [if_neg hnot, hlead]
  simp only [htail, hlength, if_true, hscalar, Char.ofNat_toNat]

/-- The bytes of a character are read as that character, whatever follows. -/
theorem Form.readOne {c : Char} {b : UInt8} {tail : Bytes} (h : Form c (b :: tail)) (rest : Bytes) :
    readOne b (tail ++ rest) = (some c, tail.length) := by
  have hvalid := isValidChar_toNat c
  cases h with
  | one hmost hb =>
    have hsmall : b < 0x80 := by
      rw [UInt8.lt_iff_toNat_lt, hb]
      exact Nat.lt_succ_of_le hmost
    unfold Utf8.readOne
    rw [if_pos hsmall, hb, Char.ofNat_toNat]
    rfl
  | @two _ b₁ hleast hmost hb hb₁ =>
    have hlead : lead? b = some (1, 0x80, 0xBF) := by
      rw [lead?_eq, if_pos (by omega)]
    refine readOne_of_lead c (by omega) hlead ?_ rfl ?_
    · exact continuation_last (isTail hb₁).1 (isTail hb₁).2 rest
    · simp only [scalar, leadBits, List.foldl_cons, List.foldl_nil, List.length_singleton, hb, hb₁]
      change (c.toNat / 64 % 32 + 192) % 32 * 64 + (c.toNat % 64 + 128) % 64 = c.toNat
      omega
  | @three _ b₁ b₂ hleast hmost hb hb₁ hb₂ =>
    -- The second byte has a range of its own where the form would be too long, or a surrogate's.
    have hlead : ∃ low high : UInt8, lead? b = some (2, low, high) ∧ low.toNat ≤ b₁.toNat ∧
        b₁.toNat ≤ high.toNat := by
      rw [lead?_eq, if_neg (by omega)]
      by_cases he0 : b.toNat = 0xE0
      · exact ⟨0xA0, 0xBF, if_pos he0, by change 160 ≤ _; omega, (isTail hb₁).2⟩
      by_cases hed : b.toNat = 0xED
      · rw [if_neg he0]
        exact ⟨0x80, 0x9F, if_pos hed, (isTail hb₁).1, by change _ ≤ 159; omega⟩
      · rw [if_neg he0, if_neg hed]
        exact ⟨0x80, 0xBF, if_pos (by omega), (isTail hb₁).1, (isTail hb₁).2⟩
    obtain ⟨low, high, hlead, hlow, hhigh⟩ := hlead
    refine readOne_of_lead c (by omega) hlead ?_ rfl ?_
    · rw [List.cons_append, continuation_cons 1 hlow hhigh, List.singleton_append,
        continuation_last (isTail hb₂).1 (isTail hb₂).2]
    · simp only [scalar, leadBits, List.foldl_cons, List.foldl_nil, List.length_cons, List.length_nil,
        hb, hb₁, hb₂]
      change ((c.toNat / 4096 % 16 + 224) % 16 * 64 + (c.toNat / 64 % 64 + 128) % 64) * 64 +
        (c.toNat % 64 + 128) % 64 = c.toNat
      omega
  | @four _ b₁ b₂ b₃ hleast hb hb₁ hb₂ hb₃ =>
    have hlead : ∃ low high : UInt8, lead? b = some (3, low, high) ∧ low.toNat ≤ b₁.toNat ∧
        b₁.toNat ≤ high.toNat := by
      rw [lead?_eq, if_neg (by omega), if_neg (by omega), if_neg (by omega), if_neg (by omega)]
      by_cases hf0 : b.toNat = 0xF0
      · exact ⟨0x90, 0xBF, if_pos hf0, by change 144 ≤ _; omega, (isTail hb₁).2⟩
      by_cases hf4 : b.toNat = 0xF4
      · rw [if_neg hf0, if_neg (by omega)]
        exact ⟨0x80, 0x8F, if_pos hf4, (isTail hb₁).1, by change _ ≤ 143; omega⟩
      · rw [if_neg hf0]
        exact ⟨0x80, 0xBF, if_pos (by omega), (isTail hb₁).1, (isTail hb₁).2⟩
    obtain ⟨low, high, hlead, hlow, hhigh⟩ := hlead
    refine readOne_of_lead c (by omega) hlead ?_ rfl ?_
    · rw [List.cons_append, continuation_cons 2 hlow hhigh, List.cons_append,
        continuation_cons 1 (isTail hb₂).1 (isTail hb₂).2, List.singleton_append,
        continuation_last (isTail hb₃).1 (isTail hb₃).2]
    · simp only [scalar, leadBits, List.foldl_cons, List.foldl_nil, List.length_cons, List.length_nil,
        hb, hb₁, hb₂, hb₃]
      change (((c.toNat / 262144 % 8 + 240) % 8 * 64 + (c.toNat / 4096 % 64 + 128) % 64) * 64 +
        (c.toNat / 64 % 64 + 128) % 64) * 64 + (c.toNat % 64 + 128) % 64 = c.toNat
      omega

theorem Form.toNat_of_mem {c : Char} {bytes : Bytes} (h : Form c bytes) {b : UInt8} (hb : b ∈ bytes)
    (hsmall : b.toNat < 0x80) : b.toNat = c.toNat := by
  cases h with
  | one hmost hself =>
    rw [List.mem_singleton.mp hb]
    exact hself
  | two | three | four =>
    simp only [List.mem_cons, List.not_mem_nil, or_false] at hb
    rcases hb with rfl | rfl | rfl | rfl <;> omega

/-! ## Texts -/

/-- The characters of a text are read from its bytes one by one, and then what follows. -/
theorem scan_encode_append (text : List Char) (rest : Bytes) :
    scan (encode text ++ rest) = text.map some ++ scan rest := by
  induction text with
  | nil => rfl
  | cons c text ih =>
    have hform := form_encodeChar c
    rw [encode_cons]
    cases hbytes : String.utf8EncodeChar c with
    | nil => exact absurd hbytes String.utf8EncodeChar_ne_nil
    | cons b tail =>
      rw [hbytes] at hform
      rw [List.append_assoc, List.cons_append, scan, hform.readOne]
      simp only [List.drop_left, ih, List.map_cons, List.cons_append]

theorem scan_encode (text : List Char) : scan (encode text) = text.map some := by
  have hscan := scan_encode_append text []
  have hnil : scan [] = [] := by
    unfold scan
    rfl
  rwa [List.append_nil, hnil, List.append_nil] at hscan

theorem decode?_encode (text : List Char) : decode? (encode text) = some text := by
  unfold decode?
  rw [scan_encode]
  induction text with
  | nil => rfl
  | cons c text ih =>
    rw [List.map_cons, List.mapM_cons, ih]
    rfl

/-- The lossy reader loses nothing of a text. -/
theorem decodeLossy_encode (text : List Char) : decodeLossy (encode text) = text := by
  unfold decodeLossy
  rw [scan_encode, List.map_map]
  exact List.map_id text

theorem encode_injective {text other : List Char} (h : encode text = encode other) :
    text = other := by
  have hdecoded := decodeLossy_encode text
  rwa [h, decodeLossy_encode, eq_comm] at hdecoded

/-- The bytes of a text without characters below a small number are none of them below it. -/
theorem le_of_mem_encode {text : List Char} {least : Nat} (hleast : least ≤ 0x80)
    (htext : ∀ c ∈ text, least ≤ c.toNat) {b : UInt8} (hb : b ∈ encode text) :
    least ≤ b.toNat := by
  obtain ⟨c, hc, hbyte⟩ := List.mem_flatMap.mp hb
  by_cases hsmall : b.toNat < 0x80
  · rw [(form_encodeChar c).toNat_of_mem hbyte hsmall]
    exact htext c hc
  · omega

/-! ## The order of texts -/

theorem cons_lt_cons {b b' : UInt8} {x y : Bytes}
    (h : b.toNat < b'.toNat ∨ b.toNat = b'.toNat ∧ x < y) : b :: x < b' :: y := by
  rcases h with hless | ⟨heq, hrest⟩
  · exact List.cons_lt_cons_iff.mpr (.inl (UInt8.lt_iff_toNat_lt.mpr hless))
  · exact List.cons_lt_cons_iff.mpr (.inr ⟨UInt8.toNat_inj.mp heq, hrest⟩)

/-- The bytes of characters come in the order of the characters, whatever follows them: a form of
more bytes has a greater lead byte, and within a form the first byte that differs decides. -/
theorem Form.append_lt_append {c d : Char} {bytes others : Bytes} (hc : Form c bytes)
    (hd : Form d others) (h : c.toNat < d.toNat) (x y : Bytes) : bytes ++ x < others ++ y := by
  have hvalid := isValidChar_toNat d
  cases hc with
  | one hmost hb =>
    cases hd with
    | one hmost' hb' => exact cons_lt_cons (.inl (by omega))
    | two _ _ hb' | three _ _ hb' | four _ hb' => exact cons_lt_cons (.inl (by omega))
  | two hleast hmost hb hb₁ =>
    cases hd with
    | one hmost' => omega
    | two _ _ hb' hb₁' =>
      refine cons_lt_cons ?_
      by_cases heq : c.toNat / 64 = d.toNat / 64
      · exact .inr ⟨by omega, cons_lt_cons (.inl (by omega))⟩
      · exact .inl (by omega)
    | three _ _ hb' | four _ hb' => exact cons_lt_cons (.inl (by omega))
  | three hleast hmost hb hb₁ hb₂ =>
    cases hd with
    | one hmost' | two _ hmost' => omega
    | three _ _ hb' hb₁' hb₂' =>
      refine cons_lt_cons ?_
      by_cases heq : c.toNat / 4096 = d.toNat / 4096
      · refine .inr ⟨by omega, cons_lt_cons ?_⟩
        by_cases heq : c.toNat / 64 = d.toNat / 64
        · exact .inr ⟨by omega, cons_lt_cons (.inl (by omega))⟩
        · exact .inl (by omega)
      · exact .inl (by omega)
    | four _ hb' => exact cons_lt_cons (.inl (by omega))
  | four hleast hb hb₁ hb₂ hb₃ =>
    cases hd with
    | one hmost' | two _ hmost' | three _ hmost' => omega
    | four _ hb' hb₁' hb₂' hb₃' =>
      refine cons_lt_cons ?_
      by_cases heq : c.toNat / 262144 = d.toNat / 262144
      · refine .inr ⟨by omega, cons_lt_cons ?_⟩
        by_cases heq : c.toNat / 4096 = d.toNat / 4096
        · refine .inr ⟨by omega, cons_lt_cons ?_⟩
          by_cases heq : c.toNat / 64 = d.toNat / 64
          · exact .inr ⟨by omega, cons_lt_cons (.inl (by omega))⟩
          · exact .inl (by omega)
        · exact .inl (by omega)
      · exact .inl (by omega)

theorem encode_lt {text other : List Char} (h : text < other) : encode text < encode other := by
  induction text generalizing other with
  | nil =>
    cases other with
    | nil => exact absurd h (List.lt_irrefl [])
    | cons d others =>
      cases hbytes : String.utf8EncodeChar d with
      | nil => exact absurd hbytes String.utf8EncodeChar_ne_nil
      | cons b tail =>
        rw [encode_cons, hbytes]
        exact List.nil_lt_cons b _
  | cons c text ih =>
    cases other with
    | nil => exact absurd h (List.not_lt_nil _)
    | cons d others =>
      rw [encode_cons, encode_cons]
      rcases List.cons_lt_cons_iff.mp h with hless | ⟨rfl, hrest⟩
      · exact (form_encodeChar c).append_lt_append (form_encodeChar d)
          (UInt32.lt_iff_toNat_lt.mp (Char.lt_def.mp hless)) _ _
      · exact List.append_left_lt (ih hrest)

end LogSpool.Utf8

namespace LogSpool

theorem utf8_lt {s t : String} (h : s < t) : utf8 s < utf8 t := Utf8.encode_lt (String.lt_iff.mp h)

end LogSpool
