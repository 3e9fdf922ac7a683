import LogSpool.Json.Printer
set_option autoImplicit false

/-!
# Json: what is never printed

No control character is printed, wherever one stands in a value: those of a string are
escaped, and names are strings.  A printed value thus fits on a line.
-/

namespace LogSpool.Json

open LogSpool.Decimal (digitsOf ofInt positional scientific Layout Scaled)

/-- A text without control characters. -/
def IsPlain (text : List Char) : Prop := ∀ c ∈ text, 0x20 ≤ c.toNat

namespace IsPlain

variable {text other : List Char} {c : Char}

theorem nil : IsPlain [] := nofun

theorem cons (hc : 0x20 ≤ c.toNat) (h : IsPlain text) : IsPlain (c :: text) :=
  List.forall_mem_cons.mpr ⟨hc, h⟩

theorem append (h : IsPlain text) (hother : IsPlain other) : IsPlain (text ++ other) :=
  List.forall_mem_append.mpr ⟨h, hother⟩

/-- A text is plain when each of its characters is checked to be. -/
theorem of_all (h : text.all (fun c => 0x20 ≤ c.toNat) = true) : IsPlain text := by
  intro c hc
  exact of_decide_eq_true (List.all_eq_true.mp h c hc)

theorem of_subset (h : IsPlain text) (hsub : ∀ c ∈ other, c ∈ text) : IsPlain other :=
  fun c hc => h c (hsub c hc)

theorem newline_notMem (h : IsPlain text) : '\n' ∉ text := by
  intro hmem
  have hle := h '\n' hmem
  cases Nat.not_lt.mpr hle (by decide)

theorem return_notMem (h : IsPlain text) : '\r' ∉ text := by
  intro hmem
  have hle := h '\r' hmem
  cases Nat.not_lt.mpr hle (by decide)

end IsPlain

/-! ## Numbers -/

theorem isPlain_of_isDigit {c : Char} (h : c.isDigit = true) : 0x20 ≤ c.toNat := by
  simp only [Char.isDigit, Bool.and_eq_true, decide_eq_true_eq] at h
  exact Nat.le_trans (by decide) (UInt32.le_iff_toNat_le.mp h.1)

theorem isPlain_digitsOf (n : Nat) : IsPlain (digitsOf n) := fun _ hc =>
  isPlain_of_isDigit (Nat.isDigit_of_mem_toDigits (by decide) (by decide) hc)

theorem isPlain_ofInt (i : Int) : IsPlain (ofInt i) := by
  unfold ofInt
  split
  · exact .cons (by decide) (isPlain_digitsOf _)
  · exact isPlain_digitsOf _

theorem isPlain_zeros (n : Nat) : IsPlain (List.replicate n '0') := by
  intro c hc
  rw [List.eq_of_mem_replicate hc]
  decide

theorem isPlain_positional (s : Scaled) : IsPlain (positional s) := by
  have hdigits := isPlain_digitsOf s.digits
  unfold positional
  simp only []
  split
  · exact (hdigits.append (isPlain_zeros _)).append (.cons (by decide) (.cons (by decide) .nil))
  · split
    · refine .append (hdigits.of_subset fun c hc => List.mem_of_mem_take hc) (.cons (by decide) ?_)
      exact hdigits.of_subset fun c hc => List.mem_of_mem_drop hc
    · refine (IsPlain.append ?_ (isPlain_zeros _)).append hdigits
      exact .cons (by decide) (.cons (by decide) .nil)

theorem isPlain_scientific (plusSign : Bool) (s : Scaled) : IsPlain (scientific plusSign s) := by
  have hdigits := isPlain_digitsOf s.digits
  unfold scientific
  simp only []
  refine (IsPlain.append ?_ (.cons (by decide) ?_)).append (isPlain_ofInt _)
  · split
    · exact .nil
    · next d heq => exact heq ▸ hdigits
    · next d rest _ heq =>
      obtain ⟨hd, hrest⟩ := List.forall_mem_cons.mp (heq ▸ hdigits : IsPlain (d :: rest))
      exact .cons hd (.cons (by decide) hrest)
  · split
    · exact .cons (by decide) .nil
    · exact .nil

/-- The text of a number is plain, and so is that of what is no number. -/
theorem isPlain_write (x : Decimal.Binary) : IsPlain (numberLayout.write x) := by
  have hsign : ∀ negative : Bool, IsPlain (if negative then ['-'] else []) := by
    intro negative
    cases negative with
    | false => exact .nil
    | true => exact .cons (by decide) .nil
  have hnull : IsPlain "null".toList := .of_all (by decide)
  unfold Layout.write
  split
  · exact hnull
  · exact hnull
  · exact hnull
  · exact (hsign _).append (.cons (by decide) (.cons (by decide) (.cons (by decide) .nil)))
  · refine (hsign _).append ?_
    unfold Layout.writeScaled
    split
    · exact isPlain_positional _
    · exact isPlain_scientific _ _

/-! ## Strings -/

theorem isPlain_hexDigit (n : Nat) : 0x20 ≤ (hexDigit n).toNat := by
  have hlt : n % 16 < 16 := Nat.mod_lt n (by decide)
  unfold hexDigit
  generalize n % 16 = m at hlt
  revert m
  decide

/-- A character is plain as it stands in a string: a control character is escaped. -/
theorem isPlain_escapeChar (c : Char) : IsPlain (escapeChar c) := by
  have hpair : ∀ d : Char, 0x20 ≤ d.toNat → IsPlain ['\\', d] :=
    fun d hd => .cons (by decide) (.cons hd .nil)
  unfold escapeChar
  repeat' split
  all_goals first | exact hpair _ (by decide) | skip
  · exact .cons (by decide) (.cons (by decide) (.cons (by decide) (.cons (by decide)
      (.cons (isPlain_hexDigit _) (.cons (isPlain_hexDigit _) .nil)))))
  · next hc => exact .cons (Nat.le_of_not_lt hc) .nil

theorem isPlain_renderText (s : String) : IsPlain (renderText s) := by
  refine .cons (by decide) (.append ?_ (.cons (by decide) .nil))
  intro c hc
  obtain ⟨d, -, hd⟩ := List.mem_flatMap.mp hc
  exact isPlain_escapeChar d c hd

/-! ## Values -/

theorem isPlain_joinCommas {items : List (List Char)} (h : ∀ item ∈ items, IsPlain item) :
    IsPlain (joinCommas items) := by
  induction items with
  | nil => exact .nil
  | cons item rest ih =>
    obtain ⟨hitem, hrest⟩ := List.forall_mem_cons.mp h
    cases rest with
    | nil => exact hitem
    | cons next more => exact hitem.append (.cons (by decide) (ih hrest))

theorem isPlain_renderMembers {members : List (String × List Char)}
    (h : ∀ m ∈ members, IsPlain m.2) : IsPlain (renderMembers members) := by
  refine .cons (by decide) (.append (isPlain_joinCommas fun item hitem => ?_) (.cons (by decide) .nil))
  obtain ⟨m, hm, rfl⟩ := List.mem_map.mp hitem
  exact (isPlain_renderText m.1).append (.cons (by decide) (h m hm))

mutual

theorem isPlain_render : ∀ v : Value, IsPlain v.render
  | .null => .of_all (by decide)
  | .bool true => .of_all (by decide)
  | .bool false => .of_all (by decide)
  | .integer i => isPlain_ofInt i
  | .number x => isPlain_write x
  | .text s => isPlain_renderText s
  | .array items => by
    unfold Value.render
    exact .cons (by decide) (.append (isPlain_joinCommas (isPlain_renderItems items))
      (.cons (by decide) .nil))
  | .object members => by
    unfold Value.render
    exact isPlain_renderMembers (isPlain_renderFields members)

theorem isPlain_renderItems : ∀ items : List Value, ∀ item ∈ renderItems items, IsPlain item
  | [] => nofun
  | v :: rest => by
    unfold renderItems
    exact List.forall_mem_cons.mpr ⟨isPlain_render v, isPlain_renderItems rest⟩

theorem isPlain_renderFields : ∀ members : List (String × Value),
    ∀ m ∈ renderFields members, IsPlain m.2
  | [] => nofun
  | (_, v) :: rest => by
    unfold renderFields
    exact List.forall_mem_cons.mpr ⟨isPlain_render v, isPlain_renderFields rest⟩

end

end LogSpool.Json
