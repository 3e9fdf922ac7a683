import LogSpool.Proofs.Json.Numbers
import LogSpool.Proofs.Json.Strings
set_option autoImplicit false

/-!
# Json: a text is read exactly if it is one

The reader of values against the grammar, in both directions, and from that
`Value.read?_eq_some_iff`: what `Value.read?` accepts are the texts of RFC 8259 whose strings
stand for whole characters, and each is read as the one value that it stands for.

The soundness of the mutual readers is an induction on the fuel, with one field of
`SoundValues` for each; their completeness is an induction on the derivation, for which the
text is long enough as fuel.
-/

namespace LogSpool.Json

open LogSpool.Decimal (isDigit)

variable {text rest : List Char}

/-! ## White space -/

theorem Blank.append {more : List Char} (h : Blank text) (hmore : Blank more) : Blank (text ++ more) :=
  List.forall_mem_append.mpr ⟨h, hmore⟩

/-- All of the white space before something else is skipped. -/
theorem skipSpace_append (h : Blank text) {c : Char} (hc : isSpace c = false) (rest : List Char) :
    skipSpace (text ++ c :: rest) = c :: rest := by
  unfold skipSpace
  rw [List.dropWhile_append_of_pos h, List.dropWhile_cons, hc]
  rfl

theorem skipSpace_blank (h : Blank text) : skipSpace text = [] := by
  rw [← List.append_nil text]
  exact List.dropWhile_append_of_pos h

theorem exists_blank_of_skipSpace (text : List Char) :
    ∃ blank, text = blank ++ skipSpace text ∧ Blank blank := by
  refine ⟨text.takeWhile isSpace, List.takeWhile_append_dropWhile.symm, fun c hc => ?_⟩
  exact List.all_eq_true.mp List.all_takeWhile c hc

theorem isSpace_iff (c : Char) : isSpace c = true ↔ c = ' ' ∨ c = '\t' ∨ c = '\n' ∨ c = '\r' := by
  unfold isSpace
  simp only [Bool.or_eq_true, beq_iff_eq, or_assoc]

theorem numberEnds_append {blank : List Char} (h : Blank blank) (hrest : NumberEnds rest) :
    NumberEnds (blank ++ rest) := by
  cases blank with
  | nil => exact hrest
  | cons c more =>
    apply numberEnds_cons
    obtain rfl | rfl | rfl | rfl := (isSpace_iff c).mp (h c List.mem_cons_self) <;> decide

/-! ## Items and members -/

theorem joinCommas_cons (item : List Char) {more : List (List Char)} (h : more ≠ []) :
    joinCommas (item :: more) = item ++ ',' :: joinCommas more := by
  cases more with
  | nil => exact absurd rfl h
  | cons => rfl

/-- What comes before the first of some texts comes before all of them. -/
theorem joinCommas_append_cons (before item : List Char) (more : List (List Char)) :
    joinCommas ((before ++ item) :: more) = before ++ joinCommas (item :: more) := by
  cases more with
  | nil => rfl
  | cons => exact List.append_assoc _ _ _

/-- The items of an array, one at least, between its brackets. -/
def AreItems (text : List Char) (vs : List Value) : Prop :=
  ∃ items : List Item, items ≠ [] ∧ (∀ i ∈ items, i.IsSpaced ∧ IsValue i.text i.value) ∧
    text = joinCommas (items.map Item.spaced) ∧ vs = items.map Item.value

namespace AreItems

variable {blank before t after : List Char} {v : Value} {vs : List Value}

theorem one (hbefore : Blank before) (h : IsValue t v) (hafter : Blank after) :
    AreItems (before ++ t ++ after) [v] :=
  ⟨[⟨before, t, after, v⟩], List.cons_ne_nil _ _,
    List.forall_mem_singleton.mpr ⟨⟨hbefore, hafter⟩, h⟩, rfl, rfl⟩

theorem more (hbefore : Blank before) (h : IsValue t v) (hafter : Blank after)
    (hmore : AreItems text vs) : AreItems (before ++ t ++ after ++ ',' :: text) (v :: vs) := by
  obtain ⟨items, hsome, hitems, rfl, rfl⟩ := hmore
  refine ⟨⟨before, t, after, v⟩ :: items, List.cons_ne_nil _ _,
    List.forall_mem_cons.mpr ⟨⟨⟨hbefore, hafter⟩, h⟩, hitems⟩, ?_, rfl⟩
  rw [List.map_cons, joinCommas_cons _ (mt List.map_eq_nil_iff.mp hsome)]
  rfl

/-- White space before the items is that of the first one. -/
theorem blank_append (hblank : Blank blank) (h : AreItems text vs) : AreItems (blank ++ text) vs := by
  obtain ⟨items, hsome, hitems, rfl, rfl⟩ := h
  obtain ⟨i, more, rfl⟩ := List.exists_cons_of_ne_nil hsome
  obtain ⟨hi, hmore⟩ := List.forall_mem_cons.mp hitems
  refine ⟨{ i with before := blank ++ i.before } :: more, List.cons_ne_nil _ _,
    List.forall_mem_cons.mpr ⟨⟨⟨hblank.append hi.1.1, hi.1.2⟩, hi.2⟩, hmore⟩, ?_, rfl⟩
  rw [List.map_cons, List.map_cons, ← joinCommas_append_cons]
  simp [Item.spaced]

theorem isValue (h : AreItems text vs) : IsValue ('[' :: text ++ [']']) (.array vs) := by
  obtain ⟨items, hsome, hitems, rfl, rfl⟩ := h
  exact .array hsome (fun i hi => (hitems i hi).1) fun i hi => (hitems i hi).2

end AreItems

/-- The members of an object, one at least, between its braces. -/
def AreMembers (text : List Char) (vs : List (String × Value)) : Prop :=
  ∃ members : List Member, members ≠ [] ∧
    (∀ m ∈ members, m.IsNamed ∧ IsValue m.item.text m.item.value) ∧
    text = joinCommas (members.map Member.spaced) ∧ vs = members.map fun m => (m.name, m.item.value)

namespace AreMembers

variable {blank : List Char} {m : Member} {vs : List (String × Value)}

theorem one (hm : m.IsNamed) (h : IsValue m.item.text m.item.value) :
    AreMembers m.spaced [(m.name, m.item.value)] :=
  ⟨[m], List.cons_ne_nil _ _, List.forall_mem_singleton.mpr ⟨hm, h⟩, rfl, rfl⟩

theorem more (hm : m.IsNamed) (h : IsValue m.item.text m.item.value) (hmore : AreMembers text vs) :
    AreMembers (m.spaced ++ ',' :: text) ((m.name, m.item.value) :: vs) := by
  obtain ⟨members, hsome, hmembers, rfl, rfl⟩ := hmore
  refine ⟨m :: members, List.cons_ne_nil _ _, List.forall_mem_cons.mpr ⟨⟨hm, h⟩, hmembers⟩, ?_, rfl⟩
  rw [List.map_cons, joinCommas_cons _ (mt List.map_eq_nil_iff.mp hsome)]

theorem blank_append (hblank : Blank blank) (h : AreMembers text vs) :
    AreMembers (blank ++ text) vs := by
  obtain ⟨members, hsome, hmembers, rfl, rfl⟩ := h
  obtain ⟨m, more, rfl⟩ := List.exists_cons_of_ne_nil hsome
  obtain ⟨⟨⟨hbefore, hname⟩, hvalue⟩, hmore⟩ := List.forall_mem_cons.mp hmembers
  refine ⟨{ m with before := blank ++ m.before } :: more, List.cons_ne_nil _ _,
    List.forall_mem_cons.mpr ⟨⟨⟨hblank.append hbefore, hname⟩, hvalue⟩, hmore⟩, ?_, rfl⟩
  rw [List.map_cons, List.map_cons, ← joinCommas_append_cons]
  simp [Member.spaced]

theorem isValue (h : AreMembers text vs) : IsValue ('\x7b' :: text ++ ['\x7d']) (.object vs) := by
  obtain ⟨members, hsome, hmembers, rfl, rfl⟩ := h
  exact .object hsome (fun m hm => (hmembers m hm).1) fun m hm => (hmembers m hm).2

end AreMembers

/-! ## Soundness -/

/-- What the readers give, with some fuel, was derived. -/
structure SoundValues (fuel : Nat) : Prop where
  value : ∀ {text rest v}, readValue? fuel text = some (v, rest) →
    ∃ before t, text = before ++ t ++ rest ∧ Blank before ∧ IsValue t v
  items : ∀ {text rest vs}, readItems? fuel text = some (vs, rest) →
    ∃ t, text = t ++ ']' :: rest ∧ AreItems t vs
  members : ∀ {text rest vs}, readMembers? fuel text = some (vs, rest) →
    ∃ t, text = t ++ '\x7d' :: rest ∧ AreMembers t vs

namespace SoundValues

variable {fuel : Nat}

theorem items_succ (h : SoundValues fuel) {vs : List Value}
    (hread : readItems? (fuel + 1) text = some (vs, rest)) :
    ∃ t, text = t ++ ']' :: rest ∧ AreItems t vs := by
  rw [readItems?] at hread
  obtain ⟨⟨v, mid⟩, hfirst, hrest⟩ := Option.bind_eq_some_iff.mp hread
  obtain ⟨before, t, rfl, hbefore, hv⟩ := h.value hfirst
  obtain ⟨after, hmid, hafter⟩ := exists_blank_of_skipSpace mid
  dsimp only at hrest
  split at hrest
  · next hclose =>
    cases hrest
    refine ⟨_, ?_, .one hbefore hv hafter⟩
    rw [hmid, hclose, List.append_assoc _ after]
  · next last hcomma =>
    obtain ⟨⟨others, final⟩, hothers, hpure⟩ := Option.bind_eq_some_iff.mp hrest
    cases hpure
    obtain ⟨more, rfl, hmore⟩ := h.items hothers
    refine ⟨_, ?_, .more hbefore hv hafter hmore⟩
    rw [hmid, hcomma]
    simp
  · cases hrest

theorem members_succ (h : SoundValues fuel) {vs : List (String × Value)}
    (hread : readMembers? (fuel + 1) text = some (vs, rest)) :
    ∃ t, text = t ++ '\x7d' :: rest ∧ AreMembers t vs := by
  obtain ⟨before, htext, hbefore⟩ := exists_blank_of_skipSpace text
  rw [readMembers?] at hread
  split at hread
  · next afterQuote hquote =>
    obtain ⟨⟨name, afterName⟩, hname, hrest⟩ := Option.bind_eq_some_iff.mp hread
    obtain ⟨body, hafterQuote, hbody⟩ := sound_readText? hname
    obtain ⟨after, hafterName, hafter⟩ := exists_blank_of_skipSpace afterName
    dsimp only at hrest
    split at hrest
    · next afterColon hcolon =>
      obtain ⟨⟨v, mid⟩, hvalue, hlast⟩ := Option.bind_eq_some_iff.mp hrest
      obtain ⟨first, t, hafterColon, hfirst, hv⟩ := h.value hvalue
      obtain ⟨last, hmid, hspace⟩ := exists_blank_of_skipSpace mid
      have hnamed : Member.IsNamed ⟨before, body, after, name, ⟨first, t, last, v⟩⟩ :=
        ⟨hbefore, hbody, hafter, hfirst, hspace⟩
      rw [htext, hquote, hafterQuote, hafterName, hcolon, hafterColon, hmid]
      dsimp only at hlast
      split at hlast
      · next hclose =>
        cases hlast
        refine ⟨_, ?_, .one hnamed hv⟩
        rw [hclose]
        simp [Member.spaced, Item.spaced]
      · next afterComma hcomma =>
        obtain ⟨⟨others, final⟩, hothers, hpure⟩ := Option.bind_eq_some_iff.mp hlast
        cases hpure
        obtain ⟨more, rfl, hmore⟩ := h.members hothers
        refine ⟨_, ?_, .more hnamed hv hmore⟩
        rw [hcomma]
        simp [Member.spaced, Item.spaced]
      · cases hlast
    · cases hrest
  · cases hread

theorem value_succ (h : SoundValues fuel) {v : Value}
    (hread : readValue? (fuel + 1) text = some (v, rest)) :
    ∃ before t, text = before ++ t ++ rest ∧ Blank before ∧ IsValue t v := by
  have hvalue : ∃ t, skipSpace text = t ++ rest ∧ IsValue t v := by
    rw [readValue?] at hread
    split at hread
    · next heq =>
      cases hread
      exact ⟨_, heq, .null⟩
    · next heq =>
      cases hread
      exact ⟨_, heq, .yes⟩
    · next heq =>
      cases hread
      exact ⟨_, heq, .no⟩
    · next heq =>
      obtain ⟨⟨s, final⟩, htext, hv⟩ := Option.map_eq_some_iff.mp hread
      cases hv
      obtain ⟨body, rfl, hbody⟩ := sound_readText? htext
      exact ⟨_, heq, .text hbody⟩
    · next after heq =>
      obtain ⟨blank, hafter, hblank⟩ := exists_blank_of_skipSpace after
      split at hread
      · next hclose =>
        cases hread
        refine ⟨_, ?_, .emptyArray hblank⟩
        rw [heq, hafter, hclose]
        simp
      · obtain ⟨⟨vs, final⟩, hitems, hv⟩ := Option.map_eq_some_iff.mp hread
        cases hv
        obtain ⟨t, hskip, hitems⟩ := h.items hitems
        refine ⟨_, ?_, (hitems.blank_append hblank).isValue⟩
        rw [heq, hafter, hskip]
        simp
    · next after heq =>
      obtain ⟨blank, hafter, hblank⟩ := exists_blank_of_skipSpace after
      split at hread
      · next hclose =>
        cases hread
        refine ⟨_, ?_, .emptyObject hblank⟩
        rw [heq, hafter, hclose]
        simp
      · obtain ⟨⟨vs, final⟩, hmembers, hv⟩ := Option.map_eq_some_iff.mp hread
        cases hv
        obtain ⟨t, hskip, hmembers⟩ := h.members hmembers
        refine ⟨_, ?_, (hmembers.blank_append hblank).isValue⟩
        rw [heq, hafter, hskip]
        simp
    · obtain ⟨t, heq, hnumber⟩ := sound_readNumber? hread
      exact ⟨t, heq, .number hnumber⟩
  obtain ⟨before, htext, hbefore⟩ := exists_blank_of_skipSpace text
  obtain ⟨t, heq, hv⟩ := hvalue
  refine ⟨before, t, ?_, hbefore, hv⟩
  rw [List.append_assoc, ← heq]
  exact htext

end SoundValues

/-- The readers are sound with any fuel. -/
theorem soundValues (fuel : Nat) : SoundValues fuel := by
  induction fuel with
  | zero =>
    constructor <;> intro text rest v hread <;> cases hread
  | succ fuel ih => exact ⟨ih.value_succ, ih.items_succ, ih.members_succ⟩

/-! ## Completeness -/

/-- The text of a number starts with a minus sign or with a digit. -/
theorem IsNumber.exists_cons {v : Value} (h : IsNumber text v) :
    ∃ c more, text = c :: more ∧ (c = '-' ∨ isDigit c = true) := by
  obtain @⟨sign, whole, fraction, exponent, negative, places, e, hsign, hwhole, -, -⟩ := h
  cases hsign with
  | minus => exact ⟨'-', _, rfl, .inl rfl⟩
  | plus =>
    obtain ⟨d, more, rfl⟩ := List.exists_cons_of_ne_nil hwhole.nonempty
    exact ⟨d, _, rfl, .inr (hwhole.digit d List.mem_cons_self)⟩

/-- The text of a value starts with no white space, and with nothing that ends an array. -/
theorem IsValue.exists_cons {v : Value} (h : IsValue text v) :
    ∃ c more, text = c :: more ∧ isSpace c = false ∧ c ≠ ']' := by
  cases h with
  | number h =>
    obtain ⟨c, more, rfl, hc⟩ := h.exists_cons
    refine ⟨c, more, rfl, ?_, ?_⟩
    · rw [Bool.eq_false_iff, ne_eq, isSpace_iff]
      rintro (rfl | rfl | rfl | rfl) <;> exact absurd hc (by decide)
    · rintro rfl
      exact absurd hc (by decide)
  | null | yes | no | text | emptyArray | array | emptyObject | object =>
    exact ⟨_, _, rfl, by decide, by decide⟩

theorem readValue?_skip {blank : List Char} (hblank : Blank blank) {c : Char}
    (hc : isSpace c = false) (fuel : Nat) (rest : List Char) :
    readValue? fuel (blank ++ c :: rest) = readValue? fuel (c :: rest) := by
  cases fuel with
  | zero => rfl
  | succ fuel =>
    have hnone := skipSpace_append blank_nil hc rest
    rw [List.nil_append] at hnone
    rw [readValue?, readValue?, skipSpace_append hblank hc, hnone]

/-- A text, after white space and before everything that goes on with no number, is read as a
value by a reader with enough fuel. -/
def Taken (text : List Char) (v : Value) : Prop :=
  ∀ {before : List Char} (fuel : Nat) (rest : List Char), Blank before → NumberEnds rest →
    2 * text.length ≤ fuel → readValue? fuel (before ++ (text ++ rest)) = some (v, rest)

/-- It suffices to look at the text without the white space. -/
theorem taken_of_unspaced {v : Value} (hv : IsValue text v)
    (h : ∀ fuel rest, NumberEnds rest → 2 * text.length ≤ fuel + 1 →
      readValue? (fuel + 1) (text ++ rest) = some (v, rest)) : Taken text v := by
  intro before fuel rest hbefore hrest hfuel
  obtain ⟨c, tail, rfl, hc, -⟩ := hv.exists_cons
  rw [List.cons_append, readValue?_skip hbefore hc, ← List.cons_append]
  cases fuel with
  | zero => exact absurd hfuel (by simp)
  | succ fuel => exact h fuel rest hrest hfuel

theorem readItems?_close {fuel : Nat} {v : Value} {blank : List Char} (hblank : Blank blank)
    (hvalue : readValue? fuel text = some (v, blank ++ ']' :: rest)) :
    readItems? (fuel + 1) text = some ([v], rest) := by
  rw [readItems?, hvalue]
  simp only [Option.bind_eq_bind, Option.bind_some]
  rw [skipSpace_append hblank (by decide)]
  rfl

theorem readItems?_comma {fuel : Nat} {v : Value} {blank more : List Char} {vs : List Value}
    (hblank : Blank blank) (hvalue : readValue? fuel text = some (v, blank ++ ',' :: more))
    (hmore : readItems? fuel more = some (vs, rest)) :
    readItems? (fuel + 1) text = some (v :: vs, rest) := by
  rw [readItems?, hvalue]
  simp only [Option.bind_eq_bind, Option.bind_some]
  rw [skipSpace_append hblank (by decide)]
  change (readItems? fuel more).bind _ = _
  rw [hmore]
  rfl

/-- What is read after a member: the end of its object, or a comma and other members. -/
def membersAfter? (fuel : Nat) (m : String × Value) (text : List Char) :
    Option (List (String × Value) × List Char) :=
  match skipSpace text with
  | '\x7d' :: rest => some ([m], rest)
  | ',' :: rest => do
    let (members, rest) ← readMembers? fuel rest
    return (m :: members, rest)
  | _ => none

theorem readMembers?_member {fuel : Nat} {name : String} {v : Value}
    {before afterName mid after : List Char} (hbefore : Blank before) (hafterName : Blank afterName)
    (hname : readText? text = some (name, afterName ++ ':' :: mid))
    (hvalue : readValue? fuel mid = some (v, after)) :
    readMembers? (fuel + 1) (before ++ '"' :: text) = membersAfter? fuel (name, v) after := by
  rw [readMembers?, skipSpace_append hbefore (by decide)]
  change (readText? text).bind _ = _
  rw [hname, Option.bind_some]
  dsimp only
  rw [skipSpace_append hafterName (by decide)]
  change (readValue? fuel mid).bind _ = _
  rw [hvalue, Option.bind_some]
  rfl

theorem membersAfter?_close {blank : List Char} (hblank : Blank blank) (fuel : Nat)
    (m : String × Value) (rest : List Char) :
    membersAfter? fuel m (blank ++ '\x7d' :: rest) = some ([m], rest) := by
  unfold membersAfter?
  rw [skipSpace_append hblank (by decide)]
  rfl

theorem membersAfter?_comma {fuel : Nat} {blank more : List Char} {vs : List (String × Value)}
    (hblank : Blank blank) (m : String × Value) (hmore : readMembers? fuel more = some (vs, rest)) :
    membersAfter? fuel m (blank ++ ',' :: more) = some (m :: vs, rest) := by
  unfold membersAfter?
  rw [skipSpace_append hblank (by decide)]
  change (readMembers? fuel more).bind _ = _
  rw [hmore]
  rfl

theorem readItems?_of_taken (items : List Item) (hsome : items ≠ [])
    (h : ∀ i ∈ items, i.IsSpaced ∧ Taken i.text i.value) (rest : List Char) (fuel : Nat)
    (hfuel : 2 * (joinCommas (items.map Item.spaced)).length < fuel) :
    readItems? fuel (joinCommas (items.map Item.spaced) ++ ']' :: rest) =
      some (items.map Item.value, rest) := by
  induction items generalizing fuel with
  | nil => exact absurd rfl hsome
  | cons i more ih =>
    obtain ⟨⟨⟨hbefore, hafter⟩, htaken⟩, hmore⟩ := List.forall_mem_cons.mp h
    have hclose : ∀ last, NumberEnds (i.after ++ ']' :: last) := fun last =>
      numberEnds_append hafter (numberEnds_cons (by decide))
    have hcomma : ∀ last, NumberEnds (i.after ++ ',' :: last) := fun last =>
      numberEnds_append hafter (numberEnds_cons (by decide))
    cases fuel with
    | zero => exact absurd hfuel (Nat.not_lt_zero _)
    | succ fuel =>
      cases more with
      | nil =>
        simp only [List.map_cons, List.map_nil, joinCommas, Item.spaced, List.append_assoc,
          List.length_append] at hfuel ⊢
        have hvalue := htaken fuel _ hbefore (hclose rest) (by omega)
        exact readItems?_close hafter hvalue
      | cons j others =>
        have hnext : (j :: others).map Item.spaced ≠ [] := List.cons_ne_nil _ _
        have hrest := ih (List.cons_ne_nil _ _) hmore
        rw [List.map_cons, joinCommas_cons _ hnext] at hfuel ⊢
        simp only [Item.spaced, List.append_assoc, List.length_append, List.length_cons,
          List.cons_append] at hfuel ⊢
        exact readItems?_comma hafter (htaken fuel _ hbefore (hcomma _) (by omega))
          (hrest fuel (by omega))

theorem readMembers?_of_taken (members : List Member) (hsome : members ≠ [])
    (h : ∀ m ∈ members, m.IsNamed ∧ Taken m.item.text m.item.value) (rest : List Char) (fuel : Nat)
    (hfuel : 2 * (joinCommas (members.map Member.spaced)).length < fuel) :
    readMembers? fuel (joinCommas (members.map Member.spaced) ++ '\x7d' :: rest) =
      some (members.map (fun m => (m.name, m.item.value)), rest) := by
  induction members generalizing fuel with
  | nil => exact absurd rfl hsome
  | cons m more ih =>
    obtain ⟨⟨⟨hbefore, hbody, hcolon, hfirst, hlast⟩, htaken⟩, hmore⟩ := List.forall_mem_cons.mp h
    have hclose : ∀ last, NumberEnds (m.item.after ++ '\x7d' :: last) := fun last =>
      numberEnds_append hlast (numberEnds_cons (by decide))
    have hcomma : ∀ last, NumberEnds (m.item.after ++ ',' :: last) := fun last =>
      numberEnds_append hlast (numberEnds_cons (by decide))
    cases fuel with
    | zero => exact absurd hfuel (Nat.not_lt_zero _)
    | succ fuel =>
      cases more with
      | nil =>
        simp only [List.map_cons, List.map_nil, joinCommas, Member.spaced, Item.spaced,
          List.append_assoc, List.cons_append, List.length_append, List.length_cons] at hfuel ⊢
        have hvalue := htaken fuel _ hfirst (hclose rest) (by omega)
        rw [readMembers?_member hbefore hcolon (complete_readText? hbody trivial) hvalue]
        exact membersAfter?_close hlast fuel _ rest
      | cons next others =>
        have hnext : (next :: others).map Member.spaced ≠ [] := List.cons_ne_nil _ _
        have hrest := ih (List.cons_ne_nil _ _) hmore
        rw [List.map_cons, joinCommas_cons _ hnext] at hfuel ⊢
        simp only [Member.spaced, Item.spaced, List.append_assoc, List.cons_append,
          List.length_append, List.length_cons] at hfuel ⊢
        have hvalue := htaken fuel _ hfirst
          (hcomma (joinCommas ((next :: others).map Member.spaced) ++ '\x7d' :: rest)) (by omega)
        rw [readMembers?_member hbefore hcolon (complete_readText? hbody trivial) hvalue]
        exact membersAfter?_comma hlast _ (hrest fuel (by omega))

/-- A text that starts like a number is read as a number. -/
theorem readValue?_number {c : Char} (hc : c = '-' ∨ isDigit c = true) (fuel : Nat)
    (text : List Char) : readValue? (fuel + 1) (c :: text) = readNumber? (c :: text) := by
  have hspace : isSpace c = false := by
    rw [Bool.eq_false_iff, ne_eq, isSpace_iff]
    rintro (rfl | rfl | rfl | rfl) <;> exact absurd hc (by decide)
  have hskip := skipSpace_append blank_nil hspace text
  rw [List.nil_append] at hskip
  rw [readValue?, hskip]
  split
  case h_7 => rfl
  all_goals
    next heq =>
    rw [(List.cons.inj heq).1] at hc
    exact absurd hc (by decide)

theorem readValue?_emptyArray {blank : List Char} (hblank : Blank blank) (fuel : Nat)
    (rest : List Char) :
    readValue? (fuel + 1) ('[' :: (blank ++ ']' :: rest)) = some (.array [], rest) := by
  have hclose := skipSpace_append hblank (by decide : isSpace ']' = false) rest
  rw [readValue?]
  split
  case h_5 heq =>
    cases heq
    rw [hclose]
    rfl
  case h_7 hno _ => exact absurd rfl (hno _)
  all_goals
    next heq => exact absurd (List.cons.inj heq).1 (by decide)

theorem readValue?_array {fuel : Nat} {c : Char} {blank : List Char} {vs : List Value}
    (hblank : Blank blank) (hc : isSpace c = false) (hclose : c ≠ ']')
    (hitems : readItems? fuel (c :: text) = some (vs, rest)) :
    readValue? (fuel + 1) ('[' :: (blank ++ c :: text)) = some (.array vs, rest) := by
  have hskip := skipSpace_append hblank hc text
  rw [readValue?]
  split
  case h_5 heq =>
    cases heq
    rw [hskip]
    split
    · next heq => exact absurd (List.cons.inj heq).1 hclose
    · rw [hitems]
      rfl
  case h_7 hno _ => exact absurd rfl (hno _)
  all_goals
    next heq => exact absurd (List.cons.inj heq).1 (by decide)

theorem readValue?_emptyObject {blank : List Char} (hblank : Blank blank) (fuel : Nat)
    (rest : List Char) :
    readValue? (fuel + 1) ('\x7b' :: (blank ++ '\x7d' :: rest)) = some (.object [], rest) := by
  have hclose := skipSpace_append hblank (by decide : isSpace '\x7d' = false) rest
  rw [readValue?]
  split
  case h_6 heq =>
    cases heq
    rw [hclose]
    rfl
  case h_7 hno => exact absurd rfl (hno _)
  all_goals
    next heq => exact absurd (List.cons.inj heq).1 (by decide)

theorem readValue?_object {fuel : Nat} {blank : List Char} {vs : List (String × Value)}
    (hblank : Blank blank) (hmembers : readMembers? fuel ('"' :: text) = some (vs, rest)) :
    readValue? (fuel + 1) ('\x7b' :: (blank ++ '"' :: text)) = some (.object vs, rest) := by
  have hskip := skipSpace_append hblank (by decide : isSpace '"' = false) text
  rw [readValue?]
  split
  case h_6 heq =>
    cases heq
    rw [hskip]
    split
    · next heq => exact absurd (List.cons.inj heq).1 (by decide)
    · rw [hmembers]
      rfl
  case h_7 hno => exact absurd rfl (hno _)
  all_goals
    next heq => exact absurd (List.cons.inj heq).1 (by decide)

theorem taken_array {items : List Item} (hsome : items ≠ [])
    (h : ∀ i ∈ items, i.IsSpaced ∧ IsValue i.text i.value ∧ Taken i.text i.value) :
    Taken ('[' :: joinCommas (items.map Item.spaced) ++ [']']) (.array (items.map Item.value)) := by
  have hvalue := IsValue.array hsome (fun i hi => (h i hi).1) fun i hi => (h i hi).2.1
  apply taken_of_unspaced hvalue
  intro fuel rest _ hfuel
  obtain ⟨i, more, rfl⟩ := List.exists_cons_of_ne_nil hsome
  obtain ⟨⟨⟨hbefore, hafter⟩, hi, htaken⟩, hmore⟩ := List.forall_mem_cons.mp h
  obtain ⟨c, tail, htext, hc, hclose⟩ := hi.exists_cons
  -- The reader of the items starts at the text of the first one.
  have hunspaced : ∀ j ∈ { i with before := [] } :: more, j.IsSpaced ∧ Taken j.text j.value :=
    List.forall_mem_cons.mpr ⟨⟨⟨blank_nil, hafter⟩, htaken⟩,
      fun j hj => ⟨(hmore j hj).1, (hmore j hj).2.2⟩⟩
  have hitems := readItems?_of_taken ({ i with before := [] } :: more) (List.cons_ne_nil _ _)
    hunspaced rest fuel
  have hstart : Item.spaced { i with before := [] } = [c] ++ (tail ++ i.after) := by
    simp [Item.spaced, htext]
  have hspaced : i.spaced = i.before ++ ([c] ++ (tail ++ i.after)) := by
    simp [Item.spaced, htext]
  rw [List.map_cons, hstart, joinCommas_append_cons] at hitems
  rw [List.map_cons, hspaced, joinCommas_append_cons, joinCommas_append_cons] at hfuel ⊢
  simp only [List.length_append, List.length_cons, List.length_nil, List.cons_append,
    List.nil_append, List.append_assoc] at hitems hfuel ⊢
  exact readValue?_array hbefore hc hclose (hitems (by omega))

theorem taken_object {members : List Member} (hsome : members ≠ [])
    (h : ∀ m ∈ members, m.IsNamed ∧ IsValue m.item.text m.item.value ∧ Taken m.item.text m.item.value) :
    Taken ('\x7b' :: joinCommas (members.map Member.spaced) ++ ['\x7d'])
      (.object (members.map fun m => (m.name, m.item.value))) := by
  have hvalue := IsValue.object hsome (fun m hm => (h m hm).1) fun m hm => (h m hm).2.1
  apply taken_of_unspaced hvalue
  intro fuel rest _ hfuel
  obtain ⟨m, more, rfl⟩ := List.exists_cons_of_ne_nil hsome
  obtain ⟨⟨⟨hbefore, hname⟩, hm, htaken⟩, hmore⟩ := List.forall_mem_cons.mp h
  -- The reader of the members starts at the quote of the first name.
  have hunspaced : ∀ n ∈ { m with before := [] } :: more, n.IsNamed ∧ Taken n.item.text n.item.value :=
    List.forall_mem_cons.mpr ⟨⟨⟨blank_nil, hname⟩, htaken⟩,
      fun n hn => ⟨(hmore n hn).1, (hmore n hn).2.2⟩⟩
  have hmembers := readMembers?_of_taken ({ m with before := [] } :: more) (List.cons_ne_nil _ _)
    hunspaced rest fuel
  have hstart : Member.spaced { m with before := [] } =
      ['"'] ++ (m.body ++ m.after ++ ':' :: m.item.spaced) := by simp [Member.spaced]
  have hspaced : m.spaced = m.before ++ (['"'] ++ (m.body ++ m.after ++ ':' :: m.item.spaced)) := by
    simp [Member.spaced]
  rw [List.map_cons, hstart, joinCommas_append_cons] at hmembers
  rw [List.map_cons, hspaced, joinCommas_append_cons, joinCommas_append_cons] at hfuel ⊢
  simp only [List.length_append, List.length_cons, List.length_nil, List.cons_append,
    List.nil_append, List.append_assoc] at hmembers hfuel ⊢
  exact readValue?_object hbefore (hmembers (by omega))

/-- A value is read. -/
theorem taken_of_isValue {v : Value} (h : IsValue text v) : Taken text v := by
  induction h with
  | null => exact taken_of_unspaced .null fun fuel rest _ _ => rfl
  | yes => exact taken_of_unspaced .yes fun fuel rest _ _ => rfl
  | no => exact taken_of_unspaced .no fun fuel rest _ _ => rfl
  | number h =>
    apply taken_of_unspaced (.number h)
    intro fuel rest hrest _
    have hread := complete_readNumber? h hrest
    obtain ⟨c, more, rfl, hc⟩ := h.exists_cons
    rw [List.cons_append, readValue?_number hc]
    exact hread
  | text h =>
    apply taken_of_unspaced (.text h)
    intro fuel rest _ _
    change (readText? (_ ++ rest)).map _ = _
    rw [complete_readText? h trivial]
    rfl
  | emptyArray h =>
    apply taken_of_unspaced (.emptyArray h)
    intro fuel rest _ _
    rw [List.cons_append, List.cons_append, List.append_assoc]
    exact readValue?_emptyArray h fuel rest
  | array hsome hspaced h ih => exact taken_array hsome fun i hi => ⟨hspaced i hi, h i hi, ih i hi⟩
  | emptyObject h =>
    apply taken_of_unspaced (.emptyObject h)
    intro fuel rest _ _
    rw [List.cons_append, List.cons_append, List.append_assoc]
    exact readValue?_emptyObject h fuel rest
  | object hsome hnamed h ih => exact taken_object hsome fun m hm => ⟨hnamed m hm, h m hm, ih m hm⟩

/-- A text is read as what it stands for, and nothing else is read. -/
theorem Value.read?_eq_some_iff (text : List Char) (v : Value) :
    Value.read? text = some v ↔ IsJson text v := by
  constructor
  · intro h
    obtain ⟨⟨value, rest⟩, hread, hrest⟩ := Option.bind_eq_some_iff.mp h
    obtain ⟨before, t, htext, hbefore, hv⟩ := (soundValues _).value hread
    obtain ⟨after, hafter, hblank⟩ := exists_blank_of_skipSpace rest
    dsimp only at hrest
    split at hrest
    · next hempty =>
      cases hrest
      rw [List.isEmpty_iff.mp hempty, List.append_nil] at hafter
      rw [htext, hafter]
      exact .mk hbefore hv hblank
    · cases hrest
  · rintro @⟨before, t, after, v, hbefore, hv, hafter⟩
    have hread : readValue? (2 * (before ++ t ++ after).length + 1) (before ++ t ++ after) =
        some (v, after) := by
      have hends := numberEnds_append hafter numberEnds_nil
      rw [List.append_nil] at hends
      rw [List.append_assoc]
      apply taken_of_isValue hv _ _ hbefore hends
      rw [List.length_append, List.length_append]
      omega
    unfold Value.read?
    rw [hread]
    simp only [Option.bind_eq_bind, Option.bind_some, skipSpace_blank hafter]
    rfl

end LogSpool.Json
