import LogSpool.Proofs.Json.Numerals
set_option autoImplicit false

/-!
# Json: what is printed is a text of the grammar

The text of a value stands for the value in its `normal` form, in which a number that is not
finite is null.  A value is `Distinct` when no object in it, however deep, names two members
alike, and it stays so in its normal form.
-/

namespace LogSpool.Json

/-! ## Strings -/

theorem hexValue?_hexDigit (n : Nat) : hexValue? (hexDigit n) = some (n % 16) := by
  have hall : ∀ d < 16, hexValue? (Nat.digitChar d) = some d := by decide
  exact hall (n % 16) (Nat.mod_lt n (by decide))

/-- A control character is escaped by its number. -/
theorem isChar_control {c : Char} (h : c.toNat < 0x20) :
    IsChar ['\\', 'u', '0', '0', hexDigit (c.toNat / 16), hexDigit c.toNat] c := by
  have hunit := IsUnit.mk (by decide : hexValue? '0' = some 0) (by decide : hexValue? '0' = some 0)
    (hexValue?_hexDigit (c.toNat / 16)) (hexValue?_hexDigit c.toNat)
  have hvalue : ((0 * 16 + 0) * 16 + c.toNat / 16 % 16) * 16 + c.toNat % 16 = c.toNat := by omega
  rw [hvalue] at hunit
  have hhigh : isHighSurrogate c.toNat = false := by
    unfold isHighSurrogate
    simp only [Bool.and_eq_false_iff, decide_eq_false_iff_not]
    omega
  have hlow : isLowSurrogate c.toNat = false := by
    unfold isLowSurrogate
    simp only [Bool.and_eq_false_iff, decide_eq_false_iff_not]
    omega
  have hchar := IsChar.unit hunit hhigh hlow
  rwa [Char.ofNat_toNat] at hchar

/-- A character is escaped as the grammar has it. -/
theorem isChar_escapeChar (c : Char) : IsChar (escapeChar c) c := by
  by_cases hquote : c = '"'
  · subst hquote
    exact .short (by decide)
  by_cases hslash : c = '\\'
  · subst hslash
    exact .short (by decide)
  unfold escapeChar
  rw [if_neg hquote, if_neg hslash]
  repeat' split
  -- The escapes of one letter go first.
  all_goals first
    | next h =>
      subst h
      exact .short (by decide)
    | skip
  · next hcontrol => exact isChar_control hcontrol
  · next hplain => exact .plain (Nat.not_lt.mp hplain) hquote hslash

theorem isChars_flatMap (cs : List Char) : IsChars (cs.flatMap escapeChar) cs := by
  induction cs with
  | nil => exact .nil
  | cons c cs ih =>
    rw [List.flatMap_cons]
    exact .cons (isChar_escapeChar c) ih

theorem isBody_text (s : String) : IsBody (s.toList.flatMap escapeChar ++ ['"']) s := by
  have hbody := IsBody.mk (isChars_flatMap s.toList)
  rwa [String.ofList_toList] at hbody

/-! ## The normal form -/

mutual

/-- A value as it is read back: numbers that are not finite are null. -/
def Value.normal : Value → Value
  | .number x => .ofBinary x
  | .array items => .array (normalItems items)
  | .object members => .object (normalFields members)
  | v => v

/-- The items of an array as they are read back. -/
def normalItems : List Value → List Value
  | [] => []
  | v :: rest => v.normal :: normalItems rest

/-- The members of an object as they are read back. -/
def normalFields : List (String × Value) → List (String × Value)
  | [] => []
  | (name, v) :: rest => (name, v.normal) :: normalFields rest

end

theorem normalItems_eq_map (items : List Value) : normalItems items = items.map Value.normal := by
  induction items with
  | nil => rfl
  | cons v rest ih => rw [normalItems, ih, List.map_cons]

theorem normalFields_eq_map (members : List (String × Value)) :
    normalFields members = members.map fun m => (m.1, m.2.normal) := by
  induction members with
  | nil => rfl
  | cons m rest ih => rw [normalFields, ih, List.map_cons]

theorem renderItems_eq_map (items : List Value) : renderItems items = items.map Value.render := by
  induction items with
  | nil => rfl
  | cons v rest ih => rw [renderItems, ih, List.map_cons]

theorem renderFields_eq_map (members : List (String × Value)) :
    renderFields members = members.map fun m => (m.1, m.2.render) := by
  induction members with
  | nil => rfl
  | cons m rest ih => rw [renderFields, ih, List.map_cons]

/-! ## Distinct names -/

/-- No object in the value has two members of one name. -/
inductive Value.Distinct : Value → Prop
  | null : Distinct .null
  | bool (b : Bool) : Distinct (.bool b)
  | integer (i : Int) : Distinct (.integer i)
  | number (x : Decimal.Binary) : Distinct (.number x)
  | text (s : String) : Distinct (.text s)
  | array {items : List Value} (h : ∀ v ∈ items, v.Distinct) : Distinct (.array items)
  | object {members : List (String × Value)} (hnames : (members.map Prod.fst).Nodup)
      (h : ∀ m ∈ members, m.2.Distinct) : Distinct (.object members)

/-- The normal form has the same names. -/
theorem Value.Distinct.normal {v : Value} (h : v.Distinct) : v.normal.Distinct := by
  induction h with
  | null => exact .null
  | bool b => exact .bool b
  | integer i => exact .integer i
  | number x =>
    unfold Value.normal Value.ofBinary
    split
    · exact .number x
    · exact .null
  | text s => exact .text s
  | array h ih =>
    rw [Value.normal, normalItems_eq_map]
    exact .array (List.forall_mem_map.mpr ih)
  | object hnames h ih =>
    rw [Value.normal, normalFields_eq_map]
    refine .object ?_ (List.forall_mem_map.mpr ih)
    rw [List.map_map]
    exact hnames

/-! ## Values -/

/-- A printed item, without white space. -/
def printedItem (v : Value) : Item := ⟨[], v.render, [], v.normal⟩

/-- A printed member, without white space. -/
def printedMember (m : String × Value) : Member :=
  ⟨[], m.1.toList.flatMap escapeChar ++ ['"'], [], m.1, printedItem m.2⟩

theorem isValue_array {items : List Value} (h : ∀ v ∈ items, IsValue v.render v.normal) :
    IsValue (Value.array items).render (Value.array items).normal := by
  rw [Value.render, Value.normal, renderItems_eq_map, normalItems_eq_map]
  cases items with
  | nil => exact .emptyArray blank_nil
  | cons v rest =>
    have hsome : (v :: rest).map printedItem ≠ [] := List.cons_ne_nil _ _
    have hitems := IsValue.array hsome
      (List.forall_mem_map.mpr fun _ _ => ⟨blank_nil, blank_nil⟩) (List.forall_mem_map.mpr h)
    have hspaced : ((v :: rest).map printedItem).map Item.spaced = (v :: rest).map Value.render := by
      rw [List.map_map]
      apply List.map_congr_left
      intro v _
      exact List.append_nil _
    rw [hspaced, List.map_map] at hitems
    exact hitems

theorem isValue_object {members : List (String × Value)}
    (h : ∀ m ∈ members, IsValue m.2.render m.2.normal) :
    IsValue (Value.object members).render (Value.object members).normal := by
  rw [Value.render, Value.normal, renderFields_eq_map, normalFields_eq_map]
  unfold renderMembers
  cases members with
  | nil => exact .emptyObject blank_nil
  | cons m rest =>
    have hsome : (m :: rest).map printedMember ≠ [] := List.cons_ne_nil _ _
    have hmembers := IsValue.object hsome
      (List.forall_mem_map.mpr fun m _ =>
        ⟨blank_nil, isBody_text m.1, blank_nil, blank_nil, blank_nil⟩) (List.forall_mem_map.mpr h)
    have hspaced : ((m :: rest).map printedMember).map Member.spaced =
        ((m :: rest).map fun m => (m.1, m.2.render)).map fun m => renderMember m.1 m.2 := by
      rw [List.map_map, List.map_map]
      apply List.map_congr_left
      intro m _
      simp [Member.spaced, printedMember, printedItem, Item.spaced, renderMember, renderText]
    have hvalues : ((m :: rest).map printedMember).map (fun m => (m.name, m.item.value)) =
        (m :: rest).map fun m => (m.1, m.2.normal) := List.map_map
    rw [hspaced, hvalues] at hmembers
    exact hmembers

mutual

/-- A value is printed as a text that stands for its normal form. -/
theorem isValue_render : ∀ v : Value, IsValue v.render v.normal
  | .null => .null
  | .bool true => .yes
  | .bool false => .no
  | .integer i => .number (isNumber_ofInt i)
  | .number x => isValue_write x
  | .text s => .text (isBody_text s)
  | .array items => isValue_array (isValue_renderItems items)
  | .object members => isValue_object (isValue_renderFields members)

theorem isValue_renderItems : ∀ (items : List Value), ∀ v ∈ items, IsValue v.render v.normal
  | [] => fun _ h => absurd h List.not_mem_nil
  | v :: rest => List.forall_mem_cons.mpr ⟨isValue_render v, isValue_renderItems rest⟩

theorem isValue_renderFields :
    ∀ (members : List (String × Value)), ∀ m ∈ members, IsValue m.2.render m.2.normal
  | [] => fun _ h => absurd h List.not_mem_nil
  | (_, v) :: rest => List.forall_mem_cons.mpr ⟨isValue_render v, isValue_renderFields rest⟩

end

/-! ## Printing the normal form -/

theorem write_of_not_finite {x : Decimal.Binary} (h : x.isFinite = false) :
    numberLayout.write x = Value.null.render := by
  rw [x.isFinite_eq] at h
  unfold Decimal.Layout.write
  cases hx : x.decode with
  | nan => rfl
  | infinite negative => cases negative <;> rfl
  | zero negative => rw [hx] at h; cases h
  | finite negative magnitude => rw [hx] at h; cases h

mutual

/-- The normal form of a value is printed as the value is. -/
theorem render_normal : ∀ v : Value, v.normal.render = v.render
  | .null => rfl
  | .bool _ => rfl
  | .integer _ => rfl
  | .number x => by
    unfold Value.normal Value.ofBinary
    split
    · rfl
    · next h => exact (write_of_not_finite (Bool.not_eq_true _ ▸ h)).symm
  | .text _ => rfl
  | .array items => by rw [Value.normal, Value.render, Value.render, renderItems_normal items]
  | .object members => by rw [Value.normal, Value.render, Value.render, renderFields_normal members]

theorem renderItems_normal : ∀ items : List Value, renderItems (normalItems items) = renderItems items
  | [] => rfl
  | v :: rest => by rw [normalItems, renderItems, renderItems, render_normal v, renderItems_normal rest]

theorem renderFields_normal :
    ∀ members : List (String × Value), renderFields (normalFields members) = renderFields members
  | [] => rfl
  | (_, v) :: rest => by
    rw [normalFields, renderFields, renderFields, render_normal v, renderFields_normal rest]

end

end LogSpool.Json
