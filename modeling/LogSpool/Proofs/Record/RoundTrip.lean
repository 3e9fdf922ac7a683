import LogSpool.Proofs.Json.Reading
import LogSpool.Proofs.Json.Rendering
import LogSpool.Proofs.Record.Line
import LogSpool.Proofs.Time.Stamp
import LogSpool.Record.Reader
set_option autoImplicit false

/-!
# Records: a line and its record

The line of a record is a JSON object in which no name occurs twice, and reading it gives the
record back, with null for the numbers that are not finite and with a leap second within a minute
counted as the second after it.  So the line says everything about the record but what those
numbers were, and whether such a second was one.

* `line_is_read_back` : decoding undoes encoding, for every record whose leap second, if it has
  one, ends a minute.
-/

namespace LogSpool

open Json (Value IsJson)

/-! ## Looking up members -/

namespace Keyed

variable {α : Type} {name other : String}

/-- A member that may be missing. -/
def present (name : String) (value : Option α) : List (String × α) :=
  match value with
  | some v => [(name, v)]
  | none => []

@[simp] theorem get?_cons_self (name : String) (value : α) (rest : List (String × α)) :
    get? ((name, value) :: rest) name = some value := by
  simp [get?]

@[simp] theorem get?_cons_of_ne (h : other ≠ name) (value : α) (rest : List (String × α)) :
    get? ((other, value) :: rest) name = get? rest name := by
  simp [get?, h]

@[simp] theorem get?_append (keyed more : List (String × α)) (name : String) :
    get? (keyed ++ more) name = (get? keyed name).or (get? more name) := by
  unfold get?
  rw [List.find?_append, Option.map_or]

@[simp] theorem get?_present_self (name : String) (value : Option α) :
    get? (present name value) name = value := by
  cases value with
  | none => rfl
  | some v => exact get?_cons_self name v []

@[simp] theorem get?_present_of_ne (h : other ≠ name) (value : Option α) :
    get? (present other value) name = none := by
  cases value with
  | none => rfl
  | some v => exact get?_cons_of_ne h v []

theorem forall_mem_present {p : α → Prop} {value : Option α} (h : ∀ v ∈ value, p v) (name : String) :
    ∀ m ∈ present name value, p m.2 := by
  intro m hm
  cases value with
  | none => cases hm
  | some v =>
    cases List.mem_singleton.mp hm
    exact h v rfl

theorem names_present_sublist (name : String) (value : Option α) :
    ((present name value).map Prod.fst).Sublist [name] := by
  cases value with
  | none => exact List.nil_sublist _
  | some v => exact List.Sublist.refl _

end Keyed

namespace Record

open Keyed (present)

variable {r : Record}

/-! ## The object of a record -/

/-- The fields of a record, which are left out when there are none. -/
def fields? (r : Record) : Option (List (String × Value)) :=
  if r.fields.isEmpty then none else some r.fields

theorem getD_fields? (r : Record) : r.fields?.getD [] = r.fields := by
  unfold fields?
  split
  · next hempty => exact (List.isEmpty_iff.mp hempty).symm
  · rfl

/-- What is made of the fields is left out with them. -/
theorem map_fields? {α : Type} (f : List (String × Value) → α) (r : Record) :
    r.fields?.map f = if r.fields.isEmpty then none else some (f r.fields) := by
  unfold fields?
  exact apply_ite (Option.map f) _ _ _

/-- The members of the record's object, names and values, in their order. -/
def values (r : Record) : List (String × Value) :=
  [("timestamp", .text (String.ofList r.timestamp.text)), ("level", .text r.level),
    ("target", .text r.target)] ++
  present "module_path" (r.modulePath.map .text) ++
  present "file" (r.file.map .text) ++
  present "line" (r.line.map fun n => .integer n.toNat) ++
  present "message" (r.message.map .text) ++
  present "fields" (r.fields?.map .object) ++
  present "service_name" (r.serviceName.map .text)

/-- A record with null for the numbers that are not finite. -/
def normal (r : Record) : Record := { r with fields := Json.normalFields r.fields }

/-- A record as it is read back: numbers that are not finite are null, and a leap second within
a minute is the second after it. -/
def readBack (r : Record) : Record := { r.normal with timestamp := r.timestamp.carried }

/-- A member that is left out when it is absent is printed like one that may be missing. -/
theorem renderFields_present (name : String) (value : Option Value) :
    Json.renderFields (present name value) = optional name (value.map Value.render) := by
  cases value with
  | none => rfl
  | some v => rfl

theorem renderFields_append (members more : List (String × Value)) :
    Json.renderFields (members ++ more) = Json.renderFields members ++ Json.renderFields more := by
  rw [Json.renderFields_eq_map, Json.renderFields_eq_map, Json.renderFields_eq_map, List.map_append]

theorem render_natCast (n : Nat) : (Value.integer n).render = Decimal.digitsOf n := by
  unfold Value.render Decimal.ofInt
  rw [if_neg (by omega), Int.natAbs_natCast]

theorem object_eq_render (r : Record) : r.object = (Value.object r.values).render := by
  unfold object members values
  rw [Value.render]
  simp only [renderFields_append, renderFields_present, Option.map_map, Function.comp_def,
    render_natCast]
  rw [map_fields?]
  rfl

/-- The members of the normal form are the normal forms of the members. -/
theorem values_normal (r : Record) : r.normal.values = Json.normalFields r.values := by
  have hpresent : ∀ (name : String) (value : Option Value),
      (present name value).map (fun m => (m.1, m.2.normal)) = present name (value.map Value.normal) := by
    intro name value
    cases value <;> rfl
  have hempty : (Json.normalFields r.fields).isEmpty = r.fields.isEmpty := by
    rw [Json.normalFields_eq_map, List.isEmpty_map]
  rw [Json.normalFields_eq_map r.values]
  unfold values normal
  simp only [List.map_append, hpresent, Option.map_map]
  simp only [map_fields?, hempty]
  rfl

/-! ## Reading it back -/

section Lookups

variable {α : Type} {readMember? : Value → Option α} {members : List (String × Value)} {name : String}

theorem requiredOf?_eq {v : Value} {x : α} (hmember : Keyed.get? members name = some v)
    (hread : readMember? v = some x) : requiredOf? readMember? members name = some x := by
  unfold requiredOf?
  rw [hmember]
  exact hread

theorem optionalOf?_eq {wrap : α → Value} {value : Option α}
    (hmember : Keyed.get? members name = value.map wrap) (hread : ∀ x, readMember? (wrap x) = some x) :
    optionalOf? readMember? members name = some value := by
  unfold optionalOf?
  rw [hmember]
  cases value with
  | none => rfl
  | some x => exact congrArg (Option.map some) (hread x)

end Lookups

theorem lineOf?_integer (n : UInt32) : lineOf? (.integer n.toNat) = some n := by
  have hrange : 0 ≤ (n.toNat : Int) ∧ (n.toNat : Int) < (Nat.pow 2 32 : Nat) :=
    ⟨Int.natCast_nonneg _, Int.ofNat_lt.mpr n.toNat_lt⟩
  change (if 0 ≤ (n.toNat : Int) ∧ (n.toNat : Int) < (Nat.pow 2 32 : Nat) then
    some (UInt32.ofNat (n.toNat : Int).toNat) else none) = some n
  rw [if_pos hrange, Int.toNat_natCast, UInt32.ofNat_toNat]

theorem ofMembers?_values (h : r.timestamp.isValid = true) :
    ofMembers? r.values = some { r with timestamp := r.timestamp.carried } := by
  have htimestamp : Keyed.get? r.values "timestamp" = some (.text (String.ofList r.timestamp.text)) := by
    simp [values]
  have hlevel : Keyed.get? r.values "level" = some (.text r.level) := by simp [values]
  have htarget : Keyed.get? r.values "target" = some (.text r.target) := by simp [values]
  have hmodulePath : Keyed.get? r.values "module_path" = r.modulePath.map .text := by simp [values]
  have hfile : Keyed.get? r.values "file" = r.file.map .text := by simp [values]
  have hline : Keyed.get? r.values "line" = r.line.map fun n => .integer n.toNat := by simp [values]
  have hmessage : Keyed.get? r.values "message" = r.message.map .text := by simp [values]
  have hfields : Keyed.get? r.values "fields" = r.fields?.map .object := by simp [values]
  have hserviceName : Keyed.get? r.values "service_name" = r.serviceName.map .text := by
    simp [values]
  have hstamp :
      Time.Stamp.ofText? (String.ofList r.timestamp.text).toList = some r.timestamp.carried := by
    rw [String.toList_ofList]
    exact Time.Stamp.ofText?_text h
  have htext : ∀ s, textOf? (.text s) = some s := fun _ => rfl
  have hmembers : ∀ members, membersOf? (.object members) = some members := fun _ => rfl
  unfold ofMembers?
  rw [requiredOf?_eq htimestamp (htext _), requiredOf?_eq hlevel (htext _),
    requiredOf?_eq htarget (htext _), optionalOf?_eq hmodulePath htext, optionalOf?_eq hfile htext,
    optionalOf?_eq hline lineOf?_integer, optionalOf?_eq hmessage htext,
    optionalOf?_eq hfields hmembers, optionalOf?_eq hserviceName htext]
  simp only [Option.bind_eq_bind, Option.bind_some, hstamp, getD_fields?]
  rfl

/-- What is asked of a record: an instant that a time stamp can hold, and fields that name
nothing twice, at any depth. -/
structure WellFormed (r : Record) : Prop where
  timestamp : r.timestamp.isValid = true
  fields : (Value.object r.fields).Distinct

theorem names_nodup (r : Record) : (r.values.map Prod.fst).Nodup := by
  have hall : (["timestamp", "level", "target", "module_path", "file", "line", "message", "fields",
    "service_name"] : List String).Nodup := by decide
  refine List.Sublist.nodup ?_ hall
  have hpresent := @Keyed.names_present_sublist Value
  unfold values
  simp only [List.map_append]
  have hrequired := List.Sublist.refl ["timestamp", "level", "target"]
  exact (((((hrequired.append (hpresent _ _)).append (hpresent _ _)).append (hpresent _ _)).append
    (hpresent _ _)).append (hpresent _ _)).append (hpresent _ _)

/-- The record's object names nothing twice, at any depth. -/
theorem distinct_values (h : (Value.object r.fields).Distinct) : (Value.object r.values).Distinct := by
  have htext : ∀ (name : String) (value : Option String),
      ∀ m ∈ present name (value.map Value.text), m.2.Distinct := by
    intro name value
    refine Keyed.forall_mem_present (p := Value.Distinct) (fun v hv => ?_) name
    obtain ⟨s, -, rfl⟩ := Option.map_eq_some_iff.mp hv
    exact .text s
  have hline : ∀ v ∈ r.line.map (fun n => Value.integer n.toNat), v.Distinct := by
    intro v hv
    obtain ⟨n, -, rfl⟩ := Option.map_eq_some_iff.mp hv
    exact .integer n.toNat
  have hfields : ∀ v ∈ r.fields?.map Value.object, v.Distinct := by
    intro v hv
    rw [map_fields?] at hv
    split at hv
    · cases hv
    · cases hv
      exact h
  refine .object r.names_nodup ?_
  unfold values
  simp only [List.forall_mem_append]
  refine ⟨⟨⟨⟨⟨⟨?_, htext _ _⟩, htext _ _⟩, Keyed.forall_mem_present hline _⟩, htext _ _⟩,
    Keyed.forall_mem_present hfields _⟩, htext _ _⟩
  simp only [List.forall_mem_cons]
  exact ⟨.text _, .text _, .text _, fun _ h => absurd h List.not_mem_nil⟩

/-- The text of a record is read as the object of its normal form. -/
theorem read?_object (r : Record) : Value.read? r.object = some (.object r.normal.values) := by
  rw [values_normal, object_eq_render, ← List.nil_append (Value.render _), ← List.append_nil (_ ++ _)]
  apply (Value.read?_eq_some_iff _ _).mpr
  exact .mk Json.blank_nil (Json.isValue_render _) Json.blank_nil

theorem object_normal (r : Record) : r.normal.object = r.object := by
  rw [object_eq_render, object_eq_render, values_normal]
  exact Json.render_normal (.object r.values)

theorem WellFormed.read?_object (h : r.WellFormed) : Record.read? r.object = some r.readBack := by
  have hmembers : ofMembers? r.normal.values = some r.readBack :=
    ofMembers?_values (r := r.normal) h.timestamp
  unfold Record.read?
  simp only [Record.read?_object, Option.bind_eq_bind, Option.bind_some, membersOf?, hmembers]

/-- What is read back has the object of the record that it was read from. -/
theorem WellFormed.object_readBack (h : r.WellFormed) : r.readBack.object = r.object := by
  have hvalues : r.readBack.values = r.normal.values := by
    unfold readBack values
    dsimp only
    rw [Time.Stamp.text_carried (s := r.timestamp) h.timestamp]
    rfl
  rw [← object_normal r, object_eq_render, hvalues, ← object_eq_render]

/-- The record itself is read back, but for such numbers, if it is in no leap second within a
minute. -/
theorem readBack_eq_normal_iff (r : Record) :
    r.readBack = r.normal ↔ r.timestamp.isRegular = true := by
  rw [← Time.Stamp.carried_eq_self_iff]
  constructor
  · exact fun heq => congrArg Record.timestamp heq
  · intro heq
    rw [readBack, heq]
    rfl

theorem WellFormed.distinct (h : r.WellFormed) : (Value.object r.normal.values).Distinct := by
  rw [values_normal]
  exact (distinct_values h.fields).normal

/-- Decoding undoes encoding.  What a record adds to a buffer is the text of its object and a
newline.  A strict reader, one that reads exactly the texts of the grammar as the values they
stand for, accepts it as an object in which no name occurs twice, and the record of that object
is the one that was encoded, with null for the numbers that are not finite, and with the second
after it for a leap second within a minute.  So it is the record itself, but for such numbers,
exactly if its leap second, if it has one, ends a minute.  Two records have the same line exactly
if the same record is read back from both. -/
theorem line_is_read_back :
    (∀ (text : List Char) (v : Value), Value.read? text = some v ↔ IsJson text v) ∧
      (∀ (r : Record) (buffer : Bytes), r.WellFormed →
        ∃ (text : List Char) (members : List (String × Value)),
          r.appendTo buffer = buffer ++ (Utf8.encode text ++ [newlineByte]) ∧
            Utf8.decode? (Utf8.encode text) = some text ∧
            Value.read? text = some (.object members) ∧ (Value.object members).Distinct ∧
            Record.read? text = some r.readBack) ∧
      (∀ r : Record, r.readBack = r.normal ↔ r.timestamp.isRegular = true) ∧
      ∀ r other : Record, r.WellFormed → other.WellFormed →
        (r.encode = other.encode ↔ r.readBack = other.readBack) := by
  refine ⟨Value.read?_eq_some_iff, ?_, readBack_eq_normal_iff, ?_⟩
  · intro r buffer h
    refine ⟨r.object, r.normal.values, ?_, Utf8.decode?_encode _, read?_object r, h.distinct,
      h.read?_object⟩
    unfold appendTo
    rw [encode_eq, lineBytes]
  · intro r other h hother
    constructor
    · intro hlines
      have hread : some r.readBack = some other.readBack := by
        rw [← h.read?_object, object_of_encode hlines, hother.read?_object]
      exact Option.some.inj hread
    · intro hsame
      unfold encode
      rw [← h.object_readBack, hsame, hother.object_readBack]

/-- A record of a leap second in a year before 0000, with a field that is named like a member
of the record and holds what the second argument gives. -/
def nested (message : Option String) (held : Value) : Record where
  timestamp := ⟨-99999999961, 1500000000⟩
  level := "INFO"
  target := "a\"\u2028b"
  modulePath := none
  file := none
  line := some 4294967295
  message := message
  fields := [("level", .object [("", .array [.integer (-9223372036854775808), held])])]
  serviceName := none

/-- A field that is not a number is read back as null.  An empty message is none that is absent. -/
theorem line_is_read_back_nested :
    (∃ text : List Char, (nested none (.number ⟨0x7FF8000000000000⟩)).appendTo [] =
        Utf8.encode text ++ [newlineByte] ∧ Record.read? text = some (nested none .null)) ∧
      (nested none (.number ⟨0x7FF8000000000000⟩)).encode = (nested none .null).encode ∧
      (nested none .null).encode ≠ (nested (some "") .null).encode := by
  have hstamp : (⟨-99999999961, 1500000000⟩ : Time.Stamp).isValid = true := by decide
  have hends : (⟨-99999999961, 1500000000⟩ : Time.Stamp).isRegular = true := by decide
  have hwell : ∀ (message : Option String) (held : Value),
      held.Distinct → (nested message held).WellFormed := by
    intro message held hheld
    refine ⟨hstamp, .object (List.nodup_singleton _) ?_⟩
    refine List.forall_mem_singleton.mpr (.object (List.nodup_singleton _) ?_)
    refine List.forall_mem_singleton.mpr (.array ?_)
    exact List.forall_mem_cons.mpr ⟨.integer _, List.forall_mem_singleton.mpr hheld⟩
  have hnumber := hwell none _ (.number ⟨0x7FF8000000000000⟩)
  have hnormal : (nested none (.number ⟨0x7FF8000000000000⟩)).normal = nested none .null := rfl
  obtain ⟨-, hread, hregular, hlines⟩ := line_is_read_back
  have hback : ∀ message held, (nested message held).readBack = (nested message held).normal :=
    fun message held => (hregular _).mpr hends
  refine ⟨?_, (hlines _ _ hnumber (hwell none _ .null)).mpr ?_, ?_⟩
  · obtain ⟨text, -, hbuffer, -, -, -, hrecord⟩ := hread _ [] hnumber
    rw [hback, hnormal] at hrecord
    exact ⟨text, hbuffer, hrecord⟩
  · rw [hback, hback, hnormal]
    rfl
  · intro hsame
    have hnormals := (hlines _ _ (hwell none _ .null) (hwell (some "") _ .null)).mp hsame
    cases congrArg Record.message hnormals

/-- A record that says little more than its instant. -/
def plain (timestamp : Time.Stamp) : Record where
  timestamp := timestamp
  level := "INFO"
  target := "app"
  modulePath := none
  file := none
  line := none
  message := none
  fields := []
  serviceName := none

/-- Half a second into the leap second after 23:59:49 is written as half a second after 23:59:50,
and read back as that. -/
theorem leap_within_minute_is_lost :
    (plain ⟨1441670389, 1500000000⟩).WellFormed ∧ (plain ⟨1441670390, 500000000⟩).WellFormed ∧
      (plain ⟨1441670389, 1500000000⟩).encode = (plain ⟨1441670390, 500000000⟩).encode ∧
      (plain ⟨1441670389, 1500000000⟩).normal ≠ (plain ⟨1441670390, 500000000⟩).normal ∧
      ∀ text, (plain ⟨1441670389, 1500000000⟩).encode = Utf8.encode text ++ [newlineByte] →
        Record.read? text ≠ some (plain ⟨1441670389, 1500000000⟩).normal := by
  have hwell : (plain ⟨1441670389, 1500000000⟩).WellFormed :=
    ⟨by decide, .object List.nodup_nil nofun⟩
  have hother : (plain ⟨1441670390, 500000000⟩).WellFormed :=
    ⟨by decide, .object List.nodup_nil nofun⟩
  have hback : (plain ⟨1441670389, 1500000000⟩).readBack =
      (plain ⟨1441670390, 500000000⟩).readBack := by rfl
  refine ⟨hwell, hother, ?_, fun hsame => ?_, fun text htext hread => ?_⟩
  · unfold encode
    rw [← hwell.object_readBack, hback, hother.object_readBack]
  · cases congrArg Record.timestamp hsame
  · rw [encode_eq, lineBytes] at htext
    have hobject := Utf8.encode_injective (List.append_cancel_right htext)
    rw [← hobject, hwell.read?_object, Option.some.injEq, readBack_eq_normal_iff] at hread
    exact absurd hread (by decide)

end Record

end LogSpool
