import LogSpool.Event.Collect
import LogSpool.Proofs.Keyed
import LogSpool.Proofs.Record.RoundTrip
set_option autoImplicit false

/-!
# Events: what becomes of the fields

What is collected from the fields of an event is the last of its messages, and under every other
name the last value that was given for it (`ofFields_eq`).  So the order of fields of different names
makes no difference, and the line of the record has its fields in the order of their names.

* `fields_are_collected` : what the fields of any event come to, and when two events have one line.
-/

namespace LogSpool

open Json (Value)

/-- The value of a field in a record, if it has any: numbers, switches and texts as they are, errors
and other values as their text. -/
def FieldValue.json? : FieldValue → Option Value
  | .text s | .shown s | .error s => some (.text s)
  | .integer i => some (.integer i)
  | .number x => some (.ofBinary x)
  | .switch b => some (.bool b)
  | .absent => none

/-- A number that is not finite is null, and any other one is itself. -/
theorem Json.Value.ofBinary_eq (x : Decimal.Binary) :
    Value.ofBinary x = match x.decode with
      | .nan | .infinite _ => .null
      | .zero _ | .finite _ _ => .number x := by
  unfold ofBinary Decimal.Binary.isFinite Decimal.Binary.decode
  by_cases htop : x.exponentField = 2047
  · by_cases hfraction : x.fraction = 0 <;> simp [htop, hfraction]
  · by_cases hbottom : x.exponentField = 0
    · by_cases hfraction : x.fraction = 0 <;> simp [hbottom, hfraction]
    · simp [htop, hbottom]

namespace Collected

/-- The message that a field gives: the text of a string or of a value shown by its own text, under
the name of messages. -/
def messageOf? : String × FieldValue → Option String
  | (name, .text s) | (name, .shown s) => if name = messageField then some s else none
  | _ => none

/-- The value that a field gives for a name, unless it gives a message. -/
def valueOf? (name : String) (field : String × FieldValue) : Option Value :=
  if field.1 = name ∧ messageOf? field = none then field.2.json? else none

/-- The named value that a field gives, unless it gives a message. -/
def entryOf? (field : String × FieldValue) : Option (String × Value) :=
  if messageOf? field = none then field.2.json?.map fun value => (field.1, value) else none

/-- The fields that hold anything at all. -/
def visits (fields : List (String × FieldValue)) : List (String × FieldValue) :=
  fields.filter fun field => field.2 != .absent

theorem visit_eq (c : Collected) (name : String) (value : FieldValue) :
    c.visit name value =
      { message := (messageOf? (name, value)).or c.message
        fields := (entryOf? (name, value)).elim c.fields fun entry =>
          Keyed.insert entry.1 entry.2 c.fields } := by
  cases value with
  | text s | shown s =>
    by_cases heq : name = messageField <;>
      simp [visit, putText, put, messageOf?, entryOf?, FieldValue.json?, heq]
  | _ => rfl

/-- What the fields of an event come to: the last message, and the last value under each name. -/
theorem ofFields_eq (fields : List (String × FieldValue)) :
    ofFields fields =
      { message := (fields.filterMap messageOf?).getLast?
        fields := Keyed.ofList (fields.filterMap entryOf?) } := by
  induction fields using List.reverseRecOn with
  | nil => rfl
  | append_singleton fields field ih =>
    have hlast : ofFields (fields ++ [field]) = (ofFields fields).visit field.1 field.2 := by
      simp [ofFields, List.foldl_append]
    rw [hlast, ih, visit_eq, List.filterMap_append, List.filterMap_append]
    cases hmessage : messageOf? field <;> cases hentry : entryOf? field <;>
      simp [hmessage, hentry, Keyed.ofList_concat]

/-- The value that a field gives for a name is that of its entry, if the entry has that name. -/
theorem valueOf?_eq (name : String) (field : String × FieldValue) :
    valueOf? name field =
      (entryOf? field).bind fun entry => if entry.1 = name then some entry.2 else none := by
  unfold valueOf? entryOf?
  by_cases hmessage : messageOf? field = none
  · cases field.2.json? <;> by_cases heq : field.1 = name <;> simp [hmessage, heq]
  · simp [hmessage]

theorem get?_ofFields (fields : List (String × FieldValue)) (name : String) :
    Keyed.get? (ofFields fields).fields name = (fields.filterMap (valueOf? name)).getLast? := by
  rw [ofFields_eq]
  induction fields using List.reverseRecOn with
  | nil => rfl
  | append_singleton fields field ih =>
    rw [List.filterMap_append, List.filterMap_append]
    cases hentry : entryOf? field with
    | none => simpa [hentry, valueOf?_eq] using ih
    | some entry =>
      by_cases heq : entry.1 = name
      · simp [hentry, valueOf?_eq, heq, Keyed.ofList_concat, Keyed.get?_insert_self]
      · have hother := Keyed.get?_insert_of_ne (Ne.symm heq) entry.2
          (Keyed.ofList (fields.filterMap entryOf?))
        simpa [hentry, valueOf?_eq, heq, Keyed.ofList_concat, hother] using ih

theorem ascending_ofFields (fields : List (String × FieldValue)) :
    Keyed.Ascending (ofFields fields).fields := by
  rw [ofFields_eq]
  exact Keyed.ascending_ofList _

/-! ## The order of the fields -/

theorem ofFields_visits (fields : List (String × FieldValue)) :
    ofFields (visits fields) = ofFields fields := by
  have hskip : ∀ {β : Type} {f : String × FieldValue → Option β},
      (∀ name, f (name, .absent) = none) → (visits fields).filterMap f = fields.filterMap f := by
    intro β f hnone
    unfold visits
    rw [List.filterMap_filter]
    refine List.filterMap_congr fun (name, value) _ => ?_
    cases value with
    | absent => exact (hnone name).symm
    | _ => rfl
  rw [ofFields_eq, ofFields_eq, hskip fun _ => rfl, hskip fun _ => rfl]

/-- What fields of different names give, if only one name gives anything, does not depend on their
order. -/
theorem filterMap_of_perm {β : Type} {f : String × FieldValue → Option β} {name : String}
    (hname : ∀ field b, f field = some b → field.1 = name)
    {fields other : List (String × FieldValue)} (hnames : (fields.map (·.1)).Nodup) (hperm : fields.Perm other) :
    fields.filterMap f = other.filterMap f := by
  have halone : ∀ {fields : List (String × FieldValue)}, (fields.map (·.1)).Nodup →
      (fields.filterMap f).Pairwise fun _ _ => False := by
    intro fields hnames
    refine List.pairwise_filterMap.mpr ((List.pairwise_map.mp hnames).imp ?_)
    intro first second hne b hb b' hb'
    exact hne ((hname first b hb).trans (hname second b' hb').symm)
  refine List.Perm.eq_of_pairwise (fun _ _ _ _ hnever => hnever.elim) (halone hnames)
    (halone ((hperm.map _).nodup_iff.mp hnames)) (hperm.filterMap f)

/-- Fields of different names come to the same in every order. -/
theorem ofFields_of_perm {fields other : List (String × FieldValue)}
    (hperm : (visits fields).Perm (visits other)) (hnames : ((visits fields).map (·.1)).Nodup) :
    ofFields fields = ofFields other := by
  have hmessage : ∀ field b, messageOf? field = some b → field.1 = messageField := by
    intro (name, value) b h
    cases value with
    | text s | shown s => exact (Option.ite_none_right_eq_some.mp h).1
    | _ => cases h
  have hvalue : ∀ name field b, valueOf? name field = some b → field.1 = name :=
    fun name field b h => (Option.ite_none_right_eq_some.mp h).1.1
  have hmessages := filterMap_of_perm hmessage hnames hperm
  rw [← ofFields_visits fields, ← ofFields_visits other]
  have hfields : (ofFields (visits fields)).fields = (ofFields (visits other)).fields := by
    refine Keyed.ext_of_get? (ascending_ofFields _) (ascending_ofFields _) fun name => ?_
    rw [get?_ofFields, get?_ofFields, filterMap_of_perm (hvalue name) hnames hperm]
  rw [ofFields_eq (visits fields), ofFields_eq (visits other)] at hfields ⊢
  exact congrArg₂ Collected.mk (congrArg List.getLast? hmessages) hfields

theorem mem_names_ofFields {fields : List (String × FieldValue)} {name : String} :
    name ∈ (ofFields fields).fields.map (·.1) ↔
      ∃ field ∈ fields, field.1 = name ∧ field.2 ≠ .absent ∧ messageOf? field = none := by
  have hentry : ∀ field : String × FieldValue, (∃ value, entryOf? field = some (name, value)) ↔
      field.1 = name ∧ field.2 ≠ .absent ∧ messageOf? field = none := by
    intro (other, value)
    by_cases hmessage : messageOf? (other, value) = none
    · cases value <;> simp [entryOf?, hmessage, FieldValue.json?]
    · simp [entryOf?, hmessage]
  rw [ofFields_eq, Keyed.mem_names_ofList, List.mem_map]
  simp only [← hentry, List.mem_filterMap]
  constructor
  · rintro ⟨⟨_, value⟩, ⟨field, hfield, hvalue⟩, rfl⟩
    exact ⟨field, hfield, value, hvalue⟩
  · rintro ⟨field, hfield, value, hvalue⟩
    exact ⟨(name, value), ⟨field, hfield, hvalue⟩, rfl⟩

end Collected

namespace Event

open Collected (ofFields messageOf? valueOf? visits)

/-- The names of the fields in the line of a record come in the order of their bytes. -/
theorem pairwise_utf8_fields (e : Event) (time : Time.Stamp) (serviceName : Option String) :
    (Json.normalFields (e.record time serviceName).fields).Pairwise fun a b => utf8 a.1 < utf8 b.1 := by
  rw [Json.normalFields_eq_map, List.pairwise_map]
  exact (Collected.ascending_ofFields e.fields).imp utf8_lt

theorem get?_fields_values (r : Record) :
    Keyed.get? r.values "fields" = if r.fields.isEmpty then none else some (.object r.fields) := by
  simp [Record.values, Record.map_fields?]

/-- What the fields of an event come to, whatever their number, kinds and names:

* the message is the text of the last string or value shown by its own text under the name of
  messages; under each name stands the last value that was given for it by a field that gives no
  message, and no other name stands there;
* a number that is not finite counts as null, and any other as itself;
* fields of different names give the same record and the same line in every order;
* the line reads as an object, whose fields have the names and values that were collected, in strictly
  ascending order of the bytes of their names. -/
theorem fields_are_collected :
    (∀ fields : List (String × FieldValue),
      (ofFields fields).message = (fields.filterMap messageOf?).getLast? ∧
      (∀ name value, (name, value) ∈ (ofFields fields).fields ↔
        (fields.filterMap (valueOf? name)).getLast? = some value) ∧
      (∀ name, name ∈ (ofFields fields).fields.map (·.1) ↔
        ∃ field ∈ fields, field.1 = name ∧ field.2 ≠ .absent ∧ messageOf? field = none) ∧
      Keyed.Ascending (ofFields fields).fields) ∧
    (∀ x : Decimal.Binary, (FieldValue.number x).json? = some (match x.decode with
      | .nan | .infinite _ => .null
      | .zero _ | .finite _ _ => .number x)) ∧
    (∀ (e : Event) (other : List (String × FieldValue)) (time : Time.Stamp)
        (serviceName : Option String),
      (visits e.fields).Perm (visits other) → ((visits e.fields).map (·.1)).Nodup →
        ({ e with fields := other } : Event).record time serviceName = e.record time serviceName ∧
          (({ e with fields := other } : Event).record time serviceName).encode =
            (e.record time serviceName).encode) ∧
    (∀ (e : Event) (time : Time.Stamp) (serviceName : Option String),
      (e.record time serviceName).fields = (ofFields e.fields).fields ∧
      (e.record time serviceName).message = (ofFields e.fields).message ∧
      (e.record time serviceName).encode =
        Utf8.encode (e.record time serviceName).object ++ [newlineByte] ∧
      ∃ members, Value.read? (e.record time serviceName).object = some (.object members) ∧
        Keyed.get? members "fields" =
          (if (e.record time serviceName).fields.isEmpty then none
            else some (.object (Json.normalFields (e.record time serviceName).fields))) ∧
        (Json.normalFields (e.record time serviceName).fields).Pairwise
          fun a b => utf8 a.1 < utf8 b.1) := by
  refine ⟨fun fields => ⟨?_, fun name value => ?_, fun name => Collected.mem_names_ofFields,
    Collected.ascending_ofFields fields⟩, fun x => congrArg some (Json.Value.ofBinary_eq x),
    fun e other time serviceName hperm hnames => ?_, fun e time serviceName => ?_⟩
  · rw [Collected.ofFields_eq]
  · rw [← Keyed.get?_eq_some_iff (Collected.ascending_ofFields fields), Collected.get?_ofFields]
  · have hrecord : ({ e with fields := other } : Event).record time serviceName =
        e.record time serviceName := by
      unfold record
      dsimp only
      rw [Collected.ofFields_of_perm hperm hnames]
    exact ⟨hrecord, congrArg Record.encode hrecord⟩
  · refine ⟨rfl, rfl, Record.encode_eq _, _, Record.read?_object _, ?_,
      e.pairwise_utf8_fields time serviceName⟩
    have hempty : (Json.normalFields (e.record time serviceName).fields).isEmpty =
        (e.record time serviceName).fields.isEmpty := by
      rw [Json.normalFields_eq_map, List.isEmpty_map]
    rw [get?_fields_values, ← hempty]
    rfl

/-- An event with fields of several kinds, one of them an infinite number. -/
def mixed : Event where
  severity := .info
  target := "app"
  fields := [("b", .integer 1), ("message", .text "hi"), ("é", .number ⟨0x7FF0000000000000⟩),
    ("a", .error "lost")]

/-- The same fields in another order, among them one that holds nothing. -/
def shuffled : List (String × FieldValue) :=
  [("é", .number ⟨0x7FF0000000000000⟩), ("a", .error "lost"), ("b", .absent),
    ("message", .text "hi"), ("b", .integer 1)]

/-- Two values under one name, and a number and two texts under the name of messages. -/
def repeated : List (String × FieldValue) :=
  [("message", .text "first"), ("k", .text "old"), ("message", .integer 7), ("k", .error "new"),
    ("message", .shown "last")]

/-- The shuffled fields give the same line, and of those that are repeated the last counts. -/
theorem fields_are_collected_shuffled :
    (({ mixed with fields := shuffled } : Event).record ⟨0, 0⟩ none).encode =
        (mixed.record ⟨0, 0⟩ none).encode ∧
      (FieldValue.number ⟨0x7FF0000000000000⟩).json? = some .null ∧
      (ofFields repeated).message = some "last" ∧
      ("k", .text "new") ∈ (ofFields repeated).fields ∧
      ("message", .integer 7) ∈ (ofFields repeated).fields ∧
      ∃ members, Value.read? (mixed.record ⟨0, 0⟩ none).object = some (.object members) ∧
        Keyed.get? members "fields" =
          some (.object [("a", .text "lost"), ("b", .integer 1), ("é", .null)]) ∧
        utf8 "b" < utf8 "é" := by
  obtain ⟨hcollected, hnumber, horder, hline⟩ := fields_are_collected
  obtain ⟨hmessage, hfields, -, -⟩ := hcollected repeated
  obtain ⟨-, hsame⟩ := horder mixed shuffled ⟨0, 0⟩ none (by decide) (by decide)
  obtain ⟨-, -, -, members, hread, hget, hascending⟩ := hline mixed ⟨0, 0⟩ none
  refine ⟨hsame, hnumber _, hmessage, (hfields _ _).mpr rfl, (hfields _ _).mpr rfl,
    members, hread, ?_, ?_⟩
  · exact hget
  · exact List.rel_of_pairwise_cons hascending.of_cons List.mem_cons_self

end Event

end LogSpool
