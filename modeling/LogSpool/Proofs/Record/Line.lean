import LogSpool.Proofs.Json.Printed
import LogSpool.Proofs.Text.Line
import LogSpool.Proofs.Text.Utf8
import LogSpool.Record
set_option autoImplicit false

/-!
# Records: a line in bytes

The line of a record is valid UTF-8 and holds no control character, so that the newline
after it is the only one.  What any records make can be cut at its newlines, and read as
lines, to get each record's own line back.
-/

namespace LogSpool

/-- The byte that ends a line. -/
def newlineByte : UInt8 := 0x0A

namespace Record

/-- The record's line in bytes, without its newline. -/
def lineBytes (r : Record) : Bytes := Utf8.encode r.object

/-! ## Lines -/

theorem isPlain_optional {name : String} {value : Option (List Char)}
    (h : ∀ text, value = some text → Json.IsPlain text) :
    ∀ m ∈ optional name value, Json.IsPlain m.2 := by
  intro m hm
  cases value with
  | none => cases hm
  | some text =>
    cases List.mem_singleton.mp hm
    exact h text rfl

theorem isPlain_members (r : Record) : ∀ m ∈ r.members, Json.IsPlain m.2 := by
  have htext : ∀ (name : String) (value : Option String),
      ∀ m ∈ optional name (value.map Json.renderText), Json.IsPlain m.2 := by
    intro name value
    refine isPlain_optional fun text htext => ?_
    obtain ⟨s, -, rfl⟩ := Option.map_eq_some_iff.mp htext
    exact Json.isPlain_renderText s
  unfold members
  simp only [List.forall_mem_append]
  refine ⟨⟨⟨⟨⟨⟨?_, htext _ _⟩, htext _ _⟩, ?_⟩, htext _ _⟩, ?_⟩, htext _ _⟩
  · simp only [List.forall_mem_cons]
    exact ⟨Json.isPlain_renderText _, Json.isPlain_renderText _, Json.isPlain_renderText _, nofun⟩
  · refine isPlain_optional fun text htext => ?_
    obtain ⟨n, -, rfl⟩ := Option.map_eq_some_iff.mp htext
    exact Json.isPlain_digitsOf _
  · refine isPlain_optional fun text htext => ?_
    split at htext
    · cases htext
    · cases htext
      exact Json.isPlain_renderMembers (Json.isPlain_renderFields r.fields)

theorem isPlain_object (r : Record) : Json.IsPlain r.object :=
  Json.isPlain_renderMembers r.isPlain_members

theorem encode_eq (r : Record) : r.encode = r.lineBytes ++ [newlineByte] :=
  Utf8.encode_append r.object ['\n']

theorem object_of_encode {r other : Record} (h : r.encode = other.encode) :
    r.object = other.object :=
  List.append_cancel_right (Utf8.encode_injective h)

theorem map_object_of_encode {records others : List Record}
    (h : records.map encode = others.map encode) : records.map object = others.map object := by
  induction records generalizing others with
  | nil =>
    cases others with
    | nil => rfl
    | cons => cases h
  | cons r rest ih =>
    cases others with
    | nil => cases h
    | cons other more =>
      obtain ⟨hfirst, hrest⟩ := List.cons.inj h
      rw [List.map_cons, List.map_cons, object_of_encode hfirst, ih hrest]

theorem decode?_lineBytes (r : Record) : Utf8.decode? r.lineBytes = some r.object :=
  Utf8.decode?_encode r.object

/-- A record's line has no control character. -/
theorem le_of_mem_lineBytes (r : Record) {b : UInt8} (hb : b ∈ r.lineBytes) : 0x20 ≤ b.toNat :=
  Utf8.le_of_mem_encode (by decide) r.isPlain_object hb

theorem newlineByte_notMem (r : Record) : newlineByte ∉ r.lineBytes := by
  intro hmem
  have hle := r.le_of_mem_lineBytes hmem
  cases Nat.not_lt.mpr hle (by decide)

/-- What was in the buffer stays, and the lines follow one after another. -/
theorem appendAll_eq (records : List Record) (buffer : Bytes) :
    appendAll records buffer = buffer ++ (records.map encode).flatten := by
  unfold appendAll
  induction records generalizing buffer with
  | nil => exact (List.append_nil buffer).symm
  | cons r rest ih =>
    rw [List.foldl_cons, ih, appendTo, List.append_assoc]
    rfl

/-- Cut at its newlines, what some records make is their lines and an empty rest. -/
theorem splitOn_flatten (records : List Record) :
    (records.map encode).flatten.splitOn newlineByte = records.map lineBytes ++ [[]] := by
  induction records with
  | nil => rfl
  | cons r rest ih =>
    rw [List.map_cons, List.flatten_cons, encode_eq, List.append_assoc, List.singleton_append,
      List.splitOn_append_cons_self_of_not_mem r.newlineByte_notMem, ih]
    rfl

theorem linesOfBytes_flatten (records : List Record) :
    Text.linesOfBytes (records.map encode).flatten =
      records.map fun r => String.ofList r.object := by
  have hbytes : (records.map encode).flatten = Utf8.encode (Text.unlines (records.map object)) := by
    induction records with
    | nil => rfl
    | cons r rest ih =>
      have hcons : Text.unlines ((r :: rest).map object) =
          (r.object ++ ['\n']) ++ Text.unlines (rest.map object) := rfl
      rw [List.map_cons, List.flatten_cons, ih, hcons, Utf8.encode_append]
      rfl
  have hparts : ∀ part ∈ records.map object, '\n' ∉ part ∧ '\r' ∉ part := by
    intro part hpart
    obtain ⟨r, -, rfl⟩ := List.mem_map.mp hpart
    exact ⟨r.isPlain_object.newline_notMem, r.isPlain_object.return_notMem⟩
  unfold Text.linesOfBytes
  rw [hbytes, Utf8.decodeLossy_encode, Text.lines_unlines hparts, List.map_map]
  rfl

end Record

end LogSpool
