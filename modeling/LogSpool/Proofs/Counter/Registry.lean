import LogSpool.Counter
import LogSpool.Proofs.Keyed
import Mathlib.Data.List.Nodup
set_option autoImplicit false

/-!
# Registries: names and values

What an insertion and an increment do to the names of a registry and to the values that stand
under them: `names_getOrInsert`, `valueOf_getOrInsert` and `valueOf_increment`.  A registry in
which no name stands twice finds each counter under its name, and goes on to do so however many
are added after it (`find?_of_longer`), and shows each under its name (`get?_snapshot`).
-/

namespace LogSpool

namespace Registry

variable {r t : Registry} {name other : String} {id : CounterId}

/-- The names of the counters, in the order of their creation. -/
def names (r : Registry) : List String := r.entries.toList.map (·.1)

/-- What the counter of a name says, if there is one. -/
def valueOf (r : Registry) (name : String) : UInt64 :=
  match r.find? name with
  | some id => r.value id
  | none => 0

/-! ## Looking up -/

theorem find?_eq_idxOf? (r : Registry) (name : String) : r.find? name = r.names.idxOf? name := by
  rcases r with ⟨⟨entries⟩⟩
  rw [find?, List.findIdx?_toArray, names, List.idxOf?, List.findIdx?_map]
  rfl

theorem find?_eq_none_iff : r.find? name = none ↔ name ∉ r.names := by
  rw [find?_eq_idxOf?, List.idxOf?_eq_none_iff]

theorem names_of_find? (h : r.find? name = some id) : r.names[id]? = some name := by
  rw [find?_eq_idxOf?, List.idxOf?, List.findIdx?_eq_some_iff_getElem] at h
  obtain ⟨hlt, heq, -⟩ := h
  rw [List.getElem?_eq_getElem hlt, LawfulBEq.eq_of_beq heq]

/-- Where no name stands twice each counter is found under its name. -/
theorem find?_eq_some_iff (hdistinct : r.names.Nodup) :
    r.find? name = some id ↔ r.names[id]? = some name := by
  refine ⟨names_of_find?, fun h => ?_⟩
  obtain ⟨found, hfound⟩ : ∃ found, r.find? name = some found := by
    refine Option.ne_none_iff_exists'.mp fun hnone => ?_
    exact find?_eq_none_iff.mp hnone (List.mem_of_getElem? h)
  have hsame := names_of_find? hfound
  obtain ⟨hlt, -⟩ := List.getElem?_eq_some_iff.mp hsame
  rw [hfound, (List.getElem?_inj hlt hdistinct).mp (hsame.trans h.symm)]

theorem lt_of_find? (h : r.find? name = some id) : id < r.entries.size := by
  obtain ⟨hlt, -⟩ := List.getElem?_eq_some_iff.mp (names_of_find? h)
  simpa [names] using hlt

/-- A counter is still found when others were added after it. -/
theorem find?_of_longer (hnames : r.names <+: t.names) (h : r.find? name = some id) :
    t.find? name = some id := by
  obtain ⟨more, hmore⟩ := hnames
  rw [find?_eq_idxOf?] at h ⊢
  rw [← hmore, List.idxOf?, List.findIdx?_append]
  rw [List.idxOf?] at h
  rw [h]
  rfl

/-! ## Insertions -/

/-- An insertion adds the name at the end, unless it stands in the registry already. -/
theorem names_getOrInsert (r : Registry) (name : String) :
    (r.getOrInsert name).2.names = if name ∈ r.names then r.names else r.names ++ [name] := by
  unfold getOrInsert
  cases hfind : r.find? name with
  | some id => rw [if_pos (List.mem_of_getElem? (names_of_find? hfind))]
  | none =>
    rw [if_neg (find?_eq_none_iff.mp hfind)]
    simp [names]

theorem names_prefix_getOrInsert (r : Registry) (name : String) :
    r.names <+: (r.getOrInsert name).2.names := by
  rw [names_getOrInsert]
  split
  · exact List.prefix_rfl
  · exact List.prefix_append _ _

theorem nodup_getOrInsert (h : r.names.Nodup) (name : String) :
    (r.getOrInsert name).2.names.Nodup := by
  rw [names_getOrInsert]
  split
  · exact h
  · next hnew => exact List.Nodup.append h (List.nodup_singleton _) (by simpa using hnew)

/-- After an insertion the counter of the name is the one that the insertion gave. -/
theorem find?_getOrInsert (r : Registry) (name : String) :
    (r.getOrInsert name).2.find? name = some (r.getOrInsert name).1 := by
  unfold getOrInsert
  cases hfind : r.find? name with
  | some id => exact hfind
  | none =>
    have hold : r.entries.findIdx? (·.1 == name) = none := hfind
    simp [find?, Array.findIdx?_push, hold]

theorem value_getOrInsert (r : Registry) (name : String) (id : CounterId) :
    (r.getOrInsert name).2.value id = r.value id := by
  unfold getOrInsert
  cases r.find? name with
  | some found => rfl
  | none =>
    by_cases heq : id = r.entries.size
    · simp [value, heq]
    · simp [value, Array.getElem?_push, heq]

/-- An insertion changes nothing that stands under a name. -/
theorem valueOf_getOrInsert (r : Registry) (name other : String) :
    (r.getOrInsert name).2.valueOf other = r.valueOf other := by
  unfold valueOf
  cases hold : r.find? other with
  | some id =>
    rw [find?_of_longer (names_prefix_getOrInsert r name) hold]
    exact value_getOrInsert r name id
  | none =>
    cases hnew : (r.getOrInsert name).2.find? other with
    | none => rfl
    | some id =>
      -- Only the new counter can be found now, and it stands behind all others.
      have hout : r.names.length ≤ id := by
        by_contra hin
        have hsame := List.prefix_iff_getElem?.mp (names_prefix_getOrInsert r name) id (by omega)
        rw [names_of_find? hnew] at hsame
        exact find?_eq_none_iff.mp hold (Option.some.inj hsame ▸ List.getElem_mem _)
      rw [names, List.length_map, Array.length_toList] at hout
      simp only [value_getOrInsert]
      simp [value, hout]

/-! ## Increments -/

@[simp] theorem names_increment (r : Registry) (id : CounterId) (n : UInt64) :
    (r.increment id n).names = r.names := by
  refine List.ext_getElem? fun k => ?_
  simp only [names, increment, List.getElem?_map, Array.getElem?_toList, Array.getElem?_modify]
  split
  · cases r.entries[k]? <;> rfl
  · rfl

theorem value_increment (r : Registry) {other : CounterId} (h : other < r.entries.size)
    (id : CounterId) (n : UInt64) :
    (r.increment id n).value other = r.value other + if other = id then n else 0 := by
  by_cases heq : other = id
  · rw [if_pos heq, ← heq, value_increment_self r h]
  · rw [if_neg heq, value_increment_of_ne r heq, UInt64.add_zero]

@[simp] theorem find?_increment (r : Registry) (id : CounterId) (n : UInt64) (name : String) :
    (r.increment id n).find? name = r.find? name := by
  rw [find?_eq_idxOf?, find?_eq_idxOf?, names_increment]

/-- An increment adds to what stands under the counter's name, and to nothing else. -/
theorem valueOf_increment (h : r.find? name = some id) (n : UInt64) (other : String) :
    (r.increment id n).valueOf other = r.valueOf other + if other = name then n else 0 := by
  unfold valueOf
  rw [find?_increment]
  cases hother : r.find? other with
  | none =>
    have hne : other ≠ name := by
      rintro rfl
      rw [h] at hother
      cases hother
    rw [if_neg hne]
    rfl
  | some found =>
    have hsame : found = id ↔ other = name := by
      constructor
      · rintro rfl
        exact Option.some.inj ((names_of_find? hother).symm.trans (names_of_find? h))
      · rintro rfl
        exact Option.some.inj (hother.symm.trans h)
    simp only [value_increment r (lt_of_find? hother), hsame]

/-! ## Snapshots -/

theorem of_get?_snapshot (hdistinct : r.names.Nodup) {shown : UInt64}
    (h : Keyed.get? r.snapshot name = some shown) : name ∈ r.names ∧ shown = r.valueOf name := by
  obtain ⟨entry, hentry, heq⟩ := List.mem_map.mp (Keyed.mem_of_get?_ofList h)
  cases heq
  obtain ⟨id, hid⟩ := List.mem_iff_getElem?.mp hentry
  have hname : r.names[id]? = some entry.1 := by simp [names, hid]
  refine ⟨List.mem_of_getElem? hname, ?_⟩
  rw [Array.getElem?_toList] at hid
  simp [valueOf, (find?_eq_some_iff hdistinct).mpr hname, value, hid]

theorem get?_snapshot (hdistinct : r.names.Nodup) (hname : name ∈ r.names) :
    Keyed.get? r.snapshot name = some (r.valueOf name) := by
  have hput : (Keyed.get? r.snapshot name).isSome := by
    rw [snapshot, Keyed.isSome_get?_ofList, List.map_map]
    exact hname
  obtain ⟨shown, hshown⟩ := Option.isSome_iff_exists.mp hput
  rw [hshown, (of_get?_snapshot hdistinct hshown).2]

end Registry

end LogSpool
