import LogSpool.Text.Utf8
set_option autoImplicit false

/-!
# Spools: the channel

A first-in first-out queue of records, kept as a front and a reversed back.  `toList`
is its view: a push adds at the end, a pop takes from the start.
-/

namespace LogSpool

/-- A queue of records. -/
structure Channel where
  front : List Bytes
  back : List Bytes
  size : Nat
  size_eq : size = front.length + back.length

namespace Channel

/-- The queue without records. -/
def empty : Channel := ⟨[], [], 0, rfl⟩

instance : Inhabited Channel := ⟨empty⟩

/-- The records in order. -/
def toList (c : Channel) : List Bytes := c.front ++ c.back.reverse

/-- Add a record at the end. -/
def push (c : Channel) (record : Bytes) : Channel :=
  ⟨c.front, record :: c.back, c.size + 1, by have := c.size_eq; simp only [List.length_cons]; omega⟩

/-- The first record and the queue without it. -/
def pop? (c : Channel) : Option (Bytes × Channel) :=
  match h : c.front with
  | record :: rest =>
    some (record, ⟨rest, c.back, c.size - 1, by
      have := c.size_eq; rw [h] at this; simp only [List.length_cons] at this; omega⟩)
  | [] =>
    match hb : c.back.reverse with
    | record :: rest =>
      some (record, ⟨rest, [], c.size - 1, by
        have hs := c.size_eq
        have hl : c.back.length = rest.length + 1 := by
          rw [← List.length_reverse, hb, List.length_cons]
        rw [h] at hs; simp only [List.length_nil] at hs ⊢; omega⟩)
    | [] => none

@[simp] theorem toList_empty : empty.toList = [] := rfl

@[simp] theorem toList_push (c : Channel) (record : Bytes) :
    (c.push record).toList = c.toList ++ [record] := by
  simp [toList, push]

theorem size_eq_length (c : Channel) : c.size = c.toList.length := by
  rw [c.size_eq]; simp [toList]

theorem pop?_eq_none_iff (c : Channel) : c.pop? = none ↔ c.toList = [] := by
  unfold pop? toList
  split
  · next h => simp [h]
  · next h => split <;> simp_all

theorem toList_of_pop? {c rest : Channel} {record : Bytes} (h : c.pop? = some (record, rest)) :
    c.toList = record :: rest.toList := by
  unfold pop? at h
  unfold toList
  split at h
  · next hf =>
    simp only [Option.some.injEq, Prod.mk.injEq] at h
    obtain ⟨rfl, rfl⟩ := h
    simp [hf]
  · next hf =>
    split at h
    · next hb =>
      simp only [Option.some.injEq, Prod.mk.injEq] at h
      obtain ⟨rfl, rfl⟩ := h
      simp [hf, hb]
    · simp at h

end Channel

end LogSpool
