set_option autoImplicit false

/-!
# Spools: the calls under way

Calls that are under way at the same time are told apart by their numbers.  `Calls`
holds how far each of them has come; that no number stands in it twice is part of the
type, so that a count over the calls changes by one call at a time.
-/

namespace LogSpool

/-- Calls under way: the number of each, and how far it has come. -/
structure Calls (α : Type) where
  entries : List (Nat × α) := []
  distinct : (entries.map (·.1)).Nodup := by exact List.nodup_nil

namespace Calls

variable {α : Type}

instance : Inhabited (Calls α) := ⟨{}⟩

/-- How far a call has come, if it is under way. -/
def find? (calls : Calls α) (call : Nat) : Option α := calls.entries.lookup call

/-- No call is under way. -/
def isEmpty (calls : Calls α) : Bool := calls.entries.isEmpty

/-- Take a call off the list. -/
def remove (calls : Calls α) (call : Nat) : Calls α where
  entries := calls.entries.filter (·.1 ≠ call)
  distinct := calls.distinct.sublist (List.filter_sublist.map _)

/-- Start a call, in place of one of the same number. -/
def add (calls : Calls α) (call : Nat) (a : α) : Calls α where
  entries := (call, a) :: (calls.remove call).entries
  distinct := by
    refine List.nodup_cons.mpr ⟨?_, (calls.remove call).distinct⟩
    simp [remove]

/-- Change how far every call has come. -/
def mapAll (calls : Calls α) (f : Nat → α → α) : Calls α where
  entries := calls.entries.map fun e => (e.1, f e.1 e.2)
  distinct := by simpa [List.map_map, Function.comp_def] using calls.distinct

/-- Change how far a call has come. -/
def modify (calls : Calls α) (call : Nat) (f : α → α) : Calls α :=
  calls.mapAll fun other a => if other = call then f a else a

/-- Say how far a call has come now. -/
def put (calls : Calls α) (call : Nat) (a : α) : Calls α := calls.modify call fun _ => a

/-- The number of calls that have come as far as a test says. -/
def count (calls : Calls α) (p : α → Bool) : Nat := calls.entries.countP fun e => p e.2

/-- A number that no call has, and neither is there a call with a greater one. -/
def unused (calls : Calls α) : Nat := calls.entries.foldl (fun n e => max n (e.1 + 1)) 0

/-- Every call has come as far as a test says. -/
def all (calls : Calls α) (p : α → Bool) : Bool := calls.entries.all fun e => p e.2

/-! ## Looking calls up -/

@[simp] theorem find?_empty (call : Nat) : ({} : Calls α).find? call = none := rfl

@[simp] theorem isEmpty_empty : ({} : Calls α).isEmpty = true := rfl

/-- A call under way stands in one place of the list. -/
theorem exists_split {calls : Calls α} {call : Nat} {a : α} (h : calls.find? call = some a) :
    ∃ before after, calls.entries = before ++ (call, a) :: after ∧
      ∀ e ∈ before ++ after, e.1 ≠ call := by
  obtain ⟨before, after, heq, -⟩ := List.lookup_eq_some_iff.mp h
  refine ⟨before, after, heq, fun e he hcall => ?_⟩
  have hdistinct := calls.distinct
  rw [heq, List.map_append, List.map_cons] at hdistinct
  have hsplit := List.nodup_cons.mp (List.perm_middle.nodup_iff.mp hdistinct)
  refine hsplit.1 ?_
  rw [← List.map_append]
  exact List.mem_map.mpr ⟨e, he, hcall⟩

theorem find?_of_mem {calls : Calls α} {e : Nat × α} (h : e ∈ calls.entries) :
    calls.find? e.1 = some e.2 := by
  obtain ⟨before, after, heq⟩ := List.append_of_mem h
  refine List.lookup_eq_some_iff.mpr ⟨before, after, heq, fun other hother => ?_⟩
  have hdistinct := calls.distinct
  rw [heq, List.map_append, List.map_cons] at hdistinct
  have hsplit := List.nodup_cons.mp (List.perm_middle.nodup_iff.mp hdistinct)
  have hmem : other.1 ∈ before.map (·.1) := List.mem_map.mpr ⟨other, hother, rfl⟩
  have hne : e.1 ≠ other.1 := by
    intro heq
    exact hsplit.1 (List.mem_append_left _ (heq ▸ hmem))
  simpa using hne

@[simp] theorem find?_add_self (calls : Calls α) (call : Nat) (a : α) :
    (calls.add call a).find? call = some a := by
  simp [find?, add]

/-- No call has a number that is unused, nor a greater one. -/
theorem find?_of_unused_le {calls : Calls α} {call : Nat} (h : calls.unused ≤ call) :
    calls.find? call = none := by
  have hfold : ∀ (entries : List (Nat × α)) (n : Nat),
      n ≤ entries.foldl (fun n e => max n (e.1 + 1)) n ∧
        ∀ e ∈ entries, e.1 < entries.foldl (fun n e => max n (e.1 + 1)) n := by
    intro entries
    induction entries with
    | nil => exact fun n => ⟨Nat.le_refl n, nofun⟩
    | cons e rest ih =>
      intro n
      obtain ⟨hle, hlt⟩ := ih (max n (e.1 + 1))
      refine ⟨Nat.le_trans (Nat.le_max_left _ _) hle, fun other hother => ?_⟩
      rcases List.mem_cons.mp hother with rfl | hrest
      · exact Nat.lt_of_lt_of_le (Nat.lt_succ_self _) (Nat.le_trans (Nat.le_max_right _ _) hle)
      · exact hlt other hrest
  cases hfind : calls.find? call with
  | none => rfl
  | some a =>
    obtain ⟨before, after, hentries, -⟩ := exists_split hfind
    have hmem : (call, a) ∈ calls.entries := by simp [hentries]
    exact absurd ((hfold calls.entries 0).2 _ hmem) (Nat.not_lt.mpr h)

theorem find?_remove (calls : Calls α) (call other : Nat) :
    (calls.remove call).find? other = if other = call then none else calls.find? other := by
  have hentries : (calls.remove call).entries = calls.entries.filter (·.1 ≠ call) := rfl
  unfold find?
  rw [hentries]
  induction calls.entries with
  | nil => simp
  | cons e rest ih =>
    rcases e with ⟨n, a⟩
    by_cases hn : n = call
    · subst hn
      rw [List.filter_cons_of_neg (by simp), ih, List.lookup_cons]
      by_cases ho : other = n
      · simp [ho]
      · have hne : (other == n) = false := by simpa using ho
        simp [ho, hne]
    · rw [List.filter_cons_of_pos (by simpa using hn), List.lookup_cons, List.lookup_cons, ih]
      by_cases ho : other = n
      · simp [ho, hn]
      · have hne : (other == n) = false := by simpa using ho
        simp [hne]

theorem find?_add_of_ne (calls : Calls α) {call other : Nat} (h : other ≠ call) (a : α) :
    (calls.add call a).find? other = calls.find? other := by
  have hrest := find?_remove calls call other
  rw [if_neg h] at hrest
  have hne : (other == call) = false := by simpa using h
  unfold find? add
  rw [List.lookup_cons, hne]
  exact hrest

theorem find?_mapAll (calls : Calls α) (f : Nat → α → α) (call : Nat) :
    (calls.mapAll f).find? call = (calls.find? call).map (f call) := by
  have hentries : (calls.mapAll f).entries = calls.entries.map fun e => (e.1, f e.1 e.2) := rfl
  unfold find?
  rw [hentries]
  induction calls.entries with
  | nil => simp
  | cons e rest ih =>
    rcases e with ⟨n, a⟩
    by_cases hn : call = n
    · simp [hn]
    · have hne : (call == n) = false := by simpa using hn
      simpa [List.lookup_cons, hne] using ih

theorem find?_modify (calls : Calls α) (call other : Nat) (f : α → α) :
    (calls.modify call f).find? other =
      if other = call then (calls.find? other).map f else calls.find? other := by
  unfold modify
  rw [find?_mapAll]
  split <;> simp

theorem find?_put (calls : Calls α) (call other : Nat) (a : α) :
    (calls.put call a).find? other =
      if other = call then (calls.find? other).map (fun _ => a) else calls.find? other :=
  find?_modify calls call other fun _ => a

theorem find?_remove_of_ne (calls : Calls α) {call other : Nat} (h : other ≠ call) :
    (calls.remove call).find? other = calls.find? other := by
  rw [find?_remove, if_neg h]

theorem find?_put_of_ne (calls : Calls α) {call other : Nat} (h : other ≠ call) (a : α) :
    (calls.put call a).find? other = calls.find? other := by
  rw [find?_put, if_neg h]

theorem find?_of_remove {calls : Calls α} {call other : Nat} {a : α}
    (h : (calls.remove call).find? other = some a) : other ≠ call ∧ calls.find? other = some a := by
  rw [find?_remove] at h
  split at h
  · cases h
  · next hne => exact ⟨hne, h⟩

theorem find?_of_put {calls : Calls α} {call other : Nat} {a b : α}
    (h : (calls.put call a).find? other = some b) :
    (other = call ∧ b = a) ∨ (other ≠ call ∧ calls.find? other = some b) := by
  rw [find?_put] at h
  split at h
  · next heq =>
    obtain ⟨_, -, rfl⟩ := Option.map_eq_some_iff.mp h
    exact .inl ⟨heq, rfl⟩
  · next hne => exact .inr ⟨hne, h⟩

theorem find?_of_add {calls : Calls α} {call other : Nat} {a b : α}
    (h : (calls.add call a).find? other = some b) :
    (other = call ∧ b = a) ∨ (other ≠ call ∧ calls.find? other = some b) := by
  by_cases heq : other = call
  · subst heq
    rw [find?_add_self] at h
    exact .inl ⟨rfl, (Option.some.inj h).symm⟩
  · rw [find?_add_of_ne _ heq] at h
    exact .inr ⟨heq, h⟩

theorem find?_put_self {calls : Calls α} {call : Nat} {a : α} (h : calls.find? call = some a)
    (b : α) : (calls.put call b).find? call = some b := by
  rw [find?_put, if_pos rfl, h]
  rfl

theorem isEmpty_eq_false_of_find? {calls : Calls α} {call : Nat} {a : α}
    (h : calls.find? call = some a) : calls.isEmpty = false := by
  obtain ⟨before, after, heq, -⟩ := exists_split h
  simp [isEmpty, heq]

theorem all_iff {calls : Calls α} {p : α → Bool} :
    calls.all p = true ↔ ∀ call a, calls.find? call = some a → p a = true := by
  unfold all
  rw [List.all_eq_true]
  constructor
  · intro h call a hfind
    obtain ⟨before, after, heq, -⟩ := exists_split hfind
    exact h (call, a) (by rw [heq]; simp)
  · intro h e he
    exact h e.1 e.2 (find?_of_mem he)

theorem isEmpty_iff {calls : Calls α} :
    calls.isEmpty = true ↔ ∀ call, calls.find? call = none := by
  constructor
  · intro h call
    cases hfind : calls.find? call with
    | none => rfl
    | some a =>
      rw [isEmpty_eq_false_of_find? hfind] at h
      cases h
  · intro h
    refine List.isEmpty_iff.mpr (List.eq_nil_iff_forall_not_mem.mpr ?_)
    intro e he
    have hself := List.lookup_eq_none_iff.mp (h e.1) e he
    simp at hself

/-! ## One change after another -/

/-- The list is all there is to calls under way. -/
theorem ext_entries {calls other : Calls α} (h : calls.entries = other.entries) : calls = other := by
  cases calls
  cases other
  cases h
  rfl

theorem put_modify (calls : Calls α) (call : Nat) (f : α → α) (b : α) :
    (calls.modify call f).put call b = calls.put call b := by
  refine ext_entries ?_
  simp only [put, modify, mapAll, List.map_map]
  refine List.map_congr_left fun e _ => ?_
  by_cases h : e.1 = call <;> simp [h]

theorem put_put (calls : Calls α) (call : Nat) (a b : α) :
    (calls.put call a).put call b = calls.put call b :=
  put_modify calls call _ b

theorem modify_eq_self {calls : Calls α} {call : Nat} {f : α → α}
    (h : ∀ a, calls.find? call = some a → f a = a) : calls.modify call f = calls := by
  refine ext_entries ((List.map_congr_left fun e he => ?_).trans (List.map_id' _))
  dsimp only
  split
  · next heq =>
    have hfind := find?_of_mem he
    rw [heq] at hfind
    rw [h _ hfind]
  · rfl

theorem put_self {calls : Calls α} {call : Nat} {a : α} (h : calls.find? call = some a) :
    calls.put call a = calls :=
  modify_eq_self fun _ hb => Option.some.inj (h.symm.trans hb)

theorem modify_of_none {calls : Calls α} {call : Nat} (h : calls.find? call = none) (f : α → α) :
    calls.modify call f = calls :=
  modify_eq_self fun a ha => by rw [h] at ha; cases ha

theorem put_add (calls : Calls α) (call : Nat) (a b : α) :
    (calls.add call a).put call b = calls.add call b := by
  refine ext_entries ?_
  simp only [put, modify, mapAll, add, List.map_cons, if_pos]
  refine congrArg _ ((List.map_congr_left fun e he => ?_).trans (List.map_id' _))
  have hne : e.1 ≠ call := by simpa using (List.mem_filter.mp he).2
  rw [if_neg hne]

theorem remove_modify (calls : Calls α) (call : Nat) (f : α → α) :
    (calls.modify call f).remove call = calls.remove call := by
  refine ext_entries ?_
  simp only [remove, modify, mapAll, List.filter_map]
  refine (List.map_congr_left fun e he => ?_).trans (List.map_id' _)
  have hne : e.1 ≠ call := by simpa using (List.mem_filter.mp he).2
  rw [if_neg hne]

theorem remove_put (calls : Calls α) (call : Nat) (a : α) :
    (calls.put call a).remove call = calls.remove call :=
  remove_modify calls call _

theorem remove_of_none {calls : Calls α} {call : Nat} (h : calls.find? call = none) :
    calls.remove call = calls := by
  refine ext_entries (List.filter_eq_self.mpr fun e he => ?_)
  have hne : call ≠ e.1 := by simpa using List.lookup_eq_none_iff.mp h e he
  simpa using fun heq => hne heq.symm

@[simp] theorem remove_remove (calls : Calls α) (call : Nat) :
    (calls.remove call).remove call = calls.remove call :=
  remove_of_none (by rw [find?_remove, if_pos rfl])

theorem remove_add {calls : Calls α} {call : Nat} (h : calls.find? call = none) (a : α) :
    (calls.add call a).remove call = calls := by
  refine Eq.trans (ext_entries ?_) (remove_of_none h)
  simp [remove, add, List.filter_filter]

theorem remove_mapAll (calls : Calls α) (call : Nat) (f : Nat → α → α) :
    (calls.mapAll f).remove call = (calls.remove call).mapAll f := by
  refine ext_entries ?_
  simp only [remove, mapAll, List.filter_map]
  rfl

theorem remove_comm (calls : Calls α) (call other : Nat) :
    (calls.remove other).remove call = (calls.remove call).remove other := by
  refine ext_entries ?_
  simp only [remove, List.filter_filter, Bool.and_comm]

theorem remove_add_of_ne (calls : Calls α) {call other : Nat} (h : other ≠ call) (a : α) :
    (calls.add other a).remove call = (calls.remove call).add other a := by
  refine ext_entries ?_
  have hrest := congrArg entries (remove_comm calls call other)
  simp only [remove, add, List.filter_cons, ne_eq, h, not_false_eq_true, decide_true, if_true]
  simpa [remove] using hrest

/-! ## Counting calls -/

@[simp] theorem count_empty (p : α → Bool) : ({} : Calls α).count p = 0 := rfl

theorem count_eq_zero_of_isEmpty {calls : Calls α} (h : calls.isEmpty = true) (p : α → Bool) :
    calls.count p = 0 := by
  unfold isEmpty at h
  unfold count
  rw [List.isEmpty_iff.mp h, List.countP_nil]

/-- A count over all calls is the call in question, if it is counted, and the rest. -/
theorem count_remove {calls : Calls α} {call : Nat} {a : α} (h : calls.find? call = some a)
    (p : α → Bool) : (calls.remove call).count p + (p a).toNat = calls.count p := by
  obtain ⟨before, after, heq, hother⟩ := exists_split h
  have hremove : (calls.remove call).entries = before ++ after := by
    have hkeep : (before ++ after).filter (·.1 ≠ call) = before ++ after :=
      List.filter_eq_self.mpr fun e he => by simpa using hother e he
    rw [← hkeep]
    simp [remove, heq]
  simp only [count, hremove, heq, List.countP_append, List.countP_cons]
  cases p a with
  | false => simp
  | true => simp [Nat.add_assoc]

/-- A call that was not under way is counted on top of the others. -/
theorem count_add {calls : Calls α} {call : Nat} (h : calls.find? call = none) (a : α)
    (p : α → Bool) : (calls.add call a).count p = calls.count p + (p a).toNat := by
  simp only [count, add, remove_of_none h, List.countP_cons]
  cases p a <;> simp

/-- Putting a call into a new place changes a count by that call alone. -/
theorem count_put {calls : Calls α} {call : Nat} {a : α} (h : calls.find? call = some a) (b : α)
    (p : α → Bool) :
    (calls.put call b).count p + (p a).toNat = calls.count p + (p b).toNat := by
  obtain ⟨before, after, heq, hother⟩ := exists_split h
  have hkeep : ∀ rest : List (Nat × α), (∀ e ∈ rest, e.1 ≠ call) →
      (rest.map fun e => (e.1, if e.1 = call then b else e.2)) = rest := by
    intro rest hrest
    refine (List.map_congr_left fun e he => ?_).trans (List.map_id' _)
    rw [if_neg (hrest e he)]
  have hput : (calls.put call b).entries = before ++ (call, b) :: after := by
    have hbefore := hkeep before fun e he => hother e (List.mem_append_left _ he)
    have hafter := hkeep after fun e he => hother e (List.mem_append_right _ he)
    simp only [put, modify, mapAll, heq, List.map_append, List.map_cons, if_pos, hbefore, hafter]
  simp only [count, hput, heq, List.countP_append, List.countP_cons]
  cases p a <;> cases p b <;> simp <;> omega

theorem count_pos {calls : Calls α} {call : Nat} {a : α} (h : calls.find? call = some a)
    {p : α → Bool} (hp : p a = true) : 0 < calls.count p := by
  have hremove := count_remove h p
  rw [hp, Bool.toNat_true] at hremove
  omega

end Calls

end LogSpool
