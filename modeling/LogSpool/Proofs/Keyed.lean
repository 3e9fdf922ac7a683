import LogSpool.Keyed
import Mathlib.Data.List.Induction
set_option autoImplicit false

/-!
# Keyed lists: what stands under a name

A keyed list that was made of named values has under each name what was put there last, and it is
made by its names and what stands under them: two keyed lists in which every name has the same value
are the same (`ext_of_get?`).
-/

namespace LogSpool

namespace Keyed

variable {α : Type}

/-- One more named value is put in place of what stood under its name. -/
theorem ofList_concat (pairs : List (String × α)) (pair : String × α) :
    ofList (pairs ++ [pair]) = insert pair.1 pair.2 (ofList pairs) := by
  simp [ofList, List.foldl_append]

theorem get?_ofList (pairs : List (String × α)) (name : String) :
    get? (ofList pairs) name = pairs.reverse.lookup name := by
  induction pairs using List.reverseRecOn with
  | nil => rfl
  | append_singleton pairs pair ih =>
    rw [ofList_concat, List.reverse_append, List.reverse_singleton, List.singleton_append]
    by_cases heq : name = pair.1
    · rw [heq, get?_insert_self, List.lookup_cons_self]
    · have hne : (name == pair.1) = false := by simpa using heq
      rw [get?_insert_of_ne heq, ih, List.lookup_cons, hne]

theorem mem_of_get?_ofList {pairs : List (String × α)} {name : String} {value : α}
    (h : get? (ofList pairs) name = some value) : (name, value) ∈ pairs := by
  rw [get?_ofList] at h
  obtain ⟨before, after, heq, -⟩ := List.lookup_eq_some_iff.mp h
  rw [← List.mem_reverse, heq]
  simp

theorem isSome_get?_ofList {pairs : List (String × α)} {name : String} :
    (get? (ofList pairs) name).isSome ↔ name ∈ pairs.map (·.1) := by
  constructor
  · intro h
    obtain ⟨value, hvalue⟩ := Option.isSome_iff_exists.mp h
    exact List.mem_map_of_mem (mem_of_get?_ofList hvalue)
  · intro h
    obtain ⟨pair, hmem, rfl⟩ := List.mem_map.mp h
    rw [get?_ofList, Option.isSome_iff_ne_none]
    intro hnone
    have hself := List.lookup_eq_none_iff.mp hnone pair (List.mem_reverse.mpr hmem)
    simp at hself

/-- What is in a list whose names ascend stands under its name. -/
theorem get?_eq_some_iff {keyed : List (String × α)} (h : Ascending keyed) {name : String}
    {value : α} : get? keyed name = some value ↔ (name, value) ∈ keyed := by
  unfold get?
  constructor
  · intro hget
    obtain ⟨entry, hfind, rfl⟩ := Option.map_eq_some_iff.mp hget
    obtain rfl : entry.1 = name := by simpa using List.find?_some hfind
    exact List.mem_of_find?_eq_some hfind
  · intro hmem
    obtain ⟨before, after, rfl⟩ := List.append_of_mem hmem
    have hbefore : ∀ entry ∈ before, entry.1 < name := fun entry hentry =>
      (List.pairwise_append.mp h).2.2 entry hentry (name, value) List.mem_cons_self
    have hnone : before.find? (·.1 == name) = none :=
      List.find?_eq_none.mpr fun entry hentry => by simpa using String.ne_of_lt (hbefore entry hentry)
    rw [List.find?_append, hnone, Option.none_or]
    simp

theorem mem_names_ofList {pairs : List (String × α)} {name : String} :
    name ∈ (ofList pairs).map (·.1) ↔ name ∈ pairs.map (·.1) := by
  have hfound : name ∈ (ofList pairs).map (·.1) ↔ (get? (ofList pairs) name).isSome := by
    rw [Option.isSome_iff_exists]
    simp [get?_eq_some_iff (ascending_ofList pairs)]
  exact hfound.trans isSome_get?_ofList

/-- Keyed lists in which the same values stand under the same names are the same. -/
theorem ext_of_get? {keyed other : List (String × α)} (h : Ascending keyed) (hother : Ascending other)
    (hget : ∀ name, get? keyed name = get? other name) : keyed = other := by
  have hnodup : ∀ {entries : List (String × α)}, Ascending entries → entries.Nodup :=
    fun hascending => List.nodup_iff_pairwise_ne.mpr
      (hascending.imp fun hlt heq => String.ne_of_lt hlt (congrArg Prod.fst heq))
  have hsame : keyed.Perm other := by
    refine (List.perm_ext_iff_of_nodup (hnodup h) (hnodup hother)).mpr fun (name, value) => ?_
    rw [← get?_eq_some_iff h, ← get?_eq_some_iff hother, hget]
  refine List.Perm.eq_of_pairwise (fun a b _ _ hlt hgt => ?_) h hother hsame
  exact absurd (String.lt_trans hlt hgt) (String.lt_irrefl a.1)

end Keyed

end LogSpool
