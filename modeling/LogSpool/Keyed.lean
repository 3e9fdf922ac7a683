set_option autoImplicit false

/-!
# Keyed lists

Lists of named values in ascending order of their names, each name once.  Names
compare as their UTF-8 bytes, which is the order of their code points.
-/

namespace LogSpool.Keyed

/-- Put a named value into a keyed list, in place of one of the same name. -/
def insert {α : Type} (name : String) (value : α) : List (String × α) → List (String × α)
  | [] => [(name, value)]
  | (other, kept) :: rest =>
    if name < other then (name, value) :: (other, kept) :: rest
    else if name = other then (name, value) :: rest
    else (other, kept) :: insert name value rest

/-- The keyed list of named values, later ones in place of earlier ones. -/
def ofList {α : Type} (pairs : List (String × α)) : List (String × α) :=
  pairs.foldl (fun keyed pair => insert pair.1 pair.2 keyed) []

/-- The names ascend strictly. -/
def Ascending {α : Type} (keyed : List (String × α)) : Prop :=
  keyed.Pairwise fun a b => a.1 < b.1

/-- The value of a name. -/
def get? {α : Type} (keyed : List (String × α)) (name : String) : Option α :=
  (keyed.find? (·.1 == name)).map (·.2)

theorem get?_insert_self {α : Type} (name : String) (value : α) (keyed : List (String × α)) :
    get? (insert name value keyed) name = some value := by
  induction keyed with
  | nil => simp [insert, get?]
  | cons entry rest ih =>
    unfold insert
    split
    · simp [get?]
    · split
      · simp [get?]
      · next _ h =>
        have hne : (entry.1 == name) = false := by simpa using fun e => h e.symm
        simpa [get?, List.find?_cons, hne] using ih

theorem get?_insert_of_ne {α : Type} {name other : String} (h : other ≠ name) (value : α)
    (keyed : List (String × α)) : get? (insert name value keyed) other = get? keyed other := by
  have hn : (name == other) = false := by simpa using fun e => h e.symm
  induction keyed with
  | nil => simp [insert, get?, hn]
  | cons entry rest ih =>
    unfold insert
    split
    · simp [get?, List.find?_cons, hn]
    · split
      · next e =>
        have he : (entry.1 == other) = false := by rw [← e]; exact hn
        simp [get?, hn, he]
      · cases he : entry.1 == other
        · simpa [get?, List.find?_cons, he] using ih
        · simp [get?, he]

theorem mem_insert {α : Type} {name : String} {value : α} {keyed : List (String × α)}
    {entry : String × α} (h : entry ∈ insert name value keyed) :
    entry = (name, value) ∨ entry ∈ keyed := by
  induction keyed with
  | nil => simpa [insert] using h
  | cons first rest ih =>
    unfold insert at h
    split at h
    · simpa using h
    · split at h
      · rcases List.mem_cons.mp h with h | h
        · exact .inl h
        · exact .inr (List.mem_cons_of_mem _ h)
      · rcases List.mem_cons.mp h with h | h
        · exact .inr (h ▸ List.mem_cons_self)
        · exact (ih h).imp id (List.mem_cons_of_mem _)

theorem ascending_insert {α : Type} (name : String) (value : α) {keyed : List (String × α)}
    (h : Ascending keyed) : Ascending (insert name value keyed) := by
  induction keyed with
  | nil => simp [insert, Ascending]
  | cons first rest ih =>
    obtain ⟨below, sorted⟩ := List.pairwise_cons.mp h
    unfold insert
    split
    · next lt =>
      refine List.pairwise_cons.mpr ⟨fun entry mem => ?_, h⟩
      rcases List.mem_cons.mp mem with rfl | mem
      · exact lt
      · exact String.lt_trans lt (below entry mem)
    · split
      · next eq => exact List.pairwise_cons.mpr ⟨fun entry mem => eq ▸ below entry mem, sorted⟩
      · next notLt ne =>
        refine List.pairwise_cons.mpr ⟨fun entry mem => ?_, ih sorted⟩
        rcases mem_insert mem with rfl | mem
        · have le : first.1 ≤ name := String.not_lt.mp notLt
          exact Std.lt_of_le_of_ne le fun e => ne e.symm
        · exact below entry mem

theorem ascending_ofList {α : Type} (pairs : List (String × α)) : Ascending (ofList pairs) := by
  have step : ∀ (pairs keyed : List (String × α)), Ascending keyed →
      Ascending (pairs.foldl (fun keyed pair => insert pair.1 pair.2 keyed) keyed) := by
    intro pairs
    induction pairs with
    | nil => exact fun _ h => h
    | cons pair rest ih => exact fun keyed h => ih _ (ascending_insert pair.1 pair.2 h)
  exact step pairs [] List.Pairwise.nil

end LogSpool.Keyed
