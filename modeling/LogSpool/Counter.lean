import LogSpool.Keyed
set_option autoImplicit false

/-!
# Counters

Counters of 64 bits that wrap around, and a registry that gives the same counter for
the same name.  A counter is known by its place in the registry, which never changes.
-/

namespace LogSpool

/-- A counter. -/
structure Counter where
  value : UInt64 := 0
  deriving DecidableEq, Repr, Inhabited

/-- Add to a counter, modulo 2^64. -/
def Counter.increment (c : Counter) (n : UInt64) : Counter := ⟨c.value + n⟩

/-- The values of a fresh counter after each of several increments. -/
def Counter.runningValues (c : Counter) : List UInt64 → List UInt64
  | [] => []
  | n :: rest => (c.increment n).value :: (c.increment n).runningValues rest

/-- The place of a counter in its registry. -/
abbrev CounterId := Nat

/-- Named counters in the order of their creation. -/
structure Registry where
  entries : Array (String × Counter) := #[]
  deriving DecidableEq, Repr, Inhabited

namespace Registry

/-- The counter of a name, if there is one. -/
def find? (r : Registry) (name : String) : Option CounterId :=
  r.entries.findIdx? (·.1 == name)

/-- The counter of a name, added unless someone else has added it meanwhile. -/
def getOrInsert (r : Registry) (name : String) : CounterId × Registry :=
  match r.find? name with
  | some id => (id, r)
  | none => (r.entries.size, ⟨r.entries.push (name, {})⟩)

/-- The counter of a name, created if need be: a look first, which shares the registry
with others, and only after a miss an insertion, which has it alone. -/
def getOrCreate (r : Registry) (name : String) : CounterId × Registry :=
  match r.find? name with
  | some id => (id, r)
  | none => r.getOrInsert name

/-- The value of a counter. -/
def value (r : Registry) (id : CounterId) : UInt64 :=
  match r.entries[id]? with
  | some entry => entry.2.value
  | none => 0

/-- Add to a counter. -/
def increment (r : Registry) (id : CounterId) (n : UInt64) : Registry :=
  ⟨r.entries.modify id fun entry => (entry.1, entry.2.increment n)⟩

/-- The names and values of all counters, by name. -/
def snapshot (r : Registry) : List (String × UInt64) :=
  Keyed.ofList (r.entries.toList.map fun entry => (entry.1, entry.2.value))

/-- The look before the insertion makes no difference when nobody comes between. -/
theorem getOrCreate_eq_getOrInsert (r : Registry) (name : String) :
    r.getOrCreate name = r.getOrInsert name := by
  unfold getOrCreate getOrInsert
  split <;> rfl

theorem value_increment_self (r : Registry) {id : CounterId} (h : id < r.entries.size) (n : UInt64) :
    (r.increment id n).value id = r.value id + n := by
  simp [value, increment, Array.getElem_modify, h, Counter.increment]

theorem value_increment_of_ne (r : Registry) {id other : CounterId} (h : other ≠ id) (n : UInt64) :
    (r.increment id n).value other = r.value other := by
  simp [value, increment, Array.getElem?_modify, h.symm]

end Registry

end LogSpool
