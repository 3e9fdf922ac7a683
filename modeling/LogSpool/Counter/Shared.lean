import LogSpool.Counter
import LogSpool.Settings
import LogSpool.Spool.Step
set_option autoImplicit false

/-!
# Shared registries

Any number of threads ask one registry for counters, add to the counters that they were given,
and list them all.  A thread that asks looks for the counter first, which it may do together
with others; if it finds none it comes back later, when nobody else is there, and adds one
unless someone has done so meanwhile.  Nobody adds a counter while a list is in the making, but
what the counters say changes at any time.

`SharedRegistry.step` is one atomic step of a thread, or of a spool that counts its records in
the registry.
-/

namespace LogSpool

/-- A counter that a thread was given, and the name that the thread asked for. -/
structure CounterHandle where
  name : String
  id : CounterId
  deriving DecidableEq, Repr, Inhabited

/-- A list of all counters in the making. -/
structure Listing where
  /-- The counters that it has still to come to. -/
  rest : List CounterId
  /-- What the others said. -/
  taken : List (String × UInt64) := []
  deriving DecidableEq, Repr, Inhabited

/-- It has come to one of the counters. -/
def Listing.take (l : Listing) (place : Nat) (entry : String × Counter) : Listing where
  rest := l.rest.eraseIdx place
  taken := l.taken ++ [(entry.1, entry.2.value)]

/-- A spool that counts its records in a registry. -/
structure CountedSpool where
  spool : Spool
  settings : SpoolSettings
  dropped : CounterId
  written : CounterId
  deriving Inhabited

/-- The name of the counter for records of a fate. -/
def SpoolSettings.counterName (settings : SpoolSettings) : Fate → String
  | .written => settings.writtenCounter
  | .dropped => settings.droppedCounter

/-- The counter for records of a fate. -/
def CountedSpool.handle (member : CountedSpool) (fate : Fate) : CounterHandle where
  name := member.settings.counterName fate
  id := match fate with
    | .written => member.written
    | .dropped => member.dropped

/-- The fates of the records that were counted. -/
def Spool.countedFates (effects : List Effect) : List Fate :=
  effects.filterMap fun
    | .counted _ _ fate => some fate
    | _ => none

/-- A registry and those who work with it. -/
structure SharedRegistry where
  registry : Registry := {}
  /-- The calls that have found no counter, and the names that they ask for. -/
  seeking : Calls String := {}
  /-- The counters that threads were given, in the order of the answers. -/
  handles : List CounterHandle := []
  members : List CountedSpool := []
  listings : Calls Listing := {}
  deriving Inhabited

/-- The steps of those who work with a registry. -/
inductive SharingAction where
  /-- A call looks for the counter of a name. -/
  | look (caller : Nat) (name : String)
  /-- A call that has found none adds one, unless there is one by now. -/
  | insert (caller : Nat)
  /-- Somebody adds to a counter that was given out. -/
  | add (handle : Nat) (n : UInt64)
  /-- A spool starts that counts what it drops and what it writes in counters that were given
  out under the names of its settings. -/
  | start (settings : SpoolSettings) (dropped written : Nat)
  /-- A step of a spool. -/
  | spool (k : Nat) (a : Action)
  /-- A call starts to list all counters. -/
  | list (caller : Nat)
  /-- It comes to one of those that are left, by its place. -/
  | visit (caller place : Nat)
  /-- It has come to all of them. -/
  | finish (caller : Nat)
  deriving DecidableEq, Repr, Inhabited

/-- What a step does beyond the registry itself. -/
inductive SharingEffect where
  /-- A call is answered with a counter. -/
  | given (caller : Nat) (handle : CounterHandle)
  /-- So much was added to a counter that was given out under a name. -/
  | added (name : String) (n : UInt64)
  /-- A call starts to list all counters. -/
  | listing (caller : Nat)
  /-- It is answered with the list. -/
  | listed (caller : Nat) (result : List (String × UInt64))
  deriving DecidableEq, Repr, Inhabited

namespace SharedRegistry

/-- The caller has no call under way. -/
def isFree (s : SharedRegistry) (caller : Nat) : Bool :=
  (s.seeking.find? caller).isNone && (s.listings.find? caller).isNone

/-- Give a counter out. -/
def give (s : SharedRegistry) (handle : CounterHandle) : SharedRegistry :=
  { s with handles := s.handles ++ [handle] }

/-- Add the counter of a name, unless there is one, and give it out. -/
def insert (s : SharedRegistry) (caller : Nat) (name : String) : SharedRegistry × CounterHandle :=
  let (id, registry) := s.registry.getOrInsert name
  let handle : CounterHandle := { name, id }
  ({ s with registry, seeking := s.seeking.remove caller }.give handle, handle)

/-- Add to a counter that was given out. -/
def add (s : SharedRegistry) (handle : CounterHandle) (n : UInt64) : SharedRegistry :=
  { s with registry := s.registry.increment handle.id n }

/-- One step, if it is possible. -/
def step (s : SharedRegistry) : SharingAction → Option (SharedRegistry × List SharingEffect)
  | .look caller name =>
    if s.isFree caller then
      match s.registry.find? name with
      | some id => some (s.give { name, id }, [.given caller { name, id }])
      | none => some ({ s with seeking := s.seeking.add caller name }, [])
    else none
  | .insert caller =>
    -- The insertion waits until no list is in the making.
    if s.listings.isEmpty then
      (s.seeking.find? caller).map fun name =>
        let (s, handle) := s.insert caller name
        (s, [.given caller handle])
    else none
  | .add k n =>
    (s.handles[k]?).map fun handle => (s.add handle n, [.added handle.name n])
  | .start settings dropped written =>
    match s.handles[dropped]?, s.handles[written]? with
    | some dropped, some written =>
      if dropped.name = settings.droppedCounter ∧ written.name = settings.writtenCounter then
        let member : CountedSpool :=
          { spool := Spool.start settings.slots, settings, dropped := dropped.id, written := written.id }
        some ({ s with members := s.members ++ [member] }, [])
      else none
    | _, _ => none
  | .spool k a =>
    (s.members[k]?).bind fun member => (member.spool.step a).map fun (spool, effects) =>
      let counted := (Spool.countedFates effects).map member.handle
      (counted.foldl (fun s handle => s.add handle 1)
          { s with members := s.members.set k { member with spool } },
        counted.map fun handle => .added handle.name 1)
  | .list caller =>
    if s.isFree caller then
      let listing : Listing := { rest := List.range s.registry.entries.size }
      some ({ s with listings := s.listings.add caller listing }, [.listing caller])
    else none
  | .visit caller place => do
    let l ← s.listings.find? caller
    let id ← l.rest[place]?
    let entry ← s.registry.entries[id]?
    return ({ s with listings := s.listings.put caller (l.take place entry) }, [])
  | .finish caller =>
    match s.listings.find? caller with
    | some { rest := [], taken } =>
      some ({ s with listings := s.listings.remove caller }, [.listed caller (Keyed.ofList taken)])
    | _ => none

/-- A run of steps, all of them possible, with their effects in order. -/
def run (s : SharedRegistry) :
    List SharingAction → Option (SharedRegistry × List SharingEffect)
  | [] => some (s, [])
  | a :: rest => do
    let (s, effects) ← s.step a
    let (s, more) ← s.run rest
    return (s, effects ++ more)

/-- All that was added to the counters given out under a name. -/
def total (name : String) : List SharingEffect → Nat
  | [] => 0
  | .added other n :: rest => (if other = name then n.toNat else 0) + total name rest
  | _ :: rest => total name rest

end SharedRegistry

end LogSpool
