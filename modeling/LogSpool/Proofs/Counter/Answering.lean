import LogSpool.Proofs.Counter.Faithful
import LogSpool.Session.Open
set_option autoImplicit false

/-!
# Shared registries: calls that are answered

Every list in the making can be brought to its end (`listing_run`), and every call that has found
no counter can be answered after that (`answered_of_seeking`).  What a call does when nobody comes
between is `Registry.getOrCreate`, what a list then shows is `Registry.snapshot`, and a session
that starts a station takes the steps of two calls and a start (`startStation_run`).
-/

namespace LogSpool.SharedRegistry

variable {s : SharedRegistry} {caller : Nat} {effects : List SharingEffect}

/-- What a counter says, with its name. -/
def entryAt (r : Registry) (id : CounterId) : Option (String × UInt64) :=
  (r.entries[id]?).map fun entry => (entry.1, entry.2.value)

theorem filterMap_entryAt (r : Registry) :
    (List.range r.entries.size).filterMap (entryAt r) =
      r.entries.toList.map fun entry => (entry.1, entry.2.value) := by
  rcases r with ⟨⟨entries⟩⟩
  induction entries using List.reverseRecOn with
  | nil => rfl
  | append_singleton entries entry ih =>
    rw [List.size_toArray] at ih ⊢
    rw [List.length_append, List.length_singleton, List.range_succ, List.filterMap_append,
      List.map_append, ← ih]
    congr 1
    · refine List.filterMap_congr fun id hid => ?_
      simp [entryAt, List.getElem?_append_left (List.mem_range.mp hid)]
    · simp [entryAt]

/-- A list that nobody interrupts comes to all counters that are left, and is answered. -/
theorem listing_run {l : Listing} (hlisting : s.listings.find? caller = some l)
    (hrest : ∀ id ∈ l.rest, id < s.registry.entries.size) :
    ∃ actions, s.run actions = some ({ s with listings := s.listings.remove caller },
      [.listed caller (Keyed.ofList (l.taken ++ l.rest.filterMap (entryAt s.registry)))]) := by
  obtain ⟨rest, taken⟩ := l
  induction rest generalizing s taken with
  | nil =>
    refine ⟨[.finish caller], run_of_step ?_⟩
    simp [step, hlisting]
  | cons id rest ih =>
    have hlt := hrest id List.mem_cons_self
    let next := Listing.take ⟨id :: rest, taken⟩ 0 s.registry.entries[id]
    have hvisit : s.step (.visit caller 0) =
        some ({ s with listings := s.listings.put caller next }, []) := by
      simp [step, hlisting, hlt, next]
    obtain ⟨actions, hactions⟩ := @ih { s with listings := s.listings.put caller next } next.taken
      (Calls.find?_put_self hlisting _) fun other hother => hrest other (List.mem_cons_of_mem _ hother)
    rw [Calls.remove_put] at hactions
    have hall := run_trans (run_of_step hvisit) hactions
    exact ⟨_, by simpa [entryAt, hlt, next, Listing.take] using hall⟩

theorem isFree_iff : s.isFree caller = true ↔
    s.seeking.find? caller = none ∧ s.listings.find? caller = none := by
  simp [isFree]

/-- A list that nobody interrupts, from its start, shows what the registry says. -/
theorem snapshot_run (hfree : s.isFree caller = true) :
    ∃ actions, s.run actions =
      some (s, [.listing caller, .listed caller s.registry.snapshot]) := by
  obtain ⟨-, hnone⟩ := isFree_iff.mp hfree
  let started : SharedRegistry :=
    { s with listings := s.listings.add caller { rest := List.range s.registry.entries.size } }
  have hstart : s.step (.list caller) = some (started, [.listing caller]) := by
    simp [step, hfree, started]
  obtain ⟨actions, hactions⟩ := @listing_run started caller _
    (Calls.find?_add_self s.listings caller _) (by simp [started])
  have hback : { started with listings := started.listings.remove caller } = s := by
    simp [started, Calls.remove_add hnone]
  rw [hback, List.nil_append, filterMap_entryAt] at hactions
  exact ⟨_, run_trans (run_of_step hstart) hactions⟩

/-- A call that nobody interrupts is answered with the counter of the name, which is created if
need be. -/
theorem call_run (hfree : s.isFree caller = true) (halone : s.listings.isEmpty = true)
    (name : String) :
    ∃ actions, s.run actions =
      some ({ s with registry := (s.registry.getOrCreate name).2 }.give
          ⟨name, (s.registry.getOrCreate name).1⟩,
        [.given caller ⟨name, (s.registry.getOrCreate name).1⟩]) := by
  obtain ⟨hnone, -⟩ := isFree_iff.mp hfree
  cases hfind : s.registry.find? name with
  | some id =>
    refine ⟨[.look caller name], run_of_step ?_⟩
    simp [step, hfree, hfind, Registry.getOrCreate]
  | none =>
    have hlook : s.step (.look caller name) =
        some ({ s with seeking := s.seeking.add caller name }, []) := by
      simp [step, hfree, hfind]
    have hinsert : ({ s with seeking := s.seeking.add caller name } : SharedRegistry).step
        (.insert caller) = some ({ s with registry := (s.registry.getOrCreate name).2 }.give
          ⟨name, (s.registry.getOrCreate name).1⟩,
        [.given caller ⟨name, (s.registry.getOrCreate name).1⟩]) := by
      simp [step, halone, insert, Registry.getOrCreate_eq_getOrInsert, Calls.remove_add hnone]
    exact ⟨_, run_trans (run_of_step hlook) (run_of_step hinsert)⟩

theorem exists_run_alone (h : Faithful s effects) :
    ∃ actions t es, s.run actions = some (t, es) ∧ t.listings.isEmpty = true ∧
      t.seeking = s.seeking := by
  induction hn : s.listings.count (fun _ => true) using Nat.strongRecOn
    generalizing s effects with
  | _ n ih =>
    by_cases halone : s.listings.isEmpty = true
    · exact ⟨[], s, [], rfl, halone, rfl⟩
    · rw [Calls.isEmpty_iff, not_forall] at halone
      obtain ⟨caller, hsome⟩ := halone
      obtain ⟨l, hlisting⟩ := Option.ne_none_iff_exists'.mp hsome
      obtain ⟨actions, hactions⟩ := listing_run hlisting fun id hid => by
        simpa [Registry.names] using (h.listings caller l hlisting).rest id hid
      have hfewer : (s.listings.remove caller).count (fun _ => true) < n := by
        have hremove := Calls.count_remove hlisting fun _ => true
        rw [Bool.toNat_true] at hremove
        omega
      have hnext := run_induction (fun h step => Faithful.preserve h step) h hactions
      obtain ⟨more, t, es, hmore, hend, hseeking⟩ :=
        ih _ hfewer hnext rfl
      exact ⟨_, t, _, run_trans hactions hmore, hend, hseeking⟩

/-- A call that has found no counter can be answered with one. -/
theorem answered_of_seeking (h : Faithful s effects) {name : String}
    (hcall : s.seeking.find? caller = some name) :
    ∃ actions t es id, s.run actions = some (t, es) ∧ .given caller ⟨name, id⟩ ∈ es := by
  obtain ⟨actions, t, es, hrun, halone, hseeking⟩ := exists_run_alone h
  have hinsert : t.step (.insert caller) =
      some ((t.insert caller name).1, [.given caller (t.insert caller name).2]) := by
    simp [step, halone, hseeking, hcall]
  have hgiven : SharingEffect.given caller ⟨name, (t.registry.getOrInsert name).1⟩ ∈
      es ++ [.given caller (t.insert caller name).2] := by
    simp [insert]
  exact ⟨_, _, _, _, run_trans hrun (run_of_step hinsert), hgiven⟩

/-- A session that starts a station takes the steps of two calls, one for each counter of its
settings, and of a spool that starts with them. -/
theorem startStation_run (session : Session) (hregistry : s.registry = session.registry)
    (hfree : s.isFree caller = true) (halone : s.listings.isEmpty = true) (j : Nat)
    (settings : SpoolSettings) (boxed : Bool) :
    ∃ actions t es station, s.run actions = some (t, es) ∧
      (session.startStation j settings boxed).1.stations = session.stations.push station ∧
      (session.startStation j settings boxed).1.registry = t.registry ∧
      t.members = s.members ++
        [⟨station.spool, settings, station.droppedCounter, station.writtenCounter⟩] := by
  let dropped := s.registry.getOrCreate settings.droppedCounter
  let written := dropped.2.getOrCreate settings.writtenCounter
  let asked := { s with registry := dropped.2 }.give ⟨settings.droppedCounter, dropped.1⟩
  let ready := { asked with registry := written.2 }.give ⟨settings.writtenCounter, written.1⟩
  let station : Station :=
    { spool := Spool.start settings.slots, sink := j, droppedCounter := dropped.1,
      writtenCounter := written.1, boxed }
  obtain ⟨first, hfirst⟩ := call_run hfree halone settings.droppedCounter
  obtain ⟨second, hsecond⟩ := @call_run asked caller hfree halone settings.writtenCounter
  have hstart : ready.step (.start settings s.handles.length (s.handles.length + 1)) =
      some ({ ready with
        members := s.members ++ [⟨station.spool, settings, dropped.1, written.1⟩] }, []) := by
    simp [step, ready, asked, give, station]
  refine ⟨_, _, _, station, run_trans (run_trans hfirst hsecond) (run_of_step hstart), ?_, ?_, rfl⟩
  · simp only [Session.startStation, Session.resolveCounters, Session.enqueue, ← hregistry]
    rfl
  · simp only [Session.startStation, Session.resolveCounters, Session.enqueue, ← hregistry]
    rfl

end LogSpool.SharedRegistry
