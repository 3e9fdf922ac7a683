import LogSpool.Proofs.Counter.Answering
set_option autoImplicit false

/-!
# Shared registries: one counter for each name

Main result:

* `counters_shared`: however the calls that ask for counters, the increments and the lists of
  many threads interleave, there is one counter for each name, it is never replaced, and whoever
  looks at it sees all that was added under that name.
-/

namespace LogSpool.SharedRegistry

variable {s t : SharedRegistry} {actions : List SharingAction} {effects : List SharingEffect}

/-- Counters that were given out are the same when they were asked for by the same name. -/
theorem Faithful.id_eq_iff (h : Faithful s effects) {first second : CounterHandle}
    (hfirst : first ∈ s.handles) (hsecond : second ∈ s.handles) :
    first.id = second.id ↔ first.name = second.name := by
  have hfoundFirst := h.handles first hfirst
  have hfoundSecond := h.handles second hsecond
  constructor
  · intro heq
    have hnameFirst := Registry.names_of_find? hfoundFirst
    rw [heq, Registry.names_of_find? hfoundSecond] at hnameFirst
    exact (Option.some.inj hnameFirst).symm
  · intro heq
    rw [heq, hfoundSecond] at hfoundFirst
    exact (Option.some.inj hfoundFirst).symm

/-- A list that has come to all counters shows each of them, with what it said at some moment
since the list was started. -/
theorem Faithful.listed (h : Faithful s effects) {caller : Nat} {result : List (String × UInt64)}
    (hstep : s.step (.finish caller) = some (t, [.listed caller result])) :
    Keyed.Ascending result ∧
      (∀ name, (Keyed.get? result name).isSome ↔ name ∈ s.registry.names) ∧
      ∃ before during, effects = before ++ .listing caller :: during ∧
        .listing caller ∉ during ∧
        ∀ name value, Keyed.get? result name = some value → ∃ past later, during = past ++ later ∧
          value.toNat = total name (before ++ past) % UInt64.size := by
  cases Transition.of_step hstep with
  | @listed _ taken hlisting =>
    have hfollows := h.listings caller _ hlisting
    obtain ⟨before, during, heffects, honce, htaken⟩ := hfollows.since
    refine ⟨Keyed.ascending_ofList taken, fun name => ?_, before, during, heffects, honce, ?_⟩
    · rw [Keyed.isSome_get?_ofList]
      constructor
      · intro hname
        obtain ⟨entry, hentry, rfl⟩ := List.mem_map.mp hname
        exact hfollows.sound entry hentry
      · intro hname
        obtain ⟨id, hid⟩ := List.mem_iff_getElem?.mp hname
        exact (hfollows.complete id name hid).resolve_left (List.not_mem_nil)
    · intro name value hvalue
      exact htaken (name, value) (Keyed.mem_of_get?_ofList hvalue)

/-- However the calls that ask a registry for counters, the increments and the lists of many
threads interleave: calls for one name are answered with one counter, and calls for two names
with two.  What a counter that was given out says is all that was added under its name, modulo
2^64; so it is with the two counters of every spool, also where spools share names or one uses
the same name twice.  A list shows every name, with what was added under it by some moment since
the list was started.  No later step replaces or removes a counter.  A call that has found none
can be answered, and calls and lists that nobody interrupts are those of the registry: so a
session that starts a station gives its spool the counters of two such calls. -/
theorem counters_shared (h : ({} : SharedRegistry).run actions = some (s, effects)) :
    (∀ c d first second, .given c first ∈ effects → .given d second ∈ effects →
      (first.id = second.id ↔ first.name = second.name)) ∧
    (∀ handle ∈ s.handles,
      (s.registry.value handle.id).toNat = total handle.name effects % UInt64.size) ∧
    (∀ member ∈ s.members,
      (s.registry.value member.dropped).toNat =
          total member.settings.droppedCounter effects % UInt64.size ∧
        (s.registry.value member.written).toNat =
          total member.settings.writtenCounter effects % UInt64.size) ∧
    (∀ caller t result, s.step (.finish caller) = some (t, [.listed caller result]) →
      Keyed.Ascending result ∧
        (∀ name, (Keyed.get? result name).isSome ↔ name ∈ s.registry.names) ∧
        ∃ before during, effects = before ++ .listing caller :: during ∧
          .listing caller ∉ during ∧
          ∀ name value, Keyed.get? result name = some value → ∃ past later,
            during = past ++ later ∧
              value.toNat = total name (before ++ past) % UInt64.size) ∧
    (∀ more t later, s.run more = some (t, later) →
      t.registry.names.Nodup ∧ s.registry.names <+: t.registry.names ∧
        ∀ handle ∈ s.handles, handle ∈ t.handles ∧
          t.registry.find? handle.name = some handle.id) ∧
    (∀ caller name, s.seeking.find? caller = some name →
      ∃ more t later id, s.run more = some (t, later) ∧ .given caller ⟨name, id⟩ ∈ later) ∧
    ∀ caller, s.isFree caller = true →
      (∃ more, s.run more =
        some (s, [.listing caller, .listed caller s.registry.snapshot])) ∧
      (s.listings.isEmpty = true → ∀ name, ∃ more, s.run more =
        some ({ s with registry := (s.registry.getOrCreate name).2 }.give
            ⟨name, (s.registry.getOrCreate name).1⟩,
          [.given caller ⟨name, (s.registry.getOrCreate name).1⟩])) ∧
      (s.listings.isEmpty = true → ∀ (session : Session) j settings boxed,
        s.registry = session.registry → ∃ more t later station, s.run more = some (t, later) ∧
          (session.startStation j settings boxed).1.stations = session.stations.push station ∧
          (session.startStation j settings boxed).1.registry = t.registry ∧
          t.members = s.members ++
            [⟨station.spool, settings, station.droppedCounter, station.writtenCounter⟩]) := by
  have hfaithful := faithful_of_run h
  refine ⟨?_, ?_, ?_, ?_, ?_, ?_, ?_⟩
  · intro c d first second hfirst hsecond
    exact hfaithful.id_eq_iff (hfaithful.given c first hfirst) (hfaithful.given d second hsecond)
  · exact fun handle hhandle => hfaithful.value_eq (hfaithful.handles handle hhandle)
  · intro member hmember
    have hcounts := hfaithful.members member hmember
    exact ⟨hfaithful.value_eq (hcounts .dropped), hfaithful.value_eq (hcounts .written)⟩
  · exact fun caller t result hstep => hfaithful.listed hstep
  · intro more t later hmore
    obtain ⟨hhandles, hnames⟩ := kept_of_run hmore
    have hlater := faithful_of_run (run_trans h hmore)
    refine ⟨hlater.distinct, hnames, fun handle hhandle => ?_⟩
    have hkept := hhandles.subset hhandle
    exact ⟨hkept, hlater.handles handle hkept⟩
  · exact fun caller name hcall => answered_of_seeking hfaithful hcall
  · intro caller hfree
    refine ⟨snapshot_run hfree, fun halone name => call_run hfree halone name, ?_⟩
    exact fun halone session j settings boxed hregistry =>
      startStation_run session hregistry hfree halone j settings boxed

/-- Two calls for one name that both find no counter before either adds one, a counter that wraps
around, a spool that counts what it drops and what it writes in one counter, which another spool
shares, and a list that comes to the counters while they go on. -/
def crossedCalls : List SharingAction :=
  [.look 0 "lost", .look 1 "lost", .insert 1, .add 0 18446744073709551615, .insert 0,
    .look 0 "kept", .insert 0, .look 1 "lost", .add 3 4,
    .start { capacity := 1, droppedCounter := "lost", writtenCounter := "lost" } 0 1,
    .start { capacity := 1, droppedCounter := "lost", writtenCounter := "kept" } 3 2,
    .spool 0 (.enter 0 [1]), .spool 0 (.advance 0), .spool 0 (.enter 1 [2]),
    .spool 0 (.advance 1), .spool 0 (.advance 0), .spool 1 (.enter 0 [3]),
    .spool 1 (.advance 0), .spool 1 (.advance 0), .spool 1 .receive, .spool 1 .await,
    .spool 1 (.finish (.returned 1)),
    .list 2, .visit 2 1, .spool 1 .judge, .spool 0 (.advance 1), .look 0 "late", .visit 2 0,
    .add 0 10]

/-- Both calls were answered with the first counter, which says 14 at the end; the list, which
came to it before the last addition and to the other one before a record was counted there, shows
4 and 0; and the call for a third name can be answered when the list is done. -/
theorem counters_shared_crossed :
    ∃ s effects, ({} : SharedRegistry).run crossedCalls = some (s, effects) ∧
      s.handles = [⟨"lost", 0⟩, ⟨"lost", 0⟩, ⟨"kept", 1⟩, ⟨"lost", 0⟩] ∧
      ((0 : Nat) = 0 ↔ "lost" = "lost") ∧ ((0 : Nat) = 1 ↔ "lost" = "kept") ∧
      s.registry.value 0 = 14 ∧ (14 : UInt64).toNat = total "lost" effects % UInt64.size ∧
      (∃ t, s.step (.finish 2) = some (t, [.listed 2 [("kept", 0), ("lost", 4)]])) ∧
      Keyed.Ascending [("kept", (0 : UInt64)), ("lost", 4)] ∧
      ∃ more t later id, s.run more = some (t, later) ∧ .given 0 ⟨"late", id⟩ ∈ later := by
  obtain ⟨s, effects, hrun, hhandles, hgiven, hvalue, hseeking, t, hlist⟩ :
      ∃ s effects, ({} : SharedRegistry).run crossedCalls = some (s, effects) ∧
        s.handles = [⟨"lost", 0⟩, ⟨"lost", 0⟩, ⟨"kept", 1⟩, ⟨"lost", 0⟩] ∧
        effects.take 4 = [.given 1 ⟨"lost", 0⟩, .added "lost" 18446744073709551615,
          .given 0 ⟨"lost", 0⟩, .given 0 ⟨"kept", 1⟩] ∧
        s.registry.value 0 = 14 ∧ s.seeking.find? 0 = some "late" ∧
        ∃ t, s.step (.finish 2) = some (t, [.listed 2 [("kept", 0), ("lost", 4)]]) := by
    -- The search for a name in an array has to be unfolded for this.
    with_unfolding_all exact ⟨_, _, rfl, rfl, rfl, rfl, rfl, _, rfl⟩
  obtain ⟨hanswers, hvalues, -, hlists, -, hcalls, -⟩ := counters_shared hrun
  have hmem : ∀ effect ∈ effects.take 4, effect ∈ effects := fun _ => List.mem_of_mem_take
  rw [hgiven] at hmem
  have hsame := hanswers 1 0 ⟨"lost", 0⟩ ⟨"lost", 0⟩ (hmem _ (by decide)) (hmem _ (by decide))
  have hother := hanswers 1 0 ⟨"lost", 0⟩ ⟨"kept", 1⟩ (hmem _ (by decide)) (hmem _ (by decide))
  have htotal := hvalues ⟨"lost", 0⟩ (hhandles ▸ by decide)
  rw [hvalue] at htotal
  exact ⟨s, effects, hrun, hhandles, hsame, hother, hvalue, htotal, ⟨t, hlist⟩,
    (hlists 2 t _ hlist).1, hcalls 0 "late" hseeking⟩

end LogSpool.SharedRegistry
