import LogSpool.Proofs.Feed.Tallies
import LogSpool.Proofs.Session.Recording
import LogSpool.Proofs.Spool.Overflow
set_option autoImplicit false

/-!
# Feeds: no event is lost

The counts of the recorders and those of the spools that they feed balance at every instant of
every run.

* `events_conserved` : what a recorder was shown it has encoded, had rejected, left out or has on
  its way; a line is encoded if its spool was open for it and rejected if it was closed; and the
  lines encoded for a spool are its records written, dropped and pending.
-/

namespace LogSpool

namespace Feed

open HandoverPhase (isBuilt isAccepted isAdmitted isRefused)

variable {settings : List SpoolSettings} {sources : List Source} {s t : Feed} {a : FeedAction}
  {actions : List FeedAction} {effects es : List FeedEffect}

/-! ## Lines on their way -/

theorem countP_eq_add {α : Type} {p q r : α → Bool} (h : ∀ a, (p a).toNat = (q a).toNat + (r a).toNat)
    (l : List α) : l.countP p = l.countP q + l.countP r := by
  induction l with
  | nil => rfl
  | cons a rest ih =>
    have ha := h a
    rw [List.countP_cons, List.countP_cons, List.countP_cons, ih]
    cases hp : p a <;> cases hq : q a <;> cases hr : r a <;> simp [hp, hq, hr] at ha ⊢ <;> omega

/-- The lines that a recorder has on their way, by how far they have come. -/
theorem count_source (handovers : Calls Handover) (k : Nat) :
    handovers.count (·.source == k) = handovers.count (Handover.isFrom k isBuilt) +
      (handovers.count (Handover.isFrom k isAdmitted) +
        handovers.count (Handover.isFrom k isRefused)) := by
  have hlate := countP_eq_add
    (p := fun e : Nat × Handover => e.2.source == k && !isBuilt e.2.phase)
    (q := fun e => Handover.isFrom k isAdmitted e.2) (r := fun e => Handover.isFrom k isRefused e.2)
    (fun e => by
      unfold Handover.isFrom
      rcases e.2.phase with - | - | (_ | _) <;> cases e.2.source == k <;> rfl) handovers.entries
  unfold Calls.count
  rw [← hlate]
  have hsplit : ∀ a b : Bool, a.toNat = (a && b).toNat + (a && !b).toNat := by decide
  exact countP_eq_add (fun e => hsplit (e.2.source == k) (isBuilt e.2.phase)) handovers.entries

theorem countP_source (arrived : List Arrival) (k : Nat) :
    arrived.countP (·.source == k) =
      arrived.countP (Arrival.isFrom k true) + arrived.countP (Arrival.isFrom k false) := by
  refine countP_eq_add (fun arrival => ?_) arrived
  unfold Arrival.isFrom
  cases arrival.source == k <;> cases arrival.isOpen <;> rfl

/-- The events that a recorder does not leave out are events of the application. -/
theorem countP_shownTo (r : Recorder) (k : Nat) (effects : List FeedEffect) :
    (shownTo k effects).countP (fun e => !r.ignores e) =
      (applicationEvents k effects).countP (isLine r fun _ => true) := by
  induction effects with
  | nil => rfl
  | cons e rest ih =>
    rw [← List.singleton_append, shownTo_append, applicationEvents_append, List.countP_append,
      List.countP_append, ih, Nat.add_right_cancel_iff]
    cases e with
    | shown j e time =>
      rw [shownTo_shown, applicationEvents_shown]
      by_cases heq : j = k <;> simp [heq, isLine, List.countP_singleton]
    | relayed j d =>
      rw [shownTo_relayed]
      by_cases heq : j = k <;> simp [heq, applicationEvents, Recorder.ignores_diagnostic]
    | _ => rfl

/-- What a recorder was shown it has counted as taken care of or refused, or left out, or has on
its way. -/
theorem shown_of_run (h : (start settings sources).run actions = some (s, effects)) {k : Nat}
    {source : Source} (hsource : s.sources[k]? = some source) :
    (shownTo k effects).length = tallies k true effects + tallies k false effects +
      ((shownTo k effects).countP source.recorder.ignores + s.handovers.count (·.source == k)) := by
  obtain ⟨-, hkept, hencoded, hrejected⟩ := tallied_of_run h k source hsource
  have hbuilt := hkept fun _ => true
  simp only [← countP_shownTo, Bool.and_true] at hbuilt
  change _ = _ + s.handovers.count (Handover.isFrom k isBuilt) at hbuilt
  have hfiltered := countP_eq_add (p := fun _ => true) (q := source.recorder.ignores)
    (r := fun e => !source.recorder.ignores e)
    (fun e => by cases source.recorder.ignores e <;> rfl) (shownTo k effects)
  rw [List.countP_true] at hfiltered
  have harrived := countP_source (arrivals effects) k
  have honTheWay := count_source s.handovers k
  omega

/-- In a run that shows none of a spool's recorders 2^64 events their counters add up to what they
have counted. -/
theorem encodedCounters_of_few (h : (start settings sources).run actions = some (s, effects))
    {i : Nat} (hfew : ∀ k ∈ feeding i s.sources, (shownTo k effects).length < UInt64.size) :
    encodedCounters i s.sources = encodedAt i s.sources effects := by
  refine Finset.sum_congr rfl fun k hk => ?_
  obtain ⟨source, hsource, -⟩ := mem_feeding.mp hk
  rw [hsource, Option.elim_some]
  exact ((tallied_of_run h k source hsource).reads.exact (shown_of_run h hsource) (hfew k hk)).2.1

/-- A spool that no line is on its way to has no call that writes. -/
theorem isEmpty_of_no_handover (h : Attached settings s effects) {i : Nat} {spool : Spool}
    (hspool : s.spools[i]? = some spool) (hnone : s.handovers.count (·.spool == i) = 0) :
    spool.writes.isEmpty = true := by
  refine Calls.isEmpty_iff.mpr fun call => Option.eq_none_iff_forall_ne_some.mpr fun w hw => ?_
  obtain ⟨line, hline, hwriting, -⟩ := h.handover_of_writes hspool hw
  have hat : (line.spool == i) = true := by simp [(Handover.isWritingAt_iff.mp hwriting).1]
  exact absurd hnone (Nat.ne_of_gt (Calls.count_pos hline hat))

/-- What is counted at a spool, with the slots that are taken there, is what the recorders have
counted for it, with the lines that they are about to count and the slots of calls that write and
of a record that the worker has just counted. -/
theorem encodedAt_of_run (h : (start settings sources).run actions = some (s, effects)) {i : Nat}
    {spool : Spool} (hspool : s.spools[i]? = some spool) :
    encodedAt i s.sources effects + s.handovers.count (Handover.isFor i isAccepted) + spool.held +
        spool.worker.unreleased =
      Spool.counts .written (effectsOf i effects) + Spool.counts .dropped (effectsOf i effects) +
        spool.pending := by
  obtain ⟨own, alone, -, hrun⟩ := (attached_of_run h).runs i spool hspool
  obtain ⟨ledger, hbooks⟩ := Spool.books_of_run (Spool.slots_bounds own).1 hrun
  have hdealt := (dealt_of_run h i).dealt
  have htaken := congrArg List.length
    (Spool.taken_of_run (Spool.slots_bounds own).1 (Spool.run_nil _) hrun)
  have hanswers := congrArg List.length hbooks.answers
  have hentries := ledger.length_eq
  rw [hbooks.settled, hbooks.settled] at hentries
  rw [List.length_map] at htaken hanswers
  have hpending := hbooks.pending
  omega

/-- After every run of a feed, from any spools and recorders, however the steps of threads, workers
and all others who hold a handle are mixed:

Each recorder still has the spool and the threshold that it had, and has counted every event that
it was shown.  It leaves out exactly the events less severe than its threshold and those whose
target is the spool's own.  All others are encoded, rejected or on their way, and those that have
reached the spool are encoded, or about to be, if it was open and rejected if it was closed.

What the recorders of a spool have encoded is what was counted there as written and dropped and
what is pending.  This holds as it stands while no line is on its way to the spool and its worker
is not between counting a record and giving its slot back; else the lines about to be counted and
the slots of calls and worker make up for the difference.

The counters of a recorder wrap around.  So a balance of how often something was counted is one of
the counters modulo 2^64, and is theirs as it stands while fewer than 2^64 events were shown.

A thread that shows a recorder an event that is not left out can always see it through.  At a
closed spool the recorder counts the event and one rejection more; at an open one it counts the
event and one line more, after at most five steps of the call that writes.  No other recorder and
no other spool changes.

A session that records an event is such a feed, and its counters hold what the feed counts. -/
theorem events_conserved (h : (start settings sources).run actions = some (s, effects)) :
    (∀ k source, s.sources[k]? = some source →
      (sources[k]?).map Source.reset = some source.reset ∧
      (∀ e, source.recorder.ignores e = true ↔ source.recorder.threshold.rank < e.severity.rank ∨
        (e.target = ownTarget ∨ ∃ rest, e.target = ownTarget ++ "::" ++ rest)) ∧
      source.recorder.tally.Reads (shownTo k effects).length (tallies k true effects)
        (tallies k false effects) ∧
      (shownTo k effects).length = tallies k true effects + tallies k false effects +
        ((shownTo k effects).countP source.recorder.ignores + s.handovers.count (·.source == k)) ∧
      source.recorder.tally.total = (source.recorder.tally.encoded + source.recorder.tally.rejected +
        ((shownTo k effects).countP source.recorder.ignores + s.handovers.count (·.source == k))) %
          UInt64.size ∧
      ((shownTo k effects).length < UInt64.size →
        source.recorder.tally.total = (shownTo k effects).length ∧
        source.recorder.tally.encoded = tallies k true effects ∧
        source.recorder.tally.rejected = tallies k false effects) ∧
      (arrivals effects).countP (Arrival.isFrom k true) =
        tallies k true effects + s.handovers.count (Handover.isFrom k isAdmitted) ∧
      (arrivals effects).countP (Arrival.isFrom k false) =
        tallies k false effects + s.handovers.count (Handover.isFrom k isRefused)) ∧
    (∀ i spool, s.spools[i]? = some spool →
      encodedAt i s.sources effects + s.handovers.count (Handover.isFor i isAccepted) + spool.held +
          spool.worker.unreleased =
        Spool.counts .written (effectsOf i effects) + Spool.counts .dropped (effectsOf i effects) +
          spool.pending ∧
      (spool.worker ≠ .releasing → s.handovers.count (·.spool == i) = 0 →
        encodedAt i s.sources effects = Spool.counts .written (effectsOf i effects) +
          Spool.counts .dropped (effectsOf i effects) + spool.pending) ∧
      encodedCounters i s.sources % UInt64.size = encodedAt i s.sources effects % UInt64.size ∧
      ((∀ k ∈ feeding i s.sources, (shownTo k effects).length < UInt64.size) →
        encodedCounters i s.sources = encodedAt i s.sources effects)) ∧
    (∀ thread k e time source spool, s.sources[k]? = some source →
      s.handovers.find? thread = none → source.recorder.ignores e = false →
      s.spools[source.spool]? = some spool → 0 < spool.handles →
      (spool.closed = true → s.run [.event thread k e time, .hand thread, .count thread] =
        some ({ s with
          sources := s.sources.modify k fun source => source.see.offer false
          buffers := s.buffers.add thread ⟨(e.record time source.recorder.serviceName).encode⟩ },
          [.shown k e time,
            .reached ⟨k, source.spool, (e.record time source.recorder.serviceName).encode, false⟩,
            .spool source.spool (.answered thread .closed), .tallied k false])) ∧
      (spool.closed = false → ∃ n next, ∃ own : List Effect, n ≤ 5 ∧
        s.run (.event thread k e time :: .hand thread ::
          (List.replicate n (.spool source.spool (.advance thread)) ++ [.count thread])) =
            some ({ s with
              spools := s.spools.set source.spool next
              sources := s.sources.modify k fun source => source.see.offer true
              buffers := s.buffers.add thread ⟨(e.record time source.recorder.serviceName).encode⟩ },
              .shown k e time ::
                .reached ⟨k, source.spool, (e.record time source.recorder.serviceName).encode, true⟩ ::
                  (own.map (.spool source.spool) ++ [.tallied k true])))) ∧
    (∀ (session : Session) i recorder station e,
      session.observers.recorder = some (i, recorder) → session.stations[i]? = some station →
      0 < station.spool.handles → station.spool.writes.isEmpty = true →
      ∃ more own,
        session.feed.run (.event Session.writeCall 0 e session.stamp :: more) =
          some ((session.record e).feed, own) ∧
        (session.record e).registry = station.post session.registry (effectsOf i own)) := by
  have hattached := attached_of_run h
  refine ⟨fun k source hsource => ?_, fun i spool hspool => ?_, ?_, ?_⟩
  · obtain ⟨hreads, -, hencoded, hrejected⟩ := tallied_of_run h k source hsource
    have hreset := congrArg (·[k]?) (reset_of_run h)
    have hshown := shown_of_run h hsource
    refine ⟨?_, source.recorder.ignores_iff, hreads, hshown, hreads.balance hshown,
      hreads.exact hshown, hencoded, hrejected⟩
    simpa [hsource] using hreset.symm
  · have hbalance := encodedAt_of_run h hspool
    refine ⟨hbalance, fun hworker hnone => ?_, encodedCounters_mod (tallied_of_run h) i,
      encodedCounters_of_few h⟩
    have hheld : spool.held = 0 :=
      Calls.count_eq_zero_of_isEmpty (isEmpty_of_no_handover hattached hspool hnone) _
    have hreleased : spool.worker.unreleased = 0 := by
      cases hw : spool.worker <;> first | rfl | exact absurd hw hworker
    have haccepted : s.handovers.count (Handover.isFor i isAccepted) = 0 := by
      refine Nat.le_zero.mp (hnone ▸ List.countP_mono_left fun e _ hfor => ?_)
      exact (Bool.and_eq_true_iff.mp hfor).1
    omega
  · intro thread k e time source spool hsource hfree hpasses hspool hhandles
    have hnew := hattached.writes_of_free hspool hfree
    refine ⟨fun hclosed => ?_, fun hopen => ?_⟩
    · exact run_event_refused hsource hfree hpasses time hspool hhandles hnew hclosed
    · obtain ⟨n, next, own, hn, hrun, -⟩ :=
        run_event_admitted hsource hfree hpasses time hspool hhandles hnew hopen
      exact ⟨n, next, own, hn, hrun⟩
  · intro session i recorder station e hrecorder hstation hhandles hquiet
    exact Session.record_run hrecorder hstation hhandles hquiet e

/-- Two recorders that feed one spool, and one that feeds another. -/
def crowd : List Source := [⟨0, {}⟩, ⟨0, { threshold := .trace }⟩, ⟨1, {}⟩]

/-- An event of a severity and target. -/
def note (severity : Severity) (target : String) : Event := { severity, target }

/-- Events that are left out by severity and by target, a target that only begins like the
spool's own, two threads that write to one slot at the same time, a sink that fails, which is
reported to every recorder, a line that comes too late, and two that are still on their way. -/
def mixedTraffic : List FeedAction :=
  [.event 0 0 (note .debug "app") Session.epoch,
    .event 0 1 (note .error "tracing_async_writer::sink") Session.epoch,
    .event 0 0 (note .info "tracing_async_writer_tools") Session.epoch,
    .event 1 1 (note .debug "app") Session.epoch,
    .hand 1, .hand 0, .spool 0 (.advance 0), .spool 0 (.advance 1), .spool 0 (.advance 1),
    .spool 0 (.advance 0), .count 1, .count 0,
    .spool 0 .receive, .spool 0 .await, .spool 0 (.finish (.failed "no route")), .spool 0 .judge,
    .relay 0 1 Session.epoch, .relay 0 0 Session.epoch, .relay 1 0 Session.epoch,
    .spool 0 .release, .event 2 0 (note .warn "app") Session.epoch, .spool 0 .close, .hand 2,
    .count 2, .event 3 2 (note .error "app") Session.epoch, .hand 3,
    .event 0 2 (note .error "app") Session.epoch, .spool 1 (.advance 3)]

/-- Of four events the first recorder left two out, encoded one and had one rejected; the two
lines encoded for the first spool were both dropped; and the last recorder has two lines on their
way, one of which holds the slot that is pending. -/
theorem events_conserved_crowd :
    ∃ s effects, (start [{ capacity := 1 }, { capacity := 2 }] crowd).run mixedTraffic =
        some (s, effects) ∧
      s.sources.map (·.recorder.tally) = [⟨4, 1, 1⟩, ⟨3, 1, 0⟩, ⟨3, 0, 0⟩] ∧
      (4 : UInt64).toNat = (shownTo 0 effects).length ∧ (1 : UInt64).toNat = tallies 0 false effects ∧
      (shownTo 2 effects).length =
        0 + 0 + ((shownTo 2 effects).countP ({} : Recorder).ignores + 2) ∧
      1 = tallies 0 false effects + 0 ∧
      2 % UInt64.size = encodedAt 0 s.sources effects % UInt64.size ∧
      Spool.counts .dropped (effectsOf 0 effects) = 2 ∧
      encodedAt 0 s.sources effects = Spool.counts .written (effectsOf 0 effects) +
        Spool.counts .dropped (effectsOf 0 effects) + 0 ∧
      encodedAt 1 s.sources effects + 0 + 1 + 0 = Spool.counts .written (effectsOf 1 effects) +
        Spool.counts .dropped (effectsOf 1 effects) + 1 := by
  obtain ⟨htallies, hspools, -, -⟩ :=
    @events_conserved [{ capacity := 1 }, { capacity := 2 }] crowd _ mixedTraffic _ rfl
  obtain ⟨-, -, -, -, -, hexact, -, hrefused⟩ := htallies 0 _ rfl
  obtain ⟨hseen, -, hrejected⟩ := hexact (by decide : 4 < UInt64.size)
  obtain ⟨-, -, -, hshown, -⟩ := htallies 2 _ rfl
  obtain ⟨-, hquiet, hcounters, -⟩ := hspools 0 _ rfl
  obtain ⟨hheld, -⟩ := hspools 1 _ rfl
  exact ⟨_, _, rfl, rfl, hseen, hrejected, hshown, hrefused, hcounters, rfl,
    hquiet nofun rfl, hheld⟩

end Feed

end LogSpool
