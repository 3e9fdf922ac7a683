import LogSpool.Proofs.Feed.Tallies
import LogSpool.Proofs.Session.Recording
import LogSpool.Proofs.Spool.Overflow
import LogSpool.Proofs.Spool.Trail
set_option autoImplicit false

/-!
# Feeds: a spool does not feed on its own reports

What a spool reports is shown to the recorders that feed it, from inside its own worker even, and
every one of them leaves it out.  So the lines that reach a spool are those of events of the
application, and what is queued, attempted and counted there is no more than that.

* `no_feedback` : which targets are the spool's own, that a report costs nothing but one count of
  its recorder, and that every record of a spool is the line of an event of the application.
-/

namespace LogSpool

/-! ## Records and where they come from -/

namespace Spool

/-- The records that the calls which wrote them counted as dropped. -/
def lostOnEntry (effects : List Effect) : List Bytes :=
  effects.filterMap fun
    | .counted (some _) record .dropped => some record
    | _ => none

theorem fate_of_transition {s t : Spool} {a : Action} {es : List Effect} (step : Transition s a t es)
    {call : Nat} {record : Bytes} {fate : Fate} (h : .counted (some call) record fate ∈ es) :
    fate = .dropped := by
  cases step with
  | countLost =>
    simp only [List.mem_cons, Effect.counted.injEq, reduceCtorEq, List.not_mem_nil, or_false] at h
    exact h.2.2
  | @judge judged outcome =>
    rcases List.mem_cons.mp h with heq | hreport
    · cases heq
    · obtain ⟨d, heq⟩ := reported_of_mem_verdictReports hreport
      cases heq
  | finishFlush outcome =>
    rcases List.mem_append.mp h with hreport | hend
    · obtain ⟨d, heq⟩ := reported_of_mem_flushReports hreport
      cases heq
    · simp at hend
  | _ => simp at h

theorem fate_of_run {capacity : Nat} {s : Spool} {actions : List Action} {effects : List Effect}
    (h : (start capacity).run actions = some (s, effects)) {call : Nat} {record : Bytes}
    {fate : Fate} (hcounted : .counted (some call) record fate ∈ effects) : fate = .dropped := by
  refine run_induction (P := fun _ _ effects =>
    ∀ e ∈ effects, e = .counted (some call) record fate → fate = .dropped) nofun ?_ h _ hcounted rfl
  intro actions s effects a t es _ ih step e he heq
  rcases List.mem_append.mp he with hbefore | hnow
  · exact ih e hbefore heq
  · exact fate_of_transition step (heq ▸ hnow)

/-- A call is done with a record that was queued, or lost on entry. -/
theorem countP_dealt (p : Bytes → Bool) {effects : List Effect}
    (hdropped : ∀ call record fate, .counted (some call) record fate ∈ effects → fate = .dropped) :
    (dealt effects).countP (fun r => p r.2) =
      (queued effects).countP p + (lostOnEntry effects).countP p := by
  induction effects with
  | nil => rfl
  | cons e rest ih =>
    have hrest := ih fun call record fate h => hdropped call record fate (List.mem_cons_of_mem e h)
    cases e with
    | queued call record =>
      simp only [dealt, queued, lostOnEntry, List.filterMap_cons, List.countP_cons] at hrest ⊢
      omega
    | counted call record fate =>
      cases call with
      | none => exact hrest
      | some call =>
        obtain rfl := hdropped call record fate List.mem_cons_self
        simp only [dealt, queued, lostOnEntry, List.filterMap_cons, List.countP_cons] at hrest ⊢
        omega
    | _ => exact hrest

end Spool

namespace Session

/-- What a spool reports is counted by the recorder, and goes where plain lines are printed; no
spool, no counter and no sink of the session changes. -/
theorem report_eq {s : Session} {i : Nat} {recorder : Recorder}
    (hrecorder : s.observers.recorder = some (i, recorder)) (hplain : s.observers.plain = none)
    (d : Diagnostic) :
    ∃ stdout, s.report d = { s with
      diagnostics := d :: s.diagnostics
      observers := { s.observers with recorder := some (i, recorder.see) }
      stdout } := by
  have hrecord := record_of_ignored (s := { s with diagnostics := d :: s.diagnostics }) hrecorder
    (recorder.ignores_diagnostic d)
  unfold report emit
  rw [hrecord]
  unfold print
  simp only [hplain]
  split
  · exact ⟨_, rfl⟩
  · exact ⟨_, rfl⟩

end Session

namespace Feed

open HandoverPhase (isBuilt isRefused)

variable {settings : List SpoolSettings} {sources : List Source} {s t : Feed} {a : FeedAction}
  {actions : List FeedAction} {effects es : List FeedEffect}

theorem fed_of_transition (hattached : Attached settings s effects) (step : Transition s a t es) :
    ∀ arrival ∈ arrivals es, ∃ source, s.sources[arrival.source]? = some source ∧
      source.spool = arrival.spool := by
  cases step with
  | refused hline | writing hline =>
    intro arrival harrival
    obtain rfl : arrival = _ := by simpa [arrivals] using harrival
    exact (hattached.lines _ _ hline).2
  | _ => simp [arrivals]

theorem fed_of_run (h : (start settings sources).run actions = some (s, effects)) :
    ∀ arrival ∈ arrivals effects, ∃ source, s.sources[arrival.source]? = some source ∧
      source.spool = arrival.spool := by
  refine run_induction (P := fun s effects => ∀ arrival ∈ arrivals effects, ∃ source,
    s.sources[arrival.source]? = some source ∧ source.spool = arrival.spool) nofun ?_ h
  intro s effects a t es hattached hs step arrival harrival
  rw [arrivals_append] at harrival
  obtain ⟨source, hsource, hspool⟩ := (List.mem_append.mp harrival).elim (hs arrival)
    (fed_of_transition hattached step arrival)
  obtain ⟨next, hnext, hreset⟩ := source_of_reset (reset_of_transition step) hsource
  exact ⟨next, hnext, (congrArg Source.spool hreset).trans hspool⟩

/-- A report that is shown to a recorder is counted there, and nothing else happens. -/
theorem step_relay {thread place k : Nat} {d : Diagnostic} {source : Source}
    (hnews : s.news[place]? = some (k, d)) (hsource : s.sources[k]? = some source)
    (hfree : s.handovers.find? thread = none) (time : Time.Stamp) :
    s.step (.relay thread place time) =
      some ({ s with news := s.news.eraseIdx place, sources := s.sources.modify k Source.see },
        [.relayed k d]) := by
  have hsee := source.see.recorder.ignores_diagnostic d
  simp [Feed.step, hnews, present, hsource, hfree, hsee]

/-- Whether a target is the spool's own or not is decided by the whole of it: it is the own
target, or that followed by two colons and anything.  All that a spool reports has such a target,
so every recorder leaves it out, whatever its threshold.

In every run of a feed, however threads, workers and sinks are mixed, a report that is shown to a
recorder is counted in its total, and that is all.  The lines that recorders have built are those
of the events of the application that they do not leave out, whichever lines one looks for.
Those that reached a spool while it was open are the records queued there, those that their
calls counted as dropped, and those still being written; those that reached it too late are the
ones rejected, which the counter of rejections says modulo 2^64; the calls write nothing else, the
worker takes only what was queued, in order, and counts only what it took.  So the sink is not
called more often than events of the application were offered, however it fails and recovers.

In a session a report leaves spools, counters, sinks and waiting tasks as they are. -/
theorem no_feedback (h : (start settings sources).run actions = some (s, effects)) :
    (∀ target, isOwnTarget target = true ↔
      target = ownTarget ∨ ∃ rest, target = ownTarget ++ "::" ++ rest) ∧
    (∀ (r : Recorder) (d : Diagnostic),
      isOwnTarget d.event.target = true ∧ r.ignores d.event = true) ∧
    (∀ thread place time k d source, s.news[place]? = some (k, d) → s.sources[k]? = some source →
      s.handovers.find? thread = none →
      s.step (.relay thread place time) =
        some ({ s with news := s.news.eraseIdx place, sources := s.sources.modify k Source.see },
          [.relayed k d])) ∧
    (∀ k source, s.sources[k]? = some source → ∀ p : Bytes → Bool,
      (applicationEvents k effects).countP (isLine source.recorder p) =
        (arrivals effects).countP (fun a => a.source == k && p a.line) +
          s.handovers.count (fun h => h.isFrom k isBuilt && p h.line)) ∧
    (∀ k source, s.sources[k]? = some source →
      (arrivals effects).countP (Arrival.isFrom k false) =
        tallies k false effects + s.handovers.count (Handover.isFrom k isRefused) ∧
      source.recorder.tally.rejected = tallies k false effects % UInt64.size) ∧
    (∀ arrival ∈ arrivals effects, ∃ source, s.sources[arrival.source]? = some source ∧
      source.spool = arrival.spool) ∧
    (∀ i spool, s.spools[i]? = some spool →
      (∀ p : Bytes → Bool, (Spool.queued (effectsOf i effects)).countP p +
        (Spool.lostOnEntry (effectsOf i effects)).countP p +
          s.handovers.count (fun h => h.isWritingAt i && p h.line) =
            (arrivals effects).countP (fun a => a.isFor i && p a.line)) ∧
      (Spool.queued (effectsOf i effects)).length + (Spool.lostOnEntry (effectsOf i effects)).length +
        s.handovers.count (Handover.isWritingAt i) = (arrivals effects).countP (Arrival.isFor i) ∧
      (∀ call w, spool.writes.find? call = some w → ∃ line, s.handovers.find? call = some line ∧
        line.isWritingAt i = true ∧ line.line = w.record) ∧
      (Spool.verdicts (effectsOf i effects)).map (·.1) <+: Spool.attempts (effectsOf i effects) ∧
      Spool.attempts (effectsOf i effects) <+: Spool.queued (effectsOf i effects) ∧
      (Spool.attempts (effectsOf i effects)).length ≤
        (arrivals effects).countP (Arrival.isFor i)) ∧
    (∀ (session : Session) i recorder d, session.observers.recorder = some (i, recorder) →
      session.observers.plain = none →
      ∃ stdout, session.report d = { session with
        diagnostics := d :: session.diagnostics
        observers := { session.observers with recorder := some (i, recorder.see) }
        stdout }) := by
  have hattached := attached_of_run h
  have hleftOut : ∀ d : Diagnostic, isOwnTarget d.event.target = true :=
    fun d => (isOwnTarget_iff _).mpr (.inr ⟨"writer", rfl⟩)
  refine ⟨isOwnTarget_iff, fun r d => ⟨hleftOut d, r.ignores_diagnostic d⟩, ?_, ?_, ?_,
    fed_of_run h, ?_, ?_⟩
  · intro thread place time k d source hnews hsource hfree
    exact step_relay hnews hsource hfree time
  · intro k source hsource
    exact (tallied_of_run h k source hsource).kept
  · intro k source hsource
    have htallied := tallied_of_run h k source hsource
    exact ⟨htallied.rejected, htallied.reads.rejected⟩
  · intro i spool hspool
    obtain ⟨own, alone, -, hrun⟩ := hattached.runs i spool hspool
    have htrail := Spool.trail_of_run (Spool.slots_bounds own).1 hrun
    have hlines : ∀ p : Bytes → Bool, (Spool.queued (effectsOf i effects)).countP p +
        (Spool.lostOnEntry (effectsOf i effects)).countP p +
          s.handovers.count (fun h => h.isWritingAt i && p h.line) =
            (arrivals effects).countP (fun a => a.isFor i && p a.line) := by
      intro p
      rw [(dealt_of_run h i).arrived, Spool.countP_dealt p fun _ _ _ => Spool.fate_of_run hrun]
    have hnumber : (Spool.queued (effectsOf i effects)).length +
        (Spool.lostOnEntry (effectsOf i effects)).length +
          s.handovers.count (Handover.isWritingAt i) = (arrivals effects).countP (Arrival.isFor i) := by
      have hall := hlines fun _ => true
      simpa only [Bool.and_true, List.countP_true] using hall
    have hattempts := htrail.attempted.length_le
    refine ⟨hlines, hnumber, fun call w hw => ?_, htrail.counted, htrail.attempted, by omega⟩
    exact hattached.handover_of_writes hspool hw
  · intro session i recorder d hrecorder hplain
    exact Session.report_eq hrecorder hplain d

/-- A recorder that leaves out nothing for its severity. -/
def eager : List Source := [⟨0, { threshold := .trace }⟩]

/-- An event, and its line. -/
def knock : Event := { severity := .info, target := "app" }

/-- The line of that event. -/
def knockLine : Bytes := (knock.record Session.epoch none).encode

/-- The event is recorded, the sink is done with its line, and the recorder is shown what that
made the spool report. -/
def knockOnce (outcome : Outcome) : List FeedAction :=
  [.event 0 0 knock Session.epoch, .hand 0, .spool 0 (.advance 0), .spool 0 (.advance 0), .count 0,
    .spool 0 .receive, .spool 0 .await, .spool 0 (.finish outcome), .spool 0 .judge,
    .relay 1 0 Session.epoch, .spool 0 .release, .spool 0 .wake]

/-- The sink fails, recovers and fails, and then the spool is closed and its worker ends with a
flush that fails; every report is shown to the recorder. -/
def flapping : List FeedAction :=
  knockOnce (.failed "no route") ++ knockOnce (.returned knockLine.length) ++
    knockOnce (.panicked .other) ++
    [.spool 0 .close, .spool 0 .announce, .relay 1 0 Session.epoch, .spool 0 .flush, .spool 0 .await,
      .spool 0 (.finishFlush (.failed "full")), .relay 1 0 Session.epoch, .relay 1 0 Session.epoch,
      .event 0 0 knock Session.epoch, .hand 0, .count 0]

set_option maxRecDepth 4000 in
/-- Three events and a late one, with six reports: three records are queued and attempted, none is
lost on entry, and the only line rejected is that of the last event. -/
theorem no_feedback_flapping :
    ∃ s effects, (start [{}] eager).run flapping = some (s, effects) ∧
      s.sources.map (·.recorder.tally) = [⟨10, 3, 1⟩] ∧ s.news = [] ∧
      4 = (arrivals effects).countP (fun a => a.source == 0 && true) + 0 ∧
      (1 : UInt64).toNat = tallies 0 false effects % UInt64.size ∧
      3 + 0 + 0 = (arrivals effects).countP (Arrival.isFor 0) ∧
      (Spool.attempts (effectsOf 0 effects)).length = 3 ∧
      (Spool.attempts (effectsOf 0 effects)).length ≤ (arrivals effects).countP (Arrival.isFor 0) := by
  obtain ⟨-, -, -, hlines, hrefused, -, hspools, -⟩ := @no_feedback [{}] eager _ flapping _ rfl
  obtain ⟨-, hnumber, -, -, -, hattempts⟩ := hspools 0 _ rfl
  obtain ⟨-, hrejected⟩ := hrefused 0 _ rfl
  refine ⟨_, _, rfl, rfl, rfl, ?_, hrejected, hnumber, rfl, hattempts⟩
  exact hlines 0 _ rfl (fun _ => true)

end Feed

end LogSpool
