import LogSpool.Proofs.Session.Handles
import LogSpool.Proofs.Spool.Shutdown
import LogSpool.Proofs.Spool.Survival
set_option autoImplicit false

/-!
# Spools: the life of a sink

The worker makes one call on its sink after another: writes, then at most one flush, and
then it lets the sink go.  `SinkUse` is that at every instant of a run.  The flush comes when
the spool is sealed and every record that joined the channel was attempted, and from then on
the spool is at rest.

* `sink_lives_once` : the calls on a sink in every run, with what has happened before each;
  whoever gives handles back, and in whatever order, takes no record from the channel, and the
  worker gets through all of them before it flushes.
-/

namespace LogSpool

/-- A call on a sink. -/
inductive SinkCall where
  | write (record : Bytes)
  | flush
  deriving DecidableEq, Repr

namespace Spool

variable {s t u : Spool} {a : Action} {actions : List Action} {effects es : List Effect}

/-- The calls that were made on the sink, in order. -/
def sinkCalls (effects : List Effect) : List SinkCall :=
  effects.filterMap fun
    | .attempted record => some (.write record)
    | .flushed => some .flush
    | _ => none

theorem sinkCalls_append (before after : List Effect) :
    sinkCalls (before ++ after) = sinkCalls before ++ sinkCalls after :=
  List.filterMap_append

theorem sinkCalls_of_reported (h : ∀ e ∈ es, ∃ d, e = .reported d) : sinkCalls es = [] := by
  refine List.filterMap_eq_nil_iff.mpr fun e he => ?_
  obtain ⟨d, rfl⟩ := h e he
  rfl

theorem sinkCalls_judge (s : Spool) (record : Bytes) (outcome : Outcome) :
    sinkCalls (.counted none record (outcome.fate record) :: s.verdictReports record outcome) = [] := by
  change sinkCalls (s.verdictReports record outcome) = []
  exact sinkCalls_of_reported fun e he => reported_of_mem_verdictReports he

theorem sinkCalls_finishFlush (outcome : FlushOutcome) :
    sinkCalls (flushReports outcome ++ [.reported .exiting, .released]) = [] := by
  rw [sinkCalls_append, sinkCalls_of_reported fun e he => reported_of_mem_flushReports he]
  rfl

/-! ## Sealed spools and their worker -/

theorem isSealed_of_transition (step : Transition s a t es) (hsealed : s.isSealed = true) :
    t.isSealed = true := by
  simp only [isSealed, Bool.or_eq_true, beq_iff_eq] at hsealed ⊢
  cases step with
  | clone hhandles =>
    rcases hsealed with hclosed | hnone
    · exact .inl hclosed
    · omega
  | drop hspare =>
    rcases hsealed with hclosed | hnone
    · exact .inl hclosed
    · omega
  | close | pursueClosing => exact .inl rfl
  | _ => exact hsealed

/-- A worker that is past the last record stays so until it is gone. -/
theorem isPastQueue_stays (step : Transition s a t es) (hpast : s.worker.isPastQueue = true) :
    t.worker.isPastQueue = true ∨ t.worker.isAlive = false := by
  cases step with
  | awaitFlush | finishFlush => exact .inl rfl
  | lose => exact .inr rfl
  | receive hworker | awaitWrite hworker | finish _ hworker | judge hworker | release hworker
  | wake hworker | flush hworker =>
    rw [hworker] at hpast
    cases hpast
  | _ => exact .inl hpast

theorem isAlive_before (step : Transition s a t es) (halive : t.worker.isAlive = true) :
    s.worker.isAlive = true := by
  cases hgone : s.worker.isAlive with
  | true => rfl
  | false =>
    rw [worker_eq_of_gone step hgone, hgone] at halive
    cases halive

/-! ## How the sink is used -/

/-- The worker may still call its sink to write. -/
def canWrite (s : Spool) : Bool := s.worker.isAlive && !s.worker.isPastQueue

/-- The calls on the sink up to some instant of a run: writes, and one flush at most, after which
nothing is left to write. -/
structure SinkUse (s : Spool) (effects : List Effect) : Prop where
  calls : sinkCalls effects =
    (attempts effects).map .write ++ if .flushed ∈ effects then [.flush] else []
  unflushed : s.canWrite = true → .flushed ∉ effects
  atRest : .flushed ∈ effects → AtRest s
  held : s.worker.isAlive = true → .released ∉ effects

namespace SinkUse

theorem of_quiet (h : SinkUse s effects) (haccounted : Accounted s) (step : Transition s a t es)
    (hcalls : sinkCalls es = []) (hattempts : attempts es = []) (hflush : .flushed ∉ es)
    (hreleased : t.worker.isAlive = true → .released ∉ es) : SinkUse t (effects ++ es) where
  calls := by
    rw [sinkCalls_append, hcalls, attempts_append, hattempts, List.append_nil, List.append_nil,
      h.calls]
    simp only [List.mem_append, hflush, or_false]
  unflushed hcan hflushed := by
    simp only [canWrite, Bool.and_eq_true, Bool.not_eq_true'] at hcan
    obtain ⟨halive, hnot⟩ := hcan
    have hbefore : s.canWrite = true := by
      simp only [canWrite, Bool.and_eq_true, Bool.not_eq_true']
      refine ⟨isAlive_before step halive, ?_⟩
      cases hpast : s.worker.isPastQueue with
      | false => rfl
      | true =>
        rcases isPastQueue_stays step hpast with hstill | hgone
        · rw [hstill] at hnot
          cases hnot
        · rw [hgone] at halive
          cases halive
    rcases List.mem_append.mp hflushed with hfirst | hlast
    · exact h.unflushed hbefore hfirst
    · exact hflush hlast
  atRest hflushed := by
    rcases List.mem_append.mp hflushed with hfirst | hlast
    · exact (h.atRest hfirst).preserve haccounted.sealing step
    · exact absurd hlast hflush
  held halive hgone := by
    rcases List.mem_append.mp hgone with hfirst | hlast
    · exact h.held (isAlive_before step halive) hfirst
    · exact hreleased halive hlast

theorem preserve (h : SinkUse s effects) (haccounted : Accounted s) (step : Transition s a t es) :
    SinkUse t (effects ++ es) := by
  have hquiet := h.of_quiet haccounted step
  cases step with
  | @receive record rest hworker hpop =>
    have hnone : .flushed ∉ effects := h.unflushed (by simp [canWrite, hworker, Worker.isAlive,
      Worker.isPastQueue])
    have hstill : .flushed ∉ effects ++ [.attempted record] := by simp [hnone]
    have hheld := h.held (by rw [hworker]; rfl)
    refine ⟨?_, fun _ => hstill, fun hflushed => absurd hflushed hstill, fun _ => by simp [hheld]⟩
    have hcalls := h.calls
    rw [if_neg hnone, List.append_nil] at hcalls
    rw [if_neg hstill, List.append_nil, sinkCalls_append, hcalls, attempts_append, List.map_append]
    rfl
  | flush hworker hsealed hempty =>
    have hnone : .flushed ∉ effects := h.unflushed (by simp [canWrite, hworker, Worker.isAlive,
      Worker.isPastQueue])
    have hheld := h.held (by rw [hworker]; rfl)
    have hrest := haccounted.preserve (Transition.flush hworker hsealed hempty)
    refine ⟨?_, fun hcan => (by cases hcan), fun _ => hrest.exhausted rfl, fun _ => by simp [hheld]⟩
    have hcalls := h.calls
    rw [if_neg hnone, List.append_nil] at hcalls
    rw [if_pos (by simp), sinkCalls_append, hcalls, attempts_append]
    simp [attempts, sinkCalls]
  | @judge record outcome =>
    refine hquiet (sinkCalls_judge s record outcome) (records_judge s record outcome).1 ?_ fun _ => ?_
    · simp [not_mem_verdictReports s record outcome (e := .flushed) (by simp)]
    · simp [not_mem_verdictReports s record outcome (e := .released) (by simp)]
  | finishFlush outcome =>
    refine hquiet (sinkCalls_finishFlush outcome) (records_finishFlush outcome).1 ?_
      fun halive => (by cases halive)
    simp [not_mem_flushReports outcome (e := .flushed) (by simp)]
  | lose => exact hquiet rfl rfl (by simp) fun halive => (by cases halive)
  | _ => exact hquiet rfl rfl (by simp) (by simp)

end SinkUse

theorem sinkUse_of_run {capacity : Nat} (hcapacity : 0 < capacity)
    (h : (start capacity).run actions = some (s, effects)) : SinkUse s effects :=
  run_induction (P := fun _ s effects => SinkUse s effects) ⟨rfl, fun _ => nofun, nofun, fun _ => nofun⟩
    (fun hrun ih step => ih.preserve (accounted_of_run hcapacity hrun) step) h

/-- A call on the sink is made by a worker that looks for the next record. -/
theorem idle_of_sinkCalls (step : Transition s a t es) (hcalls : sinkCalls es ≠ []) :
    s.worker = .idle := by
  cases step with
  | receive hworker | flush hworker => exact hworker
  | judge => exact absurd (sinkCalls_judge _ _ _) hcalls
  | finishFlush outcome => exact absurd (sinkCalls_finishFlush outcome) hcalls
  | _ => exact absurd rfl hcalls

/-- A step calls the sink once at most. -/
theorem single_of_sinkCalls (step : Transition s a t es) (hcalls : sinkCalls es ≠ []) :
    ∃ call, sinkCalls es = [call] := by
  cases step with
  | receive | flush => exact ⟨_, rfl⟩
  | judge => exact absurd (sinkCalls_judge _ _ _) hcalls
  | finishFlush outcome => exact absurd (sinkCalls_finishFlush outcome) hcalls
  | _ => exact absurd rfl hcalls

theorem flushed_of_sinkCalls (h : .flush ∈ sinkCalls effects) : .flushed ∈ effects := by
  obtain ⟨e, he, hcall⟩ := List.mem_filterMap.mp h
  cases e with
  | flushed => exact he
  | _ => cases hcall

/-- What has happened when a call on the sink is made: every call before has ended, none of them
was a flush, and the sink was not let go. -/
theorem alone_of_sinkCalls {capacity : Nat} (hcapacity : 0 < capacity)
    (h : (start capacity).run actions = some (s, effects)) (step : Transition s a t es)
    (hcalls : sinkCalls es ≠ []) :
    sinkCalls effects = (attempts effects).map .write ∧
      (attempts effects).length = (outcomes actions).length ∧ .released ∉ effects := by
  have hidle := idle_of_sinkCalls step hcalls
  have use := sinkUse_of_run hcapacity h
  have trail := trail_of_run hcapacity h
  have hnone := use.unflushed (by simp [canWrite, hidle, Worker.isAlive, Worker.isPastQueue])
  have hended := trail.ended
  have hcurrent := trail.current (by rw [hidle]; rfl)
  rw [hidle] at hended hcurrent
  refine ⟨?_, ?_, use.held (by rw [hidle]; rfl)⟩
  · rw [use.calls, if_neg hnone, List.append_nil]
  · rw [hcurrent, hended, List.length_append, List.length_append, List.length_map]
    rfl

/-- What has happened when the sink is called to flush: the spool is sealed, and every record that
joined the channel was attempted and counted. -/
theorem settled_of_flushed {capacity : Nat} (hcapacity : 0 < capacity)
    (h : (start capacity).run actions = some (s, effects)) (step : Transition s a t es)
    (hflushed : .flushed ∈ es) : (s.closed = true ∨ s.handles = 0) ∧ Settled effects := by
  have haccounted := (accounted_of_run hcapacity h).preserve step
  cases step with
  | flush hworker hsealed hempty =>
    refine ⟨by simpa [isSealed] using hsealed, settled_of_run hcapacity h ?_⟩
    exact (haccounted.exhausted rfl).pending
  | judge =>
    have hreport := (List.mem_cons.mp hflushed).resolve_left (by simp)
    exact absurd hreport (not_mem_verdictReports _ _ _ (by simp))
  | finishFlush outcome =>
    simp [not_mem_flushReports outcome (e := .flushed) (by simp)] at hflushed
  | _ => simp at hflushed

/-! ## What is left when handles are given back -/

/-- As long as the worker is not lost, what joined the channel was attempted or still stands in
the channel. -/
theorem queued_of_kept {capacity : Nat} (hcapacity : 0 < capacity)
    (h : (start capacity).run actions = some (s, effects)) (hkept : ∀ loss, s.worker ≠ .lost loss) :
    queued effects = attempts effects ++ s.channel.toList := by
  cases halive : s.worker.isAlive with
  | true =>
    obtain ⟨ledger, hbooks⟩ := books_of_run hcapacity h
    rw [hbooks.inOrder, hbooks.owing halive, (trail_of_run hcapacity h).current halive,
      List.append_assoc]
  | false =>
    have hdone : s.worker = .done := by
      cases hworker : s.worker with
      | done => rfl
      | lost loss => exact absurd hworker (hkept loss)
      | _ => simp [hworker, Worker.isAlive] at halive
    have hrest := (accounted_of_run hcapacity h).exhausted (by rw [hdone]; rfl)
    have hempty := hrest.channel
    rw [Channel.size_eq_length, List.length_eq_zero_iff] at hempty
    rw [hempty, List.append_nil, (settled_of_run hcapacity h hrest.pending).attempted]

/-- Left to itself, the worker gets through every record that waits, whatever becomes of the
attempts, and then flushes its sink, whatever becomes of that, and is done. -/
def RunsDown (s : Spool) (ends : List Outcome) (last : FlushOutcome) : Prop :=
  ∃ actions t effects, s.run actions = some (t, effects) ∧ (∀ a ∈ actions, a.isWorkers = true) ∧
    outcomes actions = ends ∧ sinkCalls effects = s.channel.toList.map .write ++ [.flush] ∧
    .finishFlush last ∈ actions ∧ t.worker = .done

theorem runsDown_of_worksOff {capacity : Nat} (hcapacity : 0 < capacity)
    (h : (start capacity).run actions = some (s, effects)) (hsealed : s.isSealed = true)
    {ends : List Outcome} (hoff : WorksOff s ends) (last : FlushOutcome) : RunsDown s ends last := by
  obtain ⟨more, t, after, hrun, hworkers, houtcomes, hattempts, -, hidle, hempty, -⟩ := hoff
  have hstill := run_invariant (P := fun t => t.isSealed = true)
    (fun hu step => isSealed_of_transition step hu) hrun hsealed
  have hnone : t.channel.size = 0 := by rw [Channel.size_eq_length, hempty, List.length_nil]
  have hflush := run_join hrun (.flush hidle hstill hnone) (run_nil _)
  have hwait := run_join hflush (.awaitFlush rfl) (run_nil _)
  have hend := run_join hwait (.finishFlush last rfl) (run_nil _)
  -- No flush can have been among the calls before: the worker came back to look for a record.
  have hcalls : sinkCalls after = (attempts after).map .write := by
    have hwhole := (sinkUse_of_run hcapacity (run_trans h hrun))
    have hcan : t.canWrite = true := by simp [canWrite, hidle, Worker.isAlive, Worker.isPastQueue]
    have hunflushed := hwhole.unflushed hcan
    have hall := hwhole.calls
    have hbefore := (sinkUse_of_run hcapacity h).calls
    have hfirst : .flushed ∉ effects := fun hin => hunflushed (List.mem_append_left _ hin)
    rw [if_neg hunflushed, List.append_nil, sinkCalls_append, attempts_append, List.map_append,
      hbefore, if_neg hfirst, List.append_nil] at hall
    exact List.append_cancel_left hall
  refine ⟨_, _, _, hend, ?_, ?_, ?_, by simp, rfl⟩
  · intro a ha
    simp only [List.mem_append, List.mem_singleton] at ha
    rcases ha with ((ha | rfl) | rfl) | rfl
    · exact hworkers a ha
    all_goals rfl
  · simp only [outcomes_append, houtcomes]
    exact (List.append_nil _).trans ((List.append_nil _).trans (List.append_nil _))
  · have hreports : sinkCalls (flushReports last) = [] :=
      sinkCalls_of_reported fun e he => reported_of_mem_flushReports he
    simp only [sinkCalls_append, hcalls, hattempts, hreports]
    simp [sinkCalls]

/-- The worker, as long as it takes records, gets through all that wait, whatever becomes of the
attempts, and of a sealed spool it then flushes the sink. -/
def GetsThrough (s : Spool) : Prop :=
  s.worker.isAlive = true → s.worker.isPastQueue = false → ∀ ends : List Outcome,
    ends.length = (s.worker.unfinished ++ s.channel.toList).length →
      WorksOff s ends ∧ (s.isSealed = true → ∀ last, RunsDown s ends last)

/-- After every run the worker gets through all records that wait. -/
theorem getsThrough_of_run {capacity : Nat} (hcapacity : 0 < capacity)
    (h : (start capacity).run actions = some (s, effects)) : GetsThrough s := by
  intro halive hpast ends hlength
  have hoff := worksOff_of_accounted (accounted_of_run hcapacity h) halive hpast hlength
  exact ⟨hoff, fun hsealed last => runsDown_of_worksOff hcapacity h hsealed hoff last⟩

/-- After every run, whatever the sink does and in whatever order handles are taken and given
back, the spool is closed, and calls write:

* the calls on the sink were writes, then one flush at most, and then nothing;
* where the next step calls the sink, it makes one call, every call before has ended, none of
  them was a flush, and the sink was not let go;
* where that call is to flush, the spool is closed or has no handle left, and every record that
  joined the channel was attempted and counted; nothing joins the channel afterwards;
* unless the worker was lost, what joined the channel was attempted, in order, or still stands in
  it, and the worker gets through all that wait, and flushes the sink once nobody can write;
* where a handle is given back, be it the last, nobody is told, and worker, channel and slots are
  what they were, so that the worker gets through the same records;
* whoever starts or stops to record events through a spool takes handles and gives them back, and
  does nothing else to it. -/
theorem sink_lives_once (settings : SpoolSettings)
    (h : (start settings.slots).run actions = some (s, effects)) :
    (∃ n ≤ 1, sinkCalls effects = (attempts effects).map .write ++ List.replicate n .flush) ∧
      (∀ a t es, s.step a = some (t, es) → sinkCalls es ≠ [] →
        (∃ call, sinkCalls es = [call]) ∧ sinkCalls effects = (attempts effects).map .write ∧
          (attempts effects).length = (outcomes actions).length ∧ .released ∉ effects) ∧
      ((∀ a t es, s.step a = some (t, es) → .flush ∈ sinkCalls es →
          (s.closed = true ∨ s.handles = 0) ∧ Settled effects) ∧
        (.flush ∈ sinkCalls effects → AtRest s ∧ Settled effects)) ∧
      (((∀ loss, s.worker ≠ .lost loss) →
          queued effects = attempts effects ++ s.channel.toList) ∧ GetsThrough s) ∧
      (∀ t es, s.step .drop = some (t, es) →
        es = [] ∧ t.worker = s.worker ∧ t.channel = s.channel ∧ t.pending = s.pending ∧
          (t.isSealed = true ↔ s.closed = true ∨ s.handles = 1) ∧ GetsThrough t) ∧
      ∀ (world : Session) (i : Nat) (recorder : Recorder),
        world.HandlesOnly (world.observe i recorder) ∧ world.HandlesOnly world.releaseObservers := by
  have hone := (slots_bounds settings).1
  have use := sinkUse_of_run hone h
  refine ⟨?_, fun a t es hstep hcalls => ?_, ⟨fun a t es hstep hflush => ?_, fun hflush => ?_⟩,
    ⟨queued_of_kept hone h, getsThrough_of_run hone h⟩, fun t es hstep => ?_,
    fun world i recorder => ⟨Session.handlesOnly_observe world i recorder,
      Session.handlesOnly_releaseObservers world⟩⟩
  · rw [use.calls]
    split
    · exact ⟨1, Nat.le_refl 1, rfl⟩
    · exact ⟨0, Nat.zero_le 1, rfl⟩
  · have step := Transition.of_step hstep
    exact ⟨single_of_sinkCalls step hcalls, alone_of_sinkCalls hone h step hcalls⟩
  · exact settled_of_flushed hone h (.of_step hstep) (flushed_of_sinkCalls hflush)
  · have hrest := use.atRest (flushed_of_sinkCalls hflush)
    exact ⟨hrest, settled_of_run hone h hrest.pending⟩
  · have step := Transition.of_step hstep
    have hthrough := getsThrough_of_run hone (run_join h step (run_nil t))
    cases step with
    | drop hspare =>
      have hlast : s.handles - 1 = 0 ↔ s.handles = 1 := by omega
      refine ⟨rfl, rfl, rfl, rfl, ?_, hthrough⟩
      simp only [isSealed, Bool.or_eq_true, beq_iff_eq, hlast]

/-- Two records are queued through two handles.  One handle is given back, the worker takes the
first record, and with the record in its hands the other handle goes too. -/
def abandoned : List Action :=
  [.clone, .enter 0 [1], .advance 0, .advance 0, .enter 1 [2], .advance 1, .drop, .receive,
    .advance 1, .await, .drop]

/-- The sink fails with the first record, takes the second, and is about to be flushed. -/
def wornOut : List Action :=
  [.finish (.failed "refused"), .judge, .release, .receive, .await, .finish (.returned 1), .judge,
    .release, .wake]

/-- Without a handle left, and never closed, the spool has both records attempted before the
flush, whatever becomes of it. -/
theorem sink_lives_once_abandoned :
    ∃ s t u first effects, (start ({ capacity := 2 } : SpoolSettings).slots).run abandoned =
        some (s, first) ∧ s.closed = false ∧ s.handles = 0 ∧ s.channel.toList = [[2]] ∧
      WorksOff s [.failed "refused", .panicked .other] ∧
      RunsDown s [.failed "refused", .panicked .other] (.failed "full") ∧
      (start ({ capacity := 2 } : SpoolSettings).slots).run (abandoned ++ wornOut) =
        some (t, effects) ∧
      t.step .flush = some (u, [.flushed]) ∧ sinkCalls effects = [.write [1], .write [2]] ∧
      (attempts effects).length = (outcomes (abandoned ++ wornOut)).length ∧ Settled effects := by
  obtain ⟨-, -, -, ⟨-, hthrough⟩, -⟩ := @sink_lives_once _ abandoned _ { capacity := 2 } rfl
  obtain ⟨hoff, hdown⟩ := hthrough rfl rfl [.failed "refused", .panicked .other] rfl
  obtain ⟨-, halone, ⟨hsettled, -⟩, -⟩ :=
    @sink_lives_once _ (abandoned ++ wornOut) _ { capacity := 2 } rfl
  obtain ⟨-, hcalls, hended, -⟩ := halone .flush _ _ rfl nofun
  exact ⟨_, _, _, _, _, rfl, rfl, rfl, rfl, hoff, hdown rfl _, rfl, rfl, hcalls, hended,
    (hsettled .flush _ _ rfl List.mem_cons_self).2⟩

end Spool

end LogSpool
