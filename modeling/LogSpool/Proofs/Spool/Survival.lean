import LogSpool.Proofs.Spool.Trail
set_option autoImplicit false

/-!
# Spools: what the worker survives

Whatever becomes of an attempt, the worker goes on with the next record, and it ends with
nothing left behind: that is `WorksOff` and `WorkedOff`.  A panic in the call itself,
before there is an attempt to wait for, is held up by nobody.  It takes the worker, the
record and the channel, and leaves the spool `Stranded`.

* `worker_survives_attempts` : every attempt is counted as it ended and its slot given
  back, the records follow in order, and the worker has ended early exactly where the sink
  panicked in the call itself.
-/

namespace LogSpool

/-- The record that the sink is not done with. -/
def Worker.unfinished : Worker → List Bytes
  | calling record | attempting record => [record]
  | _ => []

/-- The most steps the worker takes until it looks for the next record. -/
def Worker.stepsToIdle : Worker → Nat
  | calling _ => 5
  | attempting _ => 4
  | judging _ _ => 3
  | releasing => 2
  | waking => 1
  | _ => 0

/-- A step that the worker takes as long as it is not lost. -/
def Action.isWorkers : Action → Bool
  | receive | await | finish _ | judge | release | wake | flush | finishFlush _ => true
  | _ => false

namespace Spool

variable {s t : Spool} {a : Action} {es : List Effect}

/-! ## The worker goes on -/

/-- Left to itself, the worker gets through every record that waits.  Where its attempts
end as given, each record is attempted and counted as its attempt ended, and no slot stays
taken but those of calls that still write. -/
def WorksOff (s : Spool) (ends : List Outcome) : Prop :=
  ∃ actions t effects, s.run actions = some (t, effects) ∧
    (∀ a ∈ actions, a.isWorkers = true) ∧
    outcomes actions = ends ∧
    attempts effects = s.channel.toList ∧
    verdicts effects =
      s.worker.judgment ++ fates (s.worker.unfinished ++ s.channel.toList) ends ∧
    t.worker = .idle ∧ t.channel.toList = [] ∧ t.pending = s.held

/-- A step of the worker before it goes on. -/
theorem WorksOff.cons {ends : List Outcome} (h : WorksOff t ends) (step : Transition s a t es)
    (ha : a.isWorkers = true) (hheld : t.held = s.held)
    (hattempts : attempts es ++ t.channel.toList = s.channel.toList)
    (hverdicts : verdicts es ++
        (t.worker.judgment ++ fates (t.worker.unfinished ++ t.channel.toList) ends) =
      s.worker.judgment ++
        fates (s.worker.unfinished ++ s.channel.toList) (outcomes [a] ++ ends)) :
    WorksOff s (outcomes [a] ++ ends) := by
  obtain ⟨actions, u, effects, hrun, hworkers, houtcomes, hmore, hcounted, hidle, hempty, hfree⟩ := h
  refine ⟨a :: actions, u, es ++ effects, ?_, ?_, ?_, ?_, ?_, hidle, hempty, hfree.trans hheld⟩
  · rw [run_cons_of_transition step, hrun]
    rfl
  · exact List.forall_mem_cons.mpr ⟨ha, hworkers⟩
  · rw [← houtcomes]
    exact outcomes_append [a] actions
  · rw [attempts_append, hmore, hattempts]
  · rw [verdicts_append, hcounted, hverdicts]

/-- The steps that are left until every record in the channel is worked off. -/
def backlog (s : Spool) : Nat := 6 * s.channel.toList.length + s.worker.stepsToIdle

/-- The worker gets through every record that waits, whatever becomes of the attempts. -/
theorem worksOff_of_accounted (h : Accounted s) (halive : s.worker.isAlive = true)
    (hpast : s.worker.isPastQueue = false) {ends : List Outcome}
    (hlength : ends.length = (s.worker.unfinished ++ s.channel.toList).length) :
    WorksOff s ends := by
  induction hn : s.backlog using Nat.strongRecOn generalizing s ends with
  | ind n ih =>
    subst hn
    have hnext : ∀ {a : Action} {t : Spool} {es : List Effect} {more : List Outcome},
        Transition s a t es → t.backlog < s.backlog → t.worker.isAlive = true →
        t.worker.isPastQueue = false →
        more.length = (t.worker.unfinished ++ t.channel.toList).length → WorksOff t more :=
      fun step hless halive' hpast' hlength' =>
        ih _ hless (h.preserve step) halive' hpast' hlength' rfl
    cases hworker : s.worker with
    | idle =>
      cases hpop : s.channel.pop? with
      | none =>
        have hempty := s.channel.pop?_eq_none_iff.mp hpop
        rw [hworker, hempty] at hlength
        obtain rfl := List.length_eq_zero_iff.mp hlength
        have hbalance := h.slots.balance halive
        rw [Channel.size_eq_length, hempty, hworker] at hbalance
        exact ⟨[], s, [], rfl, nofun, rfl, hempty.symm, by rw [hworker, hempty]; rfl, hworker, hempty,
          hbalance⟩
      | some r =>
        obtain ⟨record, rest⟩ := r
        have hlist := Channel.toList_of_pop? hpop
        have step := Transition.receive hworker hpop
        rw [hworker, hlist] at hlength
        refine (hnext step ?_ rfl rfl hlength).cons step rfl rfl hlist.symm ?_
        · simp [backlog, hworker, hlist, Worker.stepsToIdle]
          omega
        · rw [hworker, hlist]
          rfl
    | calling record =>
      have step := Transition.awaitWrite hworker
      rw [hworker] at hlength
      refine (hnext step ?_ rfl rfl hlength).cons step rfl rfl rfl ?_
      · simp [backlog, hworker, Worker.stepsToIdle]
      · rw [hworker]
        rfl
    | attempting record =>
      rw [hworker] at hlength
      obtain ⟨outcome, more, rfl⟩ := List.exists_cons_of_length_eq_add_one hlength
      have step := Transition.finish outcome hworker
      refine (hnext step ?_ rfl rfl (Nat.succ.inj hlength)).cons step rfl rfl rfl ?_
      · simp [backlog, hworker, Worker.stepsToIdle]
      · rw [hworker]
        rfl
    | judging record outcome =>
      have step := Transition.judge hworker
      obtain ⟨hattempts, hverdicts⟩ := records_judge s record outcome
      rw [hworker] at hlength
      refine (hnext step ?_ rfl rfl hlength).cons step rfl rfl ?_ ?_
      · simp [backlog, hworker, Worker.stepsToIdle]
      · rw [hattempts]
        rfl
      · rw [hworker, hverdicts]
        rfl
    | releasing =>
      have step := Transition.release hworker
      rw [hworker] at hlength
      generalize (s.pending == 1) = last at step
      cases last with
      | true | false =>
        refine (hnext step ?_ rfl rfl hlength).cons step rfl rfl rfl ?_
        · simp [backlog, hworker, Worker.stepsToIdle]
        · rw [hworker]
          rfl
    | waking =>
      have step := Transition.wake hworker
      rw [hworker] at hlength
      refine (hnext step ?_ rfl rfl hlength).cons step rfl rfl rfl ?_
      · simp [backlog, hworker, Worker.stepsToIdle, wakeAll]
      · rw [hworker]
        rfl
    | callingFlush | flushing | done => simp [hworker, Worker.isPastQueue] at hpast
    | lost => simp [hworker, Worker.isAlive] at halive

/-! ## The worker is gone -/

/-- The worker ended with nothing left to do. -/
structure WorkedOff (s : Spool) (effects : List Effect) : Prop where
  atRest : AtRest s
  settled : Settled effects

/-- The worker is gone, and slots are taken that nobody will ever give back. -/
structure Stranded (s : Spool) : Prop where
  gone : s.worker.isAlive = false
  held_lt : s.held < s.pending

namespace Stranded

theorem of_eq (h : Stranded s) (hworker : t.worker = s.worker) (hheld : t.held = s.held)
    (hpending : t.pending = s.pending) : Stranded t := by
  refine ⟨hworker ▸ h.gone, ?_⟩
  rw [hheld, hpending]
  exact h.held_lt

/-- A call that writes takes or gives back a slot of its own. -/
theorem of_put (h : Stranded s) {call : Nat} {record : Bytes} {phase next : WritePhase}
    (hw : s.writes.find? call = some ⟨record, phase⟩)
    (hwrites : t.writes = s.writes.put call ⟨record, next⟩) (hworker : t.worker = s.worker)
    (hsum : t.pending + phase.holdsSlot.toNat = s.pending + next.holdsSlot.toNat) :
    Stranded t := by
  have hheld := Slots.held_put hw next hwrites
  have hlt := h.held_lt
  exact ⟨hworker ▸ h.gone, by omega⟩

theorem preserve (h : Stranded s) (step : Transition s a t es) : Stranded t := by
  have hgone := h.gone
  cases step with
  | @enter call record hhandles hnew =>
    exact h.of_eq rfl (Calls.count_add hnew ⟨record, .entered⟩ (·.phase.holdsSlot)) rfl
  | reserve hw | overflow hw | refuse hw | wakeFromWrite hw => exact h.of_put hw rfl rfl rfl
  | giveBack hw =>
    have hpos := Nat.lt_trans (Slots.held_pos hw rfl) h.held_lt
    refine h.of_put hw rfl rfl ?_
    have hfree : WritePhase.holdsSlot (if s.pending == 1 then .waking else .losing) = false := by
      split <;> rfl
    rw [hfree]
    simp only [WritePhase.holdsSlot, Bool.toNat_true, Bool.toNat_false]
    omega
  | send hw halive =>
    rw [hgone] at halive
    cases halive
  | countLost hw =>
    exact h.of_eq rfl (Slots.held_remove hw rfl) rfl
  | receive hworker | awaitWrite hworker | awaitFlush hworker | finish outcome hworker
  | judge hworker | release hworker | wake hworker | flush hworker | finishFlush outcome hworker =>
    rw [hworker] at hgone
    cases hgone
  | lose loss hlose =>
    rw [Worker.isAlive_of_canLose hlose] at hgone
    cases hgone
  | _ => exact h.of_eq rfl rfl rfl

end Stranded

/-- Somewhere in a run the sink panicked in the very call that was to write a record. -/
def WriteCallPanicked (s : Spool) (actions : List Action) : Prop :=
  ∃ before payload after t effects record,
    actions = before ++ .lose (.panicked payload) :: after ∧
      s.run before = some (t, effects) ∧ t.worker = .calling record

/-- A panic in the call that was to write a record leaves the spool stranded. -/
theorem stranded_of_writeCallPanicked {capacity : Nat} (hcapacity : 0 < capacity)
    {actions : List Action} {effects : List Effect}
    (h : (start capacity).run actions = some (s, effects))
    (hpanicked : WriteCallPanicked (start capacity) actions) :
    Stranded s ∧ ∃ payload, s.worker = .lost (.panicked payload) := by
  obtain ⟨before, payload, after, t, earlier, record, rfl, hbefore, hworker⟩ := hpanicked
  have hlost : s.worker = .lost (.panicked payload) :=
    ((trail_of_run hcapacity h).lost _).mpr (List.mem_append_right _ List.mem_cons_self)
  obtain ⟨u, v, _, _, _, hu, step, hafter, -⟩ := run_split h
  cases hbefore.symm.trans hu
  refine ⟨run_invariant (P := Stranded) Stranded.preserve hafter ?_, payload, hlost⟩
  cases step with
  | lose =>
    have hbalance := (accounted_of_run hcapacity hbefore).slots.balance (by rw [hworker]; rfl)
    rw [hworker] at hbalance
    simp only [Worker.inFlight] at hbalance
    refine ⟨rfl, ?_⟩
    change t.held < t.pending
    omega

/-- A panic in the call that was to flush comes when everything is worked off. -/
theorem atRest_of_panicked {capacity : Nat} (hcapacity : 0 < capacity) {payload : Payload}
    {actions : List Action} {effects : List Effect}
    (h : (start capacity).run actions = some (s, effects))
    (hpanicked : ¬ WriteCallPanicked (start capacity) actions)
    (hlost : s.worker = .lost (.panicked payload)) : AtRest s := by
  have hlose := ((trail_of_run hcapacity h).lost _).mp hlost
  obtain ⟨before, after, rfl⟩ := List.append_of_mem hlose
  obtain ⟨t, u, earlier, _, _, hbefore, step, hafter, -⟩ := run_split h
  have haccounted := accounted_of_run hcapacity hbefore
  refine AtRest.of_run ?_ (haccounted.preserve step) hafter
  refine AtRest.preserve ?_ haccounted.sealing step
  cases step with
  | lose _ hlose =>
    cases hworker : t.worker with
    | calling record =>
      exact absurd ⟨before, payload, after, t, earlier, record, rfl, hbefore, hworker⟩ hpanicked
    | callingFlush => exact haccounted.exhausted (by rw [hworker]; rfl)
    | _ => simp [hworker, Worker.canLose, Worker.isCalling] at hlose

/-- A worker that ended was lost, or has worked everything off. -/
theorem alive_or_workedOff {capacity : Nat} (hcapacity : 0 < capacity)
    {actions : List Action} {effects : List Effect}
    (h : (start capacity).run actions = some (s, effects))
    (hpanicked : ¬ WriteCallPanicked (start capacity) actions) :
    s.worker.isAlive = true ∨ WorkedOff s effects ∨ .lose .cancelled ∈ actions := by
  have of_atRest : AtRest s → WorkedOff s effects :=
    fun hrest => ⟨hrest, settled_of_run hcapacity h hrest.pending⟩
  cases hworker : s.worker with
  | done =>
    exact .inr (.inl (of_atRest ((accounted_of_run hcapacity h).exhausted (by rw [hworker]; rfl))))
  | lost loss =>
    cases loss with
    | cancelled => exact .inr (.inr (((trail_of_run hcapacity h).lost _).mp hworker))
    | panicked payload =>
      exact .inr (.inl (of_atRest (atRest_of_panicked hcapacity h hpanicked hworker)))
  | _ => exact .inl rfl

/-- After every run, whatever the sink does: the attempts that ended are counted one by
one as they ended, and each record counted has its slot given back; the records follow in
the order in which they were queued; as long as the worker is there it gets through all
that wait, whatever becomes of the next attempts.  So it ends only with nothing left to do
(unless it was stopped from outside), but for one case: where the sink panicked in the very
call that was to write a record, the worker is gone and slots stay taken for good. -/
theorem worker_survives_attempts (settings : SpoolSettings) {actions : List Action}
    {effects : List Effect} (h : (start settings.slots).run actions = some (s, effects)) :
    verdicts effects ++ s.worker.judgment = fates (attempts effects) (outcomes actions) ∧
      actions.count .release + s.worker.unreleased = (verdicts effects).length ∧
      (s.worker.isAlive = true → queued effects = attempts effects ++ s.channel.toList) ∧
      (s.worker.isAlive = true → s.worker.isPastQueue = false →
        ∀ ends : List Outcome,
          ends.length = (s.worker.unfinished ++ s.channel.toList).length → WorksOff s ends) ∧
      ((s.worker.isAlive = true ∨ WorkedOff s effects ∨ .lose .cancelled ∈ actions) ↔
        ¬ WriteCallPanicked (start settings.slots) actions) ∧
      (WriteCallPanicked (start settings.slots) actions → Stranded s) := by
  have hone := (slots_bounds settings).1
  have trail := trail_of_run hone h
  refine ⟨trail.judged, trail.released, fun halive => ?_, fun halive hpast ends hlength => ?_,
    ⟨?_, alive_or_workedOff hone h⟩, fun hpanicked => ?_⟩
  · obtain ⟨ledger, hbooks⟩ := books_of_run hone h
    rw [hbooks.inOrder, hbooks.owing halive, trail.current halive, List.append_assoc]
  · exact worksOff_of_accounted (accounted_of_run hone h) halive hpast hlength
  · intro hend hpanicked
    obtain ⟨hstranded, payload, hlost⟩ := stranded_of_writeCallPanicked hone h hpanicked
    rcases hend with halive | hoff | hcancelled
    · rw [hstranded.gone] at halive
      cases halive
    · have hlt := hstranded.held_lt
      rw [hoff.atRest.pending] at hlt
      cases hlt
    · rw [(trail.lost .cancelled).mpr hcancelled] at hlost
      cases hlost
  · exact (stranded_of_writeCallPanicked hone h hpanicked).1

/-- Two records are queued, and the sink panics in the call with the first. -/
def unguarded : List Action :=
  [.enter 0 [1], .advance 0, .advance 0, .enter 0 [2], .advance 0, .advance 0,
    .receive, .lose (.panicked (.text "boom"))]

/-- The worker is gone with both records: neither is counted, and both slots stay taken. -/
theorem worker_survives_attempts_unguarded :
    ∃ s effects, (start ({ capacity := 2 } : SpoolSettings).slots).run unguarded =
        some (s, effects) ∧
      queued effects = [[1], [2]] ∧ verdicts effects = [] ∧ s.pending = 2 ∧ Stranded s ∧
      ¬ (s.worker.isAlive = true ∨ WorkedOff s effects ∨ .lose .cancelled ∈ unguarded) := by
  have hpanicked : WriteCallPanicked (start ({ capacity := 2 } : SpoolSettings).slots) unguarded :=
    ⟨unguarded.dropLast, .text "boom", [], _, _, [1], rfl, rfl, rfl⟩
  obtain ⟨-, -, -, -, hend, hstranded⟩ := @worker_survives_attempts _ { capacity := 2 } unguarded _ rfl
  exact ⟨_, _, rfl, rfl, rfl, rfl, hstranded hpanicked, fun h => hend.mp h hpanicked⟩

end Spool

end LogSpool
