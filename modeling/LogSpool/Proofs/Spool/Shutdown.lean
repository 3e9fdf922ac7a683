import LogSpool.Proofs.Spool.Trail
set_option autoImplicit false

/-!
# Spools: what a shutdown means

A call that shuts the spool down closes it, waits until no slot is taken, and then asks
for the right to wait for the worker's end.  Only the first that asks gets it, and it keeps
the right when it gives up waiting.  `Phases` is what a call knows by how far it has come;
`Claimed` says where the right is once it was taken.

* `shutdown_waits_unless_overtaken` : a call that is answered that the spool is shut down
  leaves no record behind; the worker is done, its sink flushed, unless it was lost or the
  right to wait for it was taken by a call that is still waiting or gave up.
-/

namespace LogSpool

/-- A call in this phase has closed the spool. -/
def ShutdownPhase.hasClosed : ShutdownPhase → Bool
  | closing => false
  | _ => true

/-- A call in this phase has found no slot taken. -/
def ShutdownPhase.hasDrained : ShutdownPhase → Bool
  | claiming | joining => true
  | _ => false

namespace Spool

variable {s t : Spool} {a : Action} {actions : List Action} {effects es : List Effect}

/-! ## How calls come to their phases -/

theorem worker_eq_of_gone (step : Transition s a t es) (hgone : s.worker.isAlive = false) :
    t.worker = s.worker := by
  cases step with
  | receive hworker | awaitWrite hworker | awaitFlush hworker | finish outcome hworker
  | judge hworker | release hworker | wake hworker | flush hworker | finishFlush outcome hworker =>
    rw [hworker] at hgone
    cases hgone
  | lose loss hlose =>
    rw [Worker.isAlive_of_canLose hlose] at hgone
    cases hgone
  | _ => rfl

theorem closed_of_transition (step : Transition s a t es) (hclosed : s.closed = true) :
    t.closed = true := by
  cases step with
  | close | pursueClosing => rfl
  | _ => exact hclosed

theorem closed_of_run (h : s.run actions = some (t, effects)) (hclosed : s.closed = true) :
    t.closed = true :=
  run_invariant (P := fun u => u.closed = true) (fun hu step => closed_of_transition step hu) h
    hclosed

/-- How a call that shuts the spool down can have come to a phase in one step. -/
inductive Comes (s t : Spool) (call : Nat) : ShutdownPhase → Prop where
  | stays {phase : ShutdownPhase} (h : s.shutdowns.find? call = some phase) : Comes s t call phase
  | closing : Comes s t call .closing
  | arming (hclosed : t.closed = true) : Comes s t call .arming
  | draining (h : s.shutdowns.find? call = some .arming) : Comes s t call .draining
  | claiming (h : s.shutdowns.find? call = some .draining) (hnone : s.pending = 0) :
      Comes s t call .claiming
  | joining (h : s.shutdowns.find? call = some .claiming) : Comes s t call .joining

/-- A call that shuts the spool down goes from one phase to the next. -/
theorem comes_of_transition (step : Transition s a t es) {call : Nat} {phase : ShutdownPhase}
    (h : t.shutdowns.find? call = some phase) : Comes s t call phase := by
  cases step with
  | shutdown =>
    rcases Calls.find?_of_add h with ⟨-, rfl⟩ | ⟨-, hbefore⟩
    · exact .closing
    · exact .stays hbefore
  | pursueClosing =>
    rcases Calls.find?_of_put h with ⟨-, rfl⟩ | ⟨-, hbefore⟩
    · exact .arming rfl
    · exact .stays hbefore
  | pursueArming hphase =>
    rcases Calls.find?_of_put h with ⟨rfl, rfl⟩ | ⟨-, hbefore⟩
    · exact .draining hphase
    · exact .stays hbefore
  | claim hphase =>
    rcases Calls.find?_of_put h with ⟨rfl, rfl⟩ | ⟨-, hbefore⟩
    · exact .joining hphase
    · exact .stays hbefore
  | lookDrained hw hparked hnone =>
    rw [Calls.find?_modify] at h
    split at h
    · obtain ⟨before, hbefore, rfl⟩ := Option.map_eq_some_iff.mp h
      cases before with
      | draining => exact .claiming hbefore hnone
      | _ => exact .stays hbefore
    · exact .stays h
  | abandonDraining | abandonJoining | claimTaken | joinDone | joinLost =>
    exact .stays (Calls.find?_of_remove h).2
  | _ => exact .stays h

/-- What the calls that shut the spool down know by how far they have come. -/
structure Phases (s : Spool) : Prop where
  closed : ∀ call phase, s.shutdowns.find? call = some phase →
    phase.hasClosed = true → s.closed = true
  atRest : ∀ call phase, s.shutdowns.find? call = some phase →
    phase.hasDrained = true → AtRest s

theorem Phases.preserve (h : Phases s) (haccounted : Accounted s) (step : Transition s a t es) :
    Phases t where
  closed call phase hphase hclosed := by
    cases comes_of_transition step hphase with
    | closing => cases hclosed
    | arming hdone => exact hdone
    | stays hbefore => exact closed_of_transition step (h.closed call phase hbefore hclosed)
    | draining hbefore | claiming hbefore | joining hbefore =>
      exact closed_of_transition step (h.closed call _ hbefore rfl)
  atRest call phase hphase hdrained := by
    cases comes_of_transition step hphase with
    | closing | arming | draining => cases hdrained
    | stays hbefore =>
      exact (h.atRest call phase hbefore hdrained).preserve haccounted.sealing step
    | joining hbefore => exact (h.atRest call _ hbefore rfl).preserve haccounted.sealing step
    | claiming hbefore hnone =>
      have hrest := AtRest.of_closed haccounted.slots (h.closed call _ hbefore rfl) hnone
      exact hrest.preserve haccounted.sealing step

theorem phases_of_run {capacity : Nat} (hcapacity : 0 < capacity)
    (h : (start capacity).run actions = some (s, effects)) : Phases s :=
  run_induction (P := fun _ s _ => Phases s)
    ⟨fun _ _ hphase => (by cases hphase), fun _ _ hphase => (by cases hphase)⟩
    (fun hrun ih step => ih.preserve (accounted_of_run hcapacity hrun) step) h

/-! ## The right to wait for the worker -/

/-- Where the right to wait for the worker's end is, once it was taken: with a call that
waits, given up for good, or used up at the worker's end. -/
def Claimed (s : Spool) (effects : List Effect) : Prop :=
  s.unclaimed = false →
    s.worker.isAlive = false ∨ .detached ∈ effects ∨
      ∃ call, s.shutdowns.find? call = some .joining

/-- A call that waits for the worker's end goes on waiting, until it gives up or the worker
is gone. -/
theorem joining_of_transition (step : Transition s a t es) {call : Nat}
    (h : s.shutdowns.find? call = some .joining) :
    t.shutdowns.find? call = some .joining ∨ .detached ∈ es ∨ s.worker.isAlive = false := by
  have hother : ∀ {other : Nat}, s.shutdowns.find? other ≠ some .joining → call ≠ other := by
    rintro other hne rfl
    exact hne h
  cases step with
  | @shutdown other hhandles hfresh =>
    have hnew : s.shutdowns.find? other = none := by
      exact (isFresh_iff.mp hfresh).2
    exact .inl ((Calls.find?_add_of_ne _ (hother (by simp [hnew])) _).trans h)
  | pursueClosing hphase | pursueArming hphase | claim hphase =>
    exact .inl ((Calls.find?_put_of_ne _ (hother (by simp [hphase])) _).trans h)
  | claimTaken hphase | abandonDraining hphase =>
    exact .inl ((Calls.find?_remove_of_ne _ (hother (by simp [hphase]))).trans h)
  | abandonJoining => exact .inr (.inl List.mem_cons_self)
  | joinDone hphase hworker | joinLost hphase hworker => exact .inr (.inr (by rw [hworker]; rfl))
  | lookDrained =>
    refine .inl ?_
    rw [Calls.find?_modify]
    split
    · rw [h]
      rfl
    · exact h
  | _ => exact .inl h

theorem Claimed.preserve (h : Claimed s effects) (step : Transition s a t es) :
    Claimed t (effects ++ es) := by
  intro hclaimed
  cases hbefore : s.unclaimed with
  | true =>
    cases step with
    | claim hphase => exact .inr (.inr ⟨_, Calls.find?_put_self hphase _⟩)
    | _ => exact absurd (hbefore.symm.trans hclaimed) Bool.noConfusion
  | false =>
    rcases h hbefore with hgone | hdetached | ⟨call, hcall⟩
    · rw [worker_eq_of_gone step hgone]
      exact .inl hgone
    · exact .inr (.inl (List.mem_append_left _ hdetached))
    · rcases joining_of_transition step hcall with hstill | hdetached | hgone
      · exact .inr (.inr ⟨call, hstill⟩)
      · exact .inr (.inl (List.mem_append_right _ hdetached))
      · rw [worker_eq_of_gone step hgone]
        exact .inl hgone

theorem claimed_of_run {capacity : Nat}
    (h : (start capacity).run actions = some (s, effects)) : Claimed s effects :=
  run_induction (P := fun _ s effects => Claimed s effects) (fun hclaimed => by cases hclaimed)
    (fun _ ih step => ih.preserve step) h

/-! ## The worker's end -/

/-- What a run has to do with the end of its worker. -/
structure Flushing (actions : List Action) (s : Spool) (effects : List Effect) : Prop where
  flushed : s.worker.isPastQueue = true → .flushed ∈ effects
  ended : s.worker = .done → ∃ outcome, .finishFlush outcome ∈ actions

theorem Flushing.preserve (h : Flushing actions s effects) (step : Transition s a t es) :
    Flushing (actions ++ [a]) t (effects ++ es) where
  flushed hpast := by
    cases step with
    | flush => exact List.mem_append_right _ List.mem_cons_self
    | awaitFlush hworker | finishFlush outcome hworker =>
      exact List.mem_append_left _ (h.flushed (by rw [hworker]; rfl))
    | receive | awaitWrite | finish | judge | wake | lose => cases hpast
    | release =>
      simp only at hpast
      split at hpast <;> cases hpast
    | _ => exact List.mem_append_left _ (h.flushed hpast)
  ended hdone := by
    cases step with
    | finishFlush outcome => exact ⟨outcome, List.mem_append_right _ List.mem_cons_self⟩
    | receive | awaitWrite | awaitFlush | finish | judge | wake | flush | lose => cases hdone
    | release =>
      simp only at hdone
      split at hdone <;> cases hdone
    | _ =>
      obtain ⟨outcome, hended⟩ := h.ended hdone
      exact ⟨outcome, List.mem_append_left _ hended⟩

theorem flushing_of_run {capacity : Nat}
    (h : (start capacity).run actions = some (s, effects)) : Flushing actions s effects :=
  run_induction (P := Flushing) ⟨fun hpast => (by cases hpast), fun hdone => (by cases hdone)⟩
    (fun _ ih step => ih.preserve step) h

/-! ## The answer of a shutdown -/

/-- The sink was asked to flush, the flush has ended, and the worker with it. -/
structure Finished (actions : List Action) (s : Spool) (effects : List Effect) : Prop where
  flushed : .flushed ∈ effects
  ended : ∃ outcome, .finishFlush outcome ∈ actions
  exited : s.worker = .done

/-- A call asks for the right to wait for the worker while the worker still runs, and
another call has it: one that still waits, or one that gave it up. -/
structure Overtaken (s : Spool) (effects : List Effect) (call : Nat) : Prop where
  running : s.worker.isAlive = true
  asking : s.shutdowns.find? call = some .claiming
  taken : .detached ∈ effects ∨
    ∃ other, other ≠ call ∧ s.shutdowns.find? other = some .joining

/-- Where a call that shuts the spool down stands when it is answered. -/
theorem standing_of_shutDown (step : Transition s a t es) {call : Nat}
    (hok : .shutDown call ∈ es) :
    (s.shutdowns.find? call = some .claiming ∧ s.unclaimed = false) ∨
      (s.shutdowns.find? call = some .joining ∧ s.worker.isAlive = false) := by
  cases step with
  | claimTaken hphase hclaimed =>
    cases List.mem_singleton.mp hok
    exact .inl ⟨hphase, hclaimed⟩
  | joinDone hphase hworker =>
    cases List.mem_singleton.mp hok
    exact .inr ⟨hphase, by rw [hworker]; rfl⟩
  | joinLost hphase hworker =>
    rcases List.mem_cons.mp hok with hreport | hanswer
    · cases hreport
    · cases List.mem_singleton.mp hanswer
      exact .inr ⟨hphase, by rw [hworker]; rfl⟩
  | judge => simp [not_mem_verdictReports] at hok
  | finishFlush outcome => simp [not_mem_flushReports] at hok
  | _ => simp at hok

/-- Whenever a call that shuts the spool down is answered that it did, no record is left
behind: every one that was queued was attempted and counted, and none can come any more.
And the worker has flushed its sink and ended, unless it was lost or the call was
overtaken: another call has the right to wait for the worker, or gave it up, while the
worker still runs. -/
theorem shutdown_waits_unless_overtaken (settings : SpoolSettings)
    (h : (start settings.slots).run actions = some (s, effects)) {call : Nat}
    (hstep : s.step a = some (t, es)) (hok : .shutDown call ∈ es) :
    s.closed = true ∧ AtRest s ∧ Settled effects ∧
      (Finished actions s effects ↔
        (∀ loss, .lose loss ∉ actions) ∧ ¬ Overtaken s effects call) := by
  have hone := (slots_bounds settings).1
  have phases := phases_of_run hone h
  have flushing := flushing_of_run h
  have trail := trail_of_run hone h
  have standing := standing_of_shutDown (.of_step hstep) hok
  obtain ⟨phase, hphase, hclosed, hdrained⟩ : ∃ phase, s.shutdowns.find? call = some phase ∧
      phase.hasClosed = true ∧ phase.hasDrained = true := by
    rcases standing with ⟨hphase, -⟩ | ⟨hphase, -⟩
    · exact ⟨_, hphase, rfl, rfl⟩
    · exact ⟨_, hphase, rfl, rfl⟩
  have hrest := phases.atRest call phase hphase hdrained
  refine ⟨phases.closed call phase hphase hclosed, hrest, settled_of_run hone h hrest.pending,
    fun finished => ⟨fun loss hlose => ?_, fun overtaken => ?_⟩, fun ⟨hkept, hahead⟩ => ?_⟩
  · rw [← trail.lost, finished.exited] at hlose
    cases hlose
  · have hrunning := overtaken.running
    rw [finished.exited] at hrunning
    cases hrunning
  · have hgone : s.worker.isAlive = false := by
      rcases standing with ⟨hasking, hclaimed⟩ | ⟨-, hgone⟩
      · refine Bool.eq_false_iff.mpr fun hrunning => hahead ⟨hrunning, hasking, ?_⟩
        rcases claimed_of_run h hclaimed with hgone | hdetached | ⟨other, hother⟩
        · rw [hrunning] at hgone
          cases hgone
        · exact .inl hdetached
        · refine .inr ⟨other, ?_, hother⟩
          rintro rfl
          rw [hasking] at hother
          cases hother
      · exact hgone
    have hdone : s.worker = .done := by
      cases hworker : s.worker with
      | done => rfl
      | lost loss => exact absurd ((trail.lost loss).mp hworker) (hkept loss)
      | _ => simp [hworker, Worker.isAlive] at hgone
    exact ⟨flushing.flushed (by rw [hdone]; rfl), flushing.ended hdone, hdone⟩

/-- A record is queued and a call shuts the spool down.  It closes and drains the spool,
gets the right to wait for the worker, and finds the sink being flushed. -/
def patient : List Action :=
  [.enter 0 [1], .advance 0, .advance 0, .shutdown 1, .pursue 1, .pursue 1, .look 1,
    .receive, .await, .finish (.returned 1), .judge, .release, .wake, .flush, .await,
    .rearm 1, .look 1, .pursue 1]

/-- A second call shuts the spool down, and asks for the right to wait for the worker. -/
def hasty : List Action := [.shutdown 2, .pursue 2, .pursue 2, .look 2]

/-- The second call is answered while the sink is still being flushed, whether the first
still waits for that or gave up. -/
theorem shutdown_waits_unless_overtaken_hasty :
    (∃ s effects t, (start ({ capacity := 1 } : SpoolSettings).slots).run (patient ++ hasty) =
        some (s, effects) ∧
      s.step (.pursue 2) = some (t, [.shutDown 2]) ∧ Settled effects ∧ s.worker = .flushing ∧
      ¬ Finished (patient ++ hasty) s effects) ∧
    (∃ s effects t, (start ({ capacity := 1 } : SpoolSettings).slots).run
        (patient ++ .abandon 1 :: hasty) = some (s, effects) ∧
      s.step (.pursue 2) = some (t, [.shutDown 2]) ∧ Settled effects ∧ s.worker = .flushing ∧
      ¬ Finished (patient ++ .abandon 1 :: hasty) s effects) := by
  obtain ⟨-, -, hwaiting, hfirst⟩ := @shutdown_waits_unless_overtaken _ _ (.pursue 2)
    (patient ++ hasty) _ [.shutDown 2] { capacity := 1 } rfl 2 rfl List.mem_cons_self
  obtain ⟨-, -, hgivenUp, hsecond⟩ := @shutdown_waits_unless_overtaken _ _ (.pursue 2)
    (patient ++ .abandon 1 :: hasty) _ [.shutDown 2] { capacity := 1 } rfl 2 rfl List.mem_cons_self
  refine ⟨⟨_, _, _, rfl, rfl, hwaiting, rfl, fun finished => ?_⟩,
    ⟨_, _, _, rfl, rfl, hgivenUp, rfl, fun finished => ?_⟩⟩
  · exact (hfirst.mp finished).2 ⟨rfl, rfl, .inr ⟨1, nofun, rfl⟩⟩
  · exact (hsecond.mp finished).2 ⟨rfl, rfl, .inl (by decide)⟩

end Spool

end LogSpool
