import LogSpool.Proofs.Spool.Polling
import LogSpool.Proofs.Spool.Slots
set_option autoImplicit false

/-!
# Spools: who does not wait

The queue, the worker and the calls that write take no notice of the calls that wait, and those
take none of how far another has come.  `Transition.reframe` says the first of every step,
`work` is what is left of a spool when all who wait are left out, and `poll_endShutdown` says the
second of every poll.
-/

namespace LogSpool

/-- The effect belongs to the work of the spool, and not to a call that waits. -/
def Effect.isWork : Effect → Bool
  | drained _ | shutDown _ | detached | reported (.lost _) => false
  | _ => true

/-- The spool after a poll, when a call does not shut it down any more. -/
def Polled.endShutdown (p : Polled) (call : Nat) : Polled :=
  { p with spool := p.spool.endShutdown call }

/-- It does not matter what a poll depended on. -/
theorem Polled.endShutdown_ite (c : Prop) [Decidable c] (p q : Polled) (call : Nat) :
    (if c then p else q).endShutdown call =
      if c then p.endShutdown call else q.endShutdown call :=
  apply_ite (·.endShutdown call) c p q

namespace Spool

variable {s t : Spool} {a : Action} {call : Nat} {late : Bool} {p : Polled} {es : List Effect}

theorem isWork_of_mem_verdictReports {record : Bytes} {outcome : Outcome} {e : Effect}
    (h : e ∈ s.verdictReports record outcome) : e.isWork = true := by
  unfold verdictReports at h
  split at h <;> split at h
  · cases h
  · rw [List.mem_singleton.mp h]
    rfl
  · rw [List.mem_singleton.mp h]
    rfl
  · cases h

theorem isWork_of_mem_flushReports {outcome : FlushOutcome} {e : Effect}
    (h : e ∈ flushReports outcome) : e.isWork = true := by
  cases outcome with
  | done => cases h
  | failed error | panicked payload =>
    rw [List.mem_singleton.mp h]
    rfl

theorem isWork_of_transition (step : Transition s a t es) (hother : a.waiting? = none) {e : Effect}
    (he : e ∈ es) : e.isWork = true := by
  cases step with
  | judge =>
    rcases List.mem_cons.mp he with rfl | hreport
    · rfl
    · exact isWork_of_mem_verdictReports hreport
  | finishFlush outcome =>
    rcases List.mem_append.mp he with hreport | hlast
    · exact isWork_of_mem_flushReports hreport
    · simp only [List.mem_cons, List.not_mem_nil, or_false] at hlast
      rcases hlast with rfl | rfl <;> rfl
  | send =>
    simp only [List.mem_cons, List.not_mem_nil, or_false] at he
    rcases he with rfl | rfl <;> rfl
  | countLost =>
    simp only [List.mem_cons, List.not_mem_nil, or_false] at he
    rcases he with rfl | rfl <;> rfl
  | enterClosed | enterEmpty | announce | receive | flush | lose =>
    rw [List.mem_singleton.mp he]
    rfl
  | lookDrained | abandonJoining | claimTaken | joinDone | joinLost => cases hother
  | _ => cases he

/-- Somebody who does not wait takes no notice of who does: the same can be done whoever waits, if
only nobody does where nobody did when the last handle is given back. -/
theorem Transition.reframe (step : Transition s a t es) (hother : a.waiting? = none)
    (waiters : Calls Waiter) (shutdowns : Calls ShutdownPhase) (unclaimed : Bool)
    (hquiet : a = .drop → s.handles ≤ 1 → s.isQuiet = true →
      waiters.isEmpty = true ∧ shutdowns.isEmpty = true) :
    ∃ wakes : Bool, t.waiters = (if wakes then s.wakeAll.waiters else s.waiters) ∧
      t.shutdowns = s.shutdowns ∧ t.unclaimed = s.unclaimed ∧
      Transition { s with waiters, shutdowns, unclaimed } a
        { t with
          waiters := if wakes then wakeAll { s with waiters } |>.waiters else waiters
          shutdowns
          unclaimed } es := by
  cases step with
  | drop hspare =>
    refine ⟨false, rfl, rfl, rfl, .drop (hspare.imp_right fun ⟨hlast, hnone⟩ => ⟨hlast, ?_⟩)⟩
    exact Sealing.isQuiet_iff.mpr
      ⟨(Sealing.isQuiet_iff.mp hnone).1, hquiet rfl (Nat.le_of_eq hlast) hnone⟩
  | wakeFromWrite hw => exact ⟨true, rfl, rfl, rfl, .wakeFromWrite hw⟩
  | wake hworker => exact ⟨true, rfl, rfl, rfl, .wake hworker⟩
  | clone hhandles => exact ⟨false, rfl, rfl, rfl, .clone hhandles⟩
  | enterClosed hhandles hnew hclosed =>
    exact ⟨false, rfl, rfl, rfl, .enterClosed hhandles hnew hclosed⟩
  | enterEmpty hhandles hnew hopen =>
    exact ⟨false, rfl, rfl, rfl, .enterEmpty hhandles hnew hopen⟩
  | enter hhandles hnew hopen hrecord =>
    exact ⟨false, rfl, rfl, rfl, .enter hhandles hnew hopen hrecord⟩
  | reserve hw hroom => exact ⟨false, rfl, rfl, rfl, .reserve hw hroom⟩
  | overflow hw hfull => exact ⟨false, rfl, rfl, rfl, .overflow hw hfull⟩
  | send hw halive hroom => exact ⟨false, rfl, rfl, rfl, .send hw halive hroom⟩
  | refuse hw hgone => exact ⟨false, rfl, rfl, rfl, .refuse hw hgone⟩
  | giveBack hw => exact ⟨false, rfl, rfl, rfl, .giveBack hw⟩
  | countLost hw => exact ⟨false, rfl, rfl, rfl, .countLost hw⟩
  | close hhandles hwrites => exact ⟨false, rfl, rfl, rfl, .close hhandles hwrites⟩
  | announce hannouncing => exact ⟨false, rfl, rfl, rfl, .announce hannouncing⟩
  | receive hworker hpop => exact ⟨false, rfl, rfl, rfl, .receive hworker hpop⟩
  | awaitWrite hworker => exact ⟨false, rfl, rfl, rfl, .awaitWrite hworker⟩
  | awaitFlush hworker => exact ⟨false, rfl, rfl, rfl, .awaitFlush hworker⟩
  | finish outcome hworker => exact ⟨false, rfl, rfl, rfl, .finish outcome hworker⟩
  | judge hworker => exact ⟨false, rfl, rfl, rfl, .judge hworker⟩
  | release hworker => exact ⟨false, rfl, rfl, rfl, .release hworker⟩
  | flush hworker hsealed hempty =>
    exact ⟨false, rfl, rfl, rfl, .flush hworker hsealed hempty⟩
  | finishFlush outcome hworker => exact ⟨false, rfl, rfl, rfl, .finishFlush outcome hworker⟩
  | lose loss hlose => exact ⟨false, rfl, rfl, rfl, .lose loss hlose⟩
  | _ => cases hother

theorem Transition.work (step : Transition s a t es) (hother : a.waiting? = none) :
    Transition s.work a t.work es := by
  obtain ⟨wakes, -, -, -, hstep⟩ := step.reframe hother {} {} true fun _ _ _ => ⟨rfl, rfl⟩
  cases wakes <;> exact hstep

/-- Whether somebody who does not wait can do something does not depend on who waits, unless it is to
give the last handle back. -/
theorem step_work (hother : a.waiting? = none) (hspare : a = .drop → 1 < s.handles) :
    s.work.step a = (s.step a).map fun r => (r.1.work, r.2) := by
  cases hstep : s.step a with
  | some r => exact (Transition.of_step hstep).work hother |>.step_eq
  | none =>
    cases hwork : s.work.step a with
    | none => rfl
    | some r =>
      have hback := (Transition.of_step hwork).reframe hother s.waiters s.shutdowns s.unclaimed
        fun hdrop hlast => absurd (hspare hdrop) (Nat.not_lt.mpr hlast)
      obtain ⟨wakes, -, -, -, hsame⟩ := hback
      cases hstep.symm.trans hsame.step_eq

theorem WorkerPoll.filter_isWork (h : WorkerPoll s call late p) :
    p.effects.filter Effect.isWork = [] := by
  cases h with
  | gone hgone =>
    cases hworker : s.worker <;> rfl
  | _ => rfl

theorem Poll.filter_isWork (h : Poll s call late p) : p.effects.filter Effect.isWork = [] := by
  cases h with
  | claims hw hawake hnone hphase hunclaimed hp => exact hp.filter_isWork
  | joining hw hphase hp => exact hp.filter_isWork
  | _ => rfl

/-- A call that gives up to wait leaves the work alone. -/
theorem work_of_abandon (step : Transition s (.abandon call) t es) :
    t.work = s.work ∧ es.filter Effect.isWork = [] := by
  cases step <;> exact ⟨rfl, rfl⟩

/-! ## Forgetting that a call shuts the spool down -/

/-- Somebody who does not wait does the same when a call does not shut the spool down any more. -/
theorem Transition.endShutdown (step : Transition s a t es) (hother : a.waiting? = none)
    (call : Nat) : Transition (s.endShutdown call) a (t.endShutdown call) es := by
  obtain ⟨wakes, hwaiters, hshutdowns, hunclaimed, hstep⟩ :=
    step.reframe hother s.waiters (s.shutdowns.remove call) s.unclaimed fun _ _ hquiet => by
      obtain ⟨-, hwaits, hshuts⟩ := Sealing.isQuiet_iff.mp hquiet
      refine ⟨hwaits, Calls.isEmpty_iff.mpr fun other => ?_⟩
      rw [Calls.find?_remove, Calls.isEmpty_iff.mp hshuts, ite_self]
  have hstate : t.endShutdown call = { t with
      waiters := if wakes then s.wakeAll.waiters else s.waiters
      shutdowns := s.shutdowns.remove call
      unclaimed := s.unclaimed } := by
    rw [← hwaiters, ← hshutdowns, ← hunclaimed, Spool.endShutdown]
  rw [hstate]
  exact hstep

theorem step_endShutdown {other : Nat} (hwaiting : a.waiting? = some other) (hne : other ≠ call) :
    (s.endShutdown call).step a = (s.step a).map fun r => (r.1.endShutdown call, r.2) := by
  have hphase : (s.shutdowns.remove call).find? other = s.shutdowns.find? other :=
    Calls.find?_remove_of_ne _ hne
  cases a with
  | arm c =>
    cases hwaiting
    by_cases hcan : 0 < s.handles ∧ s.isFresh other = true
    · simp_all [step, endShutdown, isFresh]
    · simp_all [step, endShutdown, isFresh]
  | look c =>
    cases hwaiting
    cases hw : s.waiters.find? other with
    | none => simp [step, endShutdown, hw]
    | some w =>
      cases hparked : w.parked with
      | true => simp [step, endShutdown, hw, hparked]
      | false =>
        by_cases hnone : s.pending = 0
        · simp [step, endShutdown, hw, hparked, hnone, Calls.modify, Calls.remove_mapAll]
        · simp [step, endShutdown, hw, hparked, hnone, putWaiter]
  | rearm c =>
    cases hwaiting
    cases hw : s.waiters.find? other with
    | none => simp [step, endShutdown, hw]
    | some w => cases hwoken : w.parked && w.notified <;> simp_all [step, endShutdown, putWaiter]
  | abandon c =>
    cases hwaiting
    cases hfind : s.shutdowns.find? other with
    | none =>
      cases hw : s.waiters.find? other <;>
        simp [step, abandon, hphase, hfind, hw, endShutdown, endWaiter]
    | some phase =>
      have hcomm := Calls.remove_comm s.shutdowns other call
      cases phase <;> simp [step, abandon, hphase, hfind, endShutdown, endWaiter, hcomm]
  | shutdown c =>
    cases hwaiting
    have hcomm := Calls.remove_add_of_ne s.shutdowns hne ShutdownPhase.closing
    by_cases hcan : 0 < s.handles ∧ s.isFresh other = true
    · simp_all [step, endShutdown, isFresh]
    · simp_all [step, endShutdown, isFresh]
  | pursue c =>
    cases hwaiting
    have hput : ∀ phase, (s.shutdowns.put other phase).remove call =
        (s.shutdowns.remove call).put other phase := fun _ => Calls.remove_mapAll _ _ _
    have hcomm := Calls.remove_comm s.shutdowns call other
    cases hfind : s.shutdowns.find? other with
    | none => simp [step, hphase, hfind, endShutdown]
    | some phase =>
      cases phase with
      | closing =>
        cases hwrites : s.writes.isEmpty <;>
          simp [step, pursue, hphase, hfind, endShutdown, putShutdown, hwrites, hput, Spool.close]
      | arming => simp [step, pursue, hphase, hfind, endShutdown, putShutdown, hput]
      | draining => simp [step, pursue, hphase, hfind, endShutdown]
      | claiming =>
        cases hclaim : s.unclaimed <;>
          simp [step, pursue, hphase, hfind, endShutdown, putShutdown, hclaim, hput, hcomm]
      | joining =>
        cases hworker : s.worker <;>
          simp [step, pursue, hphase, hfind, endShutdown, hworker, hcomm]
  | _ => cases hwaiting

theorem tryStep_endShutdown {other : Nat} (hwaiting : a.waiting? = some other) (hne : other ≠ call) :
    (s.endShutdown call).tryStep a = ((s.tryStep a).1.endShutdown call, (s.tryStep a).2) := by
  unfold tryStep
  rw [step_endShutdown hwaiting hne]
  cases s.step a <;> rfl

theorem tryAll_endShutdown {other : Nat} {actions : List Action}
    (hwaiting : ∀ a ∈ actions, a.waiting? = some other) (hne : other ≠ call) :
    (s.endShutdown call).tryAll actions =
      ((s.tryAll actions).1.endShutdown call, (s.tryAll actions).2) := by
  induction actions generalizing s with
  | nil => rfl
  | cons a rest ih =>
    have hrest := ih (s := (s.tryStep a).1) fun b hb => hwaiting b (List.mem_cons_of_mem _ hb)
    simp only [tryAll, tryStep_endShutdown (hwaiting a List.mem_cons_self) hne, hrest]

theorem expire_endShutdown {other : Nat} (hne : other ≠ call) :
    (s.endShutdown call).expire other = (s.expire other).endShutdown call := by
  simp only [expire, tryStep_endShutdown (a := .abandon other) rfl hne]
  rfl

theorem pollDrain_endShutdown {other : Nat} (hne : other ≠ call) (late : Bool) :
    (s.endShutdown call).pollDrain other late = (s.pollDrain other late).endShutdown call := by
  have hlooked : (s.endShutdown call).tryAll [.rearm other, .look other] = _ :=
    tryAll_endShutdown (by simp [Action.waiting?]) hne
  simp only [pollDrain, hlooked, expire_endShutdown hne]
  rw [Polled.endShutdown_ite, Polled.endShutdown_ite]
  rfl

theorem pollWorker_endShutdown {other : Nat} (hne : other ≠ call) (late : Bool) :
    (s.endShutdown call).pollWorker other late = (s.pollWorker other late).endShutdown call := by
  simp only [pollWorker, tryStep_endShutdown (a := .pursue other) rfl hne, expire_endShutdown hne]
  rw [Polled.endShutdown_ite, Polled.endShutdown_ite]
  rfl

theorem joinWorker_endShutdown {other : Nat} (hne : other ≠ call) (late : Bool) :
    (s.endShutdown call).joinWorker other late = (s.joinWorker other late).endShutdown call := by
  simp only [joinWorker, tryStep_endShutdown (a := .pursue other) rfl hne,
    pollWorker_endShutdown hne]
  rw [Polled.endShutdown_ite]
  rfl

/-- A call that waits is polled in the same way when another does not shut the spool down. -/
theorem poll_endShutdown {other : Nat} (hne : other ≠ call) (late : Bool) :
    (s.endShutdown call).poll other late = (s.poll other late).endShutdown call := by
  have hphase : (s.endShutdown call).shutdowns.find? other = s.shutdowns.find? other :=
    Calls.find?_remove_of_ne _ hne
  simp only [poll, hphase, pollShutdown, pollDrain_endShutdown hne, pollWorker_endShutdown hne]
  split
  · generalize s.pollDrain other late = drained
    have hresult : (drained.endShutdown call).result? = drained.result? := rfl
    rw [hresult]
    split
    · have hjoin := joinWorker_endShutdown (s := drained.spool) hne late
      simp only [Polled.endShutdown, hjoin]
    · rfl
  · rfl
  · rfl
  · rfl

end Spool

end LogSpool
