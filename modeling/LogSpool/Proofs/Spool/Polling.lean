import LogSpool.Proofs.Spool.Run
import LogSpool.Spool.Poll
set_option autoImplicit false

/-!
# Spools: what a poll comes to

A poll of a call that waits is a run of steps of that call alone.  `Poll` says once and for
all when it has which answer and what it leaves behind; `poll_cases` is the tie to
`Spool.poll`, and no later proof opens a poll again.
-/

namespace LogSpool

/-- A poll of the waiter looks: it does not sleep, or was woken since it was armed. -/
def Waiter.isAwake (w : Waiter) : Bool := !w.parked || w.notified

/-- The waiter after a poll that found slots taken. -/
def Waiter.sleep (w : Waiter) : Waiter := { parked := true, notified := !w.parked && w.notified }

/-- What is reported of a worker's end to who waits for it. -/
def Worker.lossReports : Worker → List Effect
  | .lost loss => [.reported (.lost loss)]
  | _ => []

namespace Spool

variable {s t u : Spool} {a : Action} {call : Nat} {late : Bool} {es fs : List Effect}

/-! ## Steps as far as they are possible -/

theorem run_tryStep (s : Spool) (a : Action) :
    ∃ taken : List Action, taken.Sublist [a] ∧ s.run taken = some (s.tryStep a) := by
  unfold tryStep
  cases h : s.step a with
  | none => exact ⟨[], List.nil_sublist _, rfl⟩
  | some r => exact ⟨[a], List.Sublist.refl _, by rw [run_cons, h]; simp⟩

/-- Steps that are taken as far as they are possible are a run of some of them. -/
theorem run_tryAll (s : Spool) (actions : List Action) :
    ∃ taken : List Action, taken.Sublist actions ∧ s.run taken = some (s.tryAll actions) := by
  induction actions generalizing s with
  | nil => exact ⟨[], List.Sublist.refl _, rfl⟩
  | cons a rest ih =>
    obtain ⟨first, hfirst, hrun⟩ := run_tryStep s a
    obtain ⟨last, hlast, hrest⟩ := ih (s.tryStep a).1
    exact ⟨first ++ last, hfirst.append hlast, run_trans hrun hrest⟩

theorem tryStep_eq (h : Transition s a t es) : s.tryStep a = (t, es) := by
  rw [tryStep, h.step_eq]
  rfl

theorem tryStep_of_none (h : s.step a = none) : s.tryStep a = (s, []) := by
  rw [tryStep, h]
  rfl

/-- A step is impossible and changes nothing, or it is taken. -/
theorem tryStep_cases (s : Spool) (a : Action) :
    (s.step a = none ∧ s.tryStep a = (s, [])) ∨
      ∃ t es, Transition s a t es ∧ s.tryStep a = (t, es) := by
  cases h : s.step a with
  | none => exact .inl ⟨rfl, tryStep_of_none h⟩
  | some r => exact .inr ⟨r.1, r.2, .of_step h, tryStep_eq (.of_step h)⟩

/-! ## Polls are runs -/

/-- One spool becomes another by steps of one call that waits. -/
def Takes (call : Nat) (s t : Spool) (es : List Effect) : Prop :=
  ∃ steps : List Action, (∀ a ∈ steps, a.waiting? = some call) ∧ s.run steps = some (t, es)

namespace Takes

theorem refl (call : Nat) (s : Spool) : Takes call s s [] := ⟨[], nofun, rfl⟩

theorem trans (h : Takes call s t es) (hrest : Takes call t u fs) :
    Takes call s u (es ++ fs) := by
  obtain ⟨first, hfirst, hrun⟩ := h
  obtain ⟨last, hlast, hafter⟩ := hrest
  exact ⟨first ++ last, List.forall_mem_append.mpr ⟨hfirst, hlast⟩, run_trans hrun hafter⟩

theorem of_tryStep (s : Spool) (h : a.waiting? = some call) :
    Takes call s (s.tryStep a).1 (s.tryStep a).2 := by
  obtain ⟨taken, hsub, hrun⟩ := run_tryStep s a
  refine ⟨taken, fun b hb => ?_, hrun⟩
  rw [List.mem_singleton.mp (hsub.subset hb)]
  exact h

theorem of_tryAll (s : Spool) (actions : List Action) (h : ∀ a ∈ actions, a.waiting? = some call) :
    Takes call s (s.tryAll actions).1 (s.tryAll actions).2 := by
  obtain ⟨taken, hsub, hrun⟩ := run_tryAll s actions
  exact ⟨taken, fun b hb => h b (hsub.subset hb), hrun⟩

end Takes

theorem rearm_effects (s : Spool) (call : Nat) : (s.tryStep (.rearm call)).2 = [] := by
  obtain ⟨-, heq⟩ | ⟨t, es, step, heq⟩ := tryStep_cases s (.rearm call)
  · rw [heq]
  · rw [heq]
    cases step
    rfl

theorem look_effects (s : Spool) (call : Nat)
    (h : ((s.tryAll [.rearm call, .look call]).2.contains (.drained call)) = false) :
    (s.tryAll [.rearm call, .look call]).2 = [] := by
  simp only [tryAll, rearm_effects, List.nil_append, List.append_nil] at h ⊢
  obtain ⟨-, heq⟩ | ⟨t, es, step, heq⟩ := tryStep_cases (s.tryStep (.rearm call)).1 (.look call)
  · rw [heq]
  · rw [heq] at h ⊢
    cases step with
    | lookDrained => simp at h
    | park => rfl

theorem pursue_effects (s : Spool) (call : Nat)
    (h : ((s.tryStep (.pursue call)).2.contains (.shutDown call)) = false) :
    (s.tryStep (.pursue call)).2 = [] := by
  obtain ⟨-, heq⟩ | ⟨t, es, step, heq⟩ := tryStep_cases s (.pursue call)
  · rw [heq]
  · rw [heq] at h ⊢
    cases step with
    | claimTaken | joinDone | joinLost => simp at h
    | _ => rfl

theorem takes_expire (s : Spool) (call : Nat) :
    Takes call s (s.expire call).spool (s.expire call).effects :=
  .of_tryStep s rfl

theorem takes_pollDrain (s : Spool) (call : Nat) (late : Bool) :
    Takes call s (s.pollDrain call late).spool (s.pollDrain call late).effects := by
  have hlooked : Takes call s _ _ :=
    .of_tryAll s [.rearm call, .look call] (by simp [Action.waiting?])
  unfold pollDrain
  dsimp only
  split
  · exact hlooked
  · next hbusy =>
    split
    · rw [look_effects s call (by simpa using hbusy)] at hlooked
      exact hlooked.trans (takes_expire _ call)
    · exact hlooked

theorem takes_pollWorker (s : Spool) (call : Nat) (late : Bool) :
    Takes call s (s.pollWorker call late).spool (s.pollWorker call late).effects := by
  have hpursued : Takes call s _ _ := .of_tryStep (a := .pursue call) s rfl
  unfold pollWorker
  dsimp only
  split
  · exact hpursued
  · next hbusy =>
    split
    · rw [pursue_effects s call (by simpa using hbusy)] at hpursued
      exact hpursued.trans (takes_expire _ call)
    · exact hpursued

theorem takes_joinWorker (s : Spool) (call : Nat) (late : Bool) :
    Takes call s (s.joinWorker call late).spool (s.joinWorker call late).effects := by
  have hpursued : Takes call s _ _ := .of_tryStep (a := .pursue call) s rfl
  unfold joinWorker
  dsimp only
  split
  · exact hpursued
  · exact hpursued.trans (takes_pollWorker _ call late)

theorem takes_pollShutdown (s : Spool) (call : Nat) (late : Bool) :
    Takes call s (s.pollShutdown call late).spool (s.pollShutdown call late).effects := by
  have hdrained := takes_pollDrain s call late
  unfold pollShutdown
  dsimp only
  split
  · exact hdrained.trans (takes_joinWorker _ call late)
  · exact hdrained

/-- A poll takes steps of the call alone. -/
theorem takes_poll (s : Spool) (call : Nat) (late : Bool) :
    Takes call s (s.poll call late).spool (s.poll call late).effects := by
  unfold poll
  split
  · exact takes_pollShutdown s call late
  · exact takes_pollWorker s call late
  · exact .refl call s
  · exact takes_pollDrain s call late

/-! ## When a poll has which answer -/

/-- The call is gone. -/
def leave (s : Spool) (call : Nat) : Spool := (s.endWaiter call).endShutdown call

/-- The call has got the right to wait for the worker's end. -/
def claim (s : Spool) (call : Nat) : Spool :=
  { s.endWaiter call with
    unclaimed := false
    shutdowns := s.shutdowns.put call .joining }

/-- Only the right to wait for the worker's end is left behind by a call that has got it and is
gone. -/
theorem leave_claim (s : Spool) (call : Nat) :
    (s.claim call).leave call = { s.leave call with unclaimed := false } := by
  simp only [claim, leave, endWaiter, endShutdown, Calls.remove_remove, Calls.remove_put]

/-- The places where a call can wait. -/
inductive Waits (s : Spool) (call : Nat) : Prop where
  | draining {w : Waiter} (hw : s.waiters.find? call = some w)
      (hphase : s.shutdowns.find? call = none ∨ s.shutdowns.find? call = some .draining)
  | joining (hw : s.waiters.find? call = none) (hphase : s.shutdowns.find? call = some .joining)

/-- What a poll of a call that waits for the worker can come to. -/
inductive WorkerPoll (s : Spool) (call : Nat) (late : Bool) : Polled → Prop where
  | gone (hgone : s.worker.isAlive = false) : WorkerPoll s call late
      ⟨s.leave call, s.worker.lossReports ++ [.shutDown call], some (.ok ())⟩
  | expired (halive : s.worker.isAlive = true) (hlate : late = true) : WorkerPoll s call late
      ⟨s.leave call, [.detached], some (.error (.drainTimeout s.pending))⟩
  | asleep (halive : s.worker.isAlive = true) (hearly : late = false) : WorkerPoll s call late
      ⟨s, [], none⟩

/-- What a poll of a call that waits can come to. -/
inductive Poll (s : Spool) (call : Nat) (late : Bool) : Polled → Prop where
  -- A call that drains, by itself or on the way to the worker
  | drained {w : Waiter} (hw : s.waiters.find? call = some w) (hawake : w.isAwake = true)
      (hnone : s.pending = 0) (hphase : s.shutdowns.find? call = none) :
      Poll s call late ⟨s.leave call, [.drained call], some (.ok ())⟩
  | expired {w : Waiter} (hw : s.waiters.find? call = some w)
      (hbusy : w.isAwake = true → s.pending ≠ 0) (hlate : late = true) :
      Poll s call late ⟨s.leave call, [], some (.error (.drainTimeout s.pending))⟩
  | asleep {w : Waiter} (hw : s.waiters.find? call = some w)
      (hbusy : w.isAwake = true → s.pending ≠ 0) (hearly : late = false)
      (hphase : s.shutdowns.find? call = none ∨ s.shutdowns.find? call = some .draining) :
      Poll s call late ⟨s.putWaiter call w.sleep, [], none⟩
  -- A call that shuts down and finds the spool drained
  | overtaken {w : Waiter} (hw : s.waiters.find? call = some w) (hawake : w.isAwake = true)
      (hnone : s.pending = 0) (hphase : s.shutdowns.find? call = some .draining)
      (hclaimed : s.unclaimed = false) :
      Poll s call late ⟨s.leave call, [.drained call, .shutDown call], some (.ok ())⟩
  | claims {w : Waiter} {p : Polled} (hw : s.waiters.find? call = some w)
      (hawake : w.isAwake = true) (hnone : s.pending = 0)
      (hphase : s.shutdowns.find? call = some .draining) (hunclaimed : s.unclaimed = true)
      (hp : WorkerPoll (s.claim call) call late p) :
      Poll s call late ⟨p.spool, .drained call :: p.effects, p.result?⟩
  -- A call that shuts down and waits for the worker
  | joining {p : Polled} (hw : s.waiters.find? call = none)
      (hphase : s.shutdowns.find? call = some .joining) (hp : WorkerPoll s call late p) :
      Poll s call late p

/-- A call that is awake where no slot is taken finds the spool drained. -/
theorem tryAll_look_drained {w : Waiter} (hw : s.waiters.find? call = some w)
    (hawake : w.isAwake = true) (hnone : s.pending = 0) :
    s.tryAll [.rearm call, .look call] =
      ({ s.endWaiter call with shutdowns := s.shutdowns.modify call ShutdownPhase.drained },
        [.drained call]) := by
  cases hparked : w.parked with
  | false =>
    simp [tryAll, tryStep, step, hw, hparked, hnone, endWaiter]
  | true =>
    have hnotified : w.notified = true := by simpa [Waiter.isAwake, hparked] using hawake
    have hrearmed := tryStep_eq (.rearm hw hparked hnotified)
    have hlooked := tryStep_eq (Transition.lookDrained (s := s.putWaiter call {})
      (Calls.find?_put_self hw _) rfl hnone)
    simp only [tryAll, hrearmed]
    simp only [putWaiter, Calls.remove_put] at hlooked
    simp [hlooked, endWaiter]

/-- A call that sleeps, or looks where a slot is taken, sleeps then. -/
theorem tryAll_look_busy {w : Waiter} (hw : s.waiters.find? call = some w)
    (hbusy : w.isAwake = true → s.pending ≠ 0) :
    s.tryAll [.rearm call, .look call] = (s.putWaiter call w.sleep, []) := by
  cases hparked : w.parked with
  | false =>
    have hsome := hbusy (by simp [Waiter.isAwake, hparked])
    simp [tryAll, tryStep, step, hw, hparked, hsome, Waiter.sleep]
  | true =>
    cases hnotified : w.notified with
    | false =>
      have hsame : w.sleep = w := by
        cases w
        simp_all [Waiter.sleep]
      have hput : s.putWaiter call w.sleep = s := by
        rw [hsame, putWaiter, Calls.put_self hw]
      simp [tryAll, tryStep, step, hw, hparked, hnotified, hput]
    | true =>
      have hsome := hbusy (by simp [Waiter.isAwake, hnotified])
      have hrearmed := tryStep_eq (.rearm hw hparked hnotified)
      have hlooked := tryStep_eq (Transition.park (s := s.putWaiter call {})
        (Calls.find?_put_self hw _) rfl hsome)
      simp only [tryAll, hrearmed]
      simp only [putWaiter, Calls.put_put] at hlooked
      simp [hlooked, putWaiter, Waiter.sleep, hparked]

theorem expire_of_draining {w : Waiter} (hw : s.waiters.find? call = some w)
    (hphase : s.shutdowns.find? call = none ∨ s.shutdowns.find? call = some .draining) :
    s.expire call = ⟨s.leave call, [], some (.error (.drainTimeout s.pending))⟩ := by
  rcases hphase with hphase | hphase
  · simp [expire, tryStep_eq (.abandonWait hw hphase), leave, endWaiter, endShutdown,
      Calls.remove_of_none hphase]
  · simp [expire, tryStep_eq (.abandonDraining hphase), leave, endWaiter, endShutdown]

theorem expire_of_joining (hw : s.waiters.find? call = none)
    (hphase : s.shutdowns.find? call = some .joining) :
    s.expire call = ⟨s.leave call, [.detached], some (.error (.drainTimeout s.pending))⟩ := by
  simp [expire, tryStep_eq (.abandonJoining hphase), leave, endWaiter, endShutdown,
    Calls.remove_of_none hw]

/-- A call that finds the spool drained says so, whatever the time. -/
theorem pollDrain_drained {w : Waiter} (hw : s.waiters.find? call = some w)
    (hawake : w.isAwake = true) (hnone : s.pending = 0) :
    s.pollDrain call late =
      ⟨{ s.endWaiter call with shutdowns := s.shutdowns.modify call ShutdownPhase.drained },
        [.drained call], some (.ok ())⟩ := by
  simp [pollDrain, tryAll_look_drained hw hawake hnone]

theorem pollDrain_leaves {w : Waiter} (hw : s.waiters.find? call = some w)
    (hawake : w.isAwake = true) (hnone : s.pending = 0) (hphase : s.shutdowns.find? call = none) :
    s.pollDrain call late = ⟨s.leave call, [.drained call], some (.ok ())⟩ := by
  rw [pollDrain_drained hw hawake hnone]
  simp [leave, endShutdown, endWaiter, Calls.modify_of_none hphase, Calls.remove_of_none hphase]

/-- A call that does not find the spool drained stops when its time is up. -/
theorem pollDrain_expired {w : Waiter} (hw : s.waiters.find? call = some w)
    (hbusy : w.isAwake = true → s.pending ≠ 0)
    (hphase : s.shutdowns.find? call = none ∨ s.shutdowns.find? call = some .draining) :
    s.pollDrain call true = ⟨s.leave call, [], some (.error (.drainTimeout s.pending))⟩ := by
  have hasleep : (s.putWaiter call w.sleep).waiters.find? call = some w.sleep :=
    Calls.find?_put_self hw _
  have hexpired := expire_of_draining hasleep hphase
  simp only [leave, endWaiter, endShutdown, putWaiter, Calls.remove_put] at hexpired
  simp [pollDrain, tryAll_look_busy hw hbusy, putWaiter, hexpired, leave, endWaiter, endShutdown]

/-- A call that does not find the spool drained sleeps if there is time. -/
theorem pollDrain_asleep {w : Waiter} (hw : s.waiters.find? call = some w)
    (hbusy : w.isAwake = true → s.pending ≠ 0) :
    s.pollDrain call false = ⟨s.putWaiter call w.sleep, [], none⟩ := by
  simp [pollDrain, tryAll_look_busy hw hbusy]

theorem workerPoll (hw : s.waiters.find? call = none)
    (hphase : s.shutdowns.find? call = some .joining) :
    WorkerPoll s call late (s.pollWorker call late) := by
  have hleave : s.endShutdown call = s.leave call := by
    simp [leave, endShutdown, endWaiter, Calls.remove_of_none hw]
  cases halive : s.worker.isAlive with
  | false =>
    have hover : WorkerPoll s call late _ := .gone halive
    cases hworker : s.worker with
    | done =>
      have hstep := tryStep_eq (.joinDone hphase hworker)
      rw [hworker] at hover
      simp only [pollWorker, hstep]
      simpa [← hleave, endShutdown, Worker.lossReports] using hover
    | lost loss =>
      have hstep := tryStep_eq (.joinLost hphase hworker)
      rw [hworker] at hover
      simp only [pollWorker, hstep]
      simpa [← hleave, endShutdown, Worker.lossReports] using hover
    | _ =>
      rw [hworker] at halive
      cases halive
  | true =>
    have hstep : s.tryStep (.pursue call) = (s, []) := by
      refine tryStep_of_none ?_
      simp only [step, hphase, Option.bind_some, pursue]
      cases hworker : s.worker <;> simp_all [Worker.isAlive]
    cases late with
    | true =>
      simp only [pollWorker, hstep, expire_of_joining hw hphase]
      exact .expired halive rfl
    | false =>
      simp only [pollWorker, hstep]
      exact .asleep halive rfl

/-- A call that finds the right to wait for the worker taken leaves. -/
theorem joinWorker_overtaken (hphase : s.shutdowns.find? call = some .claiming)
    (hclaimed : s.unclaimed = false) :
    s.joinWorker call late = ⟨s.endShutdown call, [.shutDown call], some (.ok ())⟩ := by
  simp [joinWorker, tryStep_eq (.claimTaken hphase hclaimed), endShutdown]

/-- A call that gets the right to wait for the worker does so. -/
theorem joinWorker_claims (hphase : s.shutdowns.find? call = some .claiming)
    (hunclaimed : s.unclaimed = true) :
    s.joinWorker call late =
      ({ s with unclaimed := false }.putShutdown call .joining).pollWorker call late := by
  simp [joinWorker, tryStep_eq (.claim hphase hunclaimed), putShutdown]

theorem poll_of_drain (hphase : s.shutdowns.find? call = none) :
    s.poll call late = s.pollDrain call late := by
  simp [poll, hphase]

theorem poll_of_joining (hphase : s.shutdowns.find? call = some .joining) :
    s.poll call late = s.pollWorker call late := by
  simp [poll, hphase]

theorem poll_of_draining_busy (hphase : s.shutdowns.find? call = some .draining)
    (hbusy : (s.pollDrain call late).result? ≠ some (.ok ())) :
    s.poll call late = s.pollDrain call late := by
  simp only [poll, hphase, pollShutdown]

/-- A poll of a call that drains in order to shut the spool down, and finds it drained. -/
theorem poll_of_draining {w : Waiter} (hphase : s.shutdowns.find? call = some .draining)
    (hw : s.waiters.find? call = some w) (hawake : w.isAwake = true) (hnone : s.pending = 0) :
    Poll s call late (s.poll call late) := by
  let drained : Spool :=
    { s.endWaiter call with shutdowns := s.shutdowns.modify call ShutdownPhase.drained }
  have hclaiming : drained.shutdowns.find? call = some .claiming := by
    simp [drained, Calls.find?_modify, hphase, ShutdownPhase.drained]
  have hpoll : s.poll call late = { drained.joinWorker call late with
      effects := .drained call :: (drained.joinWorker call late).effects } := by
    simp only [poll, hphase, pollShutdown, pollDrain_drained hw hawake hnone]
    rfl
  rw [hpoll]
  cases hclaim : s.unclaimed with
  | false =>
    have hleave : drained.endShutdown call = s.leave call := by
      simp only [drained, leave, endShutdown, endWaiter, Calls.remove_modify]
    rw [joinWorker_overtaken hclaiming hclaim, hleave]
    exact .overtaken hw hawake hnone hphase hclaim
  | true =>
    have hclaimed : { drained with unclaimed := false }.putShutdown call .joining = s.claim call := by
      simp only [drained, claim, putShutdown, endWaiter, Calls.put_modify]
    rw [joinWorker_claims hclaiming hclaim, hclaimed]
    refine .claims hw hawake hnone hphase hclaim (workerPoll ?_ ?_)
    · simp [claim, endWaiter, Calls.find?_remove]
    · exact Calls.find?_put_self hphase _

theorem poll_cases (h : s.Waits call) (late : Bool) : Poll s call late (s.poll call late) := by
  cases h with
  | joining hw hphase =>
    rw [poll_of_joining hphase]
    exact .joining hw hphase (workerPoll hw hphase)
  | @draining w hw hphase =>
    by_cases hdrained : w.isAwake = true ∧ s.pending = 0
    · obtain ⟨hawake, hnone⟩ := hdrained
      rcases hphase with hphase | hphase
      · rw [poll_of_drain hphase, pollDrain_leaves hw hawake hnone hphase]
        exact .drained hw hawake hnone hphase
      · exact poll_of_draining hphase hw hawake hnone
    · have hbusy : w.isAwake = true → s.pending ≠ 0 := fun hawake hnone => hdrained ⟨hawake, hnone⟩
      -- Where the spool is not drained it does not matter why the call drains it.
      have hpoll : ∀ {polled}, s.pollDrain call late = polled → polled.result? ≠ some (.ok ()) →
          s.poll call late = polled := by
        rintro polled rfl hresult
        rcases hphase with hphase | hphase
        · exact poll_of_drain hphase
        · exact poll_of_draining_busy hphase hresult
      cases late with
      | true =>
        rw [hpoll (pollDrain_expired hw hbusy hphase) nofun]
        exact .expired hw hbusy rfl
      | false =>
        rw [hpoll (pollDrain_asleep hw hbusy) nofun]
        exact .asleep hw hbusy rfl hphase

/-! ## What a poll leaves alone -/

/-- A spool without the calls that wait: its queue, its worker and its handles. -/
def work (s : Spool) : Spool := { s with waiters := {}, shutdowns := {}, unclaimed := true }

theorem WorkerPoll.work_eq {p : Polled} (h : WorkerPoll s call late p) : p.spool.work = s.work := by
  cases h <;> rfl

/-- A poll changes nothing but who waits. -/
theorem Poll.work_eq {p : Polled} (h : Poll s call late p) : p.spool.work = s.work := by
  cases h with
  | claims hw hawake hnone hphase hunclaimed hp => exact hp.work_eq
  | joining hw hphase hp => exact hp.work_eq
  | _ => rfl

theorem Poll.pending_eq {p : Polled} (h : Poll s call late p) : p.spool.pending = s.pending := by
  have hwork := congrArg Spool.pending h.work_eq
  exact hwork

theorem Poll.closed_eq {p : Polled} (h : Poll s call late p) : p.spool.closed = s.closed := by
  have hwork := congrArg Spool.closed h.work_eq
  exact hwork

/-- A poll that waits for the worker leaves a call without an answer where it was. -/
theorem WorkerPoll.spool_eq {p : Polled} (h : WorkerPoll s call late p) (hnone : p.result? = none) :
    p.spool = s := by
  cases h with
  | asleep => rfl
  | _ => cases hnone

/-- A call that was polled and has no answer still waits. -/
theorem Poll.waits {p : Polled} (h : Poll s call late p) (hnone : p.result? = none) :
    p.spool.Waits call := by
  cases h with
  | asleep hw hbusy hearly hphase => exact .draining (Calls.find?_put_self hw _) hphase
  | claims hw hawake hdrained hphase hunclaimed hp =>
    rw [hp.spool_eq hnone]
    refine .joining ?_ (Calls.find?_put_self hphase _)
    simp [claim, endWaiter, Calls.find?_remove]
  | joining hw hphase hp =>
    rw [hp.spool_eq hnone]
    exact .joining hw hphase
  | _ => cases hnone

theorem shutdown_of_other (step : Transition s a t es) (hother : a.waiting? ≠ some call) :
    t.shutdowns.find? call = s.shutdowns.find? call := by
  have hne : ∀ {other : Nat}, a.waiting? = some other → call ≠ other := by
    rintro other hwaiting rfl
    exact hother hwaiting
  cases step with
  | shutdown => exact Calls.find?_add_of_ne _ (hne rfl) _
  | lookDrained =>
    simp only [Calls.find?_modify, if_neg (hne rfl)]
  | abandonDraining | abandonJoining | claimTaken | joinDone | joinLost =>
    exact Calls.find?_remove_of_ne _ (hne rfl)
  | pursueClosing | pursueArming | claim => exact Calls.find?_put_of_ne _ (hne rfl) _
  | _ => rfl

/-- A step of others leaves a call that drains where it is, but may wake it. -/
theorem waiter_of_other (step : Transition s a t es) (hother : a.waiting? ≠ some call) :
    ∃ woken : Bool, t.waiters.find? call =
      (s.waiters.find? call).map fun w => { w with notified := w.notified || woken } := by
  have hsame : (s.waiters.find? call).map (fun w => { w with notified := w.notified || false }) =
      s.waiters.find? call := by simp
  have hne : ∀ {other : Nat}, a.waiting? = some other → call ≠ other := by
    rintro other hwaiting rfl
    exact hother hwaiting
  cases step with
  | wake | wakeFromWrite =>
    refine ⟨true, ?_⟩
    simp only [find?_wakeAll, Bool.or_true]
  | arm | pursueArming =>
    exact ⟨false, (Calls.find?_add_of_ne _ (hne rfl) _).trans hsame.symm⟩
  | lookDrained | abandonWait | abandonDraining =>
    exact ⟨false, (Calls.find?_remove_of_ne _ (hne rfl)).trans hsame.symm⟩
  | park | rearm => exact ⟨false, (Calls.find?_put_of_ne _ (hne rfl) _).trans hsame.symm⟩
  | _ => exact ⟨false, hsame.symm⟩

/-- A call goes on to wait, whatever the others do. -/
theorem Waits.preserve (h : s.Waits call) (step : Transition s a t es)
    (hother : a.waiting? ≠ some call) : t.Waits call := by
  obtain ⟨woken, hwaiter⟩ := waiter_of_other step hother
  have hshutdown := shutdown_of_other step hother
  cases h with
  | draining hw hphase =>
    rw [hw] at hwaiter
    rw [← hshutdown] at hphase
    exact .draining hwaiter hphase
  | joining hw hphase =>
    rw [hw] at hwaiter
    exact .joining hwaiter (hshutdown.trans hphase)

/-- The steps of one call that waits are not those of another. -/
theorem Takes.others {other : Nat} (h : Takes other s t es) (hne : call ≠ other) :
    ∃ steps : List Action, (∀ a ∈ steps, a.waiting? ≠ some call) ∧ s.run steps = some (t, es) := by
  obtain ⟨steps, hsteps, hrun⟩ := h
  refine ⟨steps, fun a ha heq => ?_, hrun⟩
  rw [hsteps a ha] at heq
  exact hne (Option.some.inj heq).symm

theorem Waits.of_takes (h : s.Waits call) {other : Nat} (hne : call ≠ other)
    (htakes : Takes other s t es) : t.Waits call := by
  obtain ⟨steps, hothers, hrun⟩ := htakes.others hne
  exact run_invariant_of (P := fun u => u.Waits call) (fun hu hother step => hu.preserve step hother)
    hrun hothers h

/-- A call that shuts the spool down stands where it stood after every run of the others. -/
theorem shutdown_of_others {others : List Action} (hrun : s.run others = some (t, es))
    (hothers : ∀ a ∈ others, a.waiting? ≠ some call) :
    t.shutdowns.find? call = s.shutdowns.find? call :=
  run_invariant_of (P := fun u => u.shutdowns.find? call = s.shutdowns.find? call)
    (fun hu hother step => (shutdown_of_other step hother).trans hu) hrun hothers rfl

theorem shutdown_of_takes {other : Nat} (hne : call ≠ other) (htakes : Takes other s t es) :
    t.shutdowns.find? call = s.shutdowns.find? call := by
  obtain ⟨steps, hothers, hrun⟩ := htakes.others hne
  exact shutdown_of_others hrun hothers

end Spool

end LogSpool
