import LogSpool.Proofs.Timed.Work
set_option autoImplicit false

/-!
# Timed spools: a shutdown and its parts

A call that shuts a spool down closes it, drains it, and waits for the worker's end with what is
left of its time.  As long as it drains it is told from a call that only drains, after the spool
was closed, by nothing that anybody notices: `Transition.onlyDraining` and `pollUntil_of_draining`
say so of one move, and `CloseDrainJoin` says what comes of a whole run.

* `shutdown_is_close_drain_join` : a call that shuts a spool down is its three parts, if the end of
  its time can be told; if not it fails before it has done anything, where a call that drains waits.
-/

namespace LogSpool

namespace Timed

variable {r : Runtime} {t u v w : Timed} {m : Move} {rest : List Move} {call deadline timeout : Nat}
  {ns ms es : List Notice}

/-! ## Taking a shutdown for a drain -/

/-- The same, but a call that drains in order to shut the spool down only drains it. -/
def onlyDraining (t : Timed) (call : Nat) : Timed := { t with spool := t.spool.endShutdown call }

theorem find?_onlyDraining (t : Timed) (call : Nat) :
    (t.onlyDraining call).spool.shutdowns.find? call = none := by
  rw [onlyDraining, Spool.endShutdown, Calls.find?_remove, if_pos rfl]

/-- A call that shuts the spool down stands in a phase, and has an instant when its time is up. -/
structure Stands (t : Timed) (call : Nat) (phase : ShutdownPhase) (deadline : Nat) : Prop where
  find?_shutdowns : t.spool.shutdowns.find? call = some phase
  find?_deadlines : t.deadlines.find? call = some deadline

theorem Polls.onlyDraining {other d : Nat} {fs : List Effect} (h : Polls r t m other d w fs)
    (hne : other ≠ call) : Polls r (t.onlyDraining call) m other d (w.onlyDraining call) fs := by
  have hfresh : (t.onlyDraining call).spool.isFresh other = t.spool.isFresh other := by
    simp only [Timed.onlyDraining, Spool.endShutdown, Spool.isFresh, Calls.find?_remove_of_ne _ hne]
  cases h with
  | drain hhandles hother => exact .drain hhandles (hfresh.trans hother)
  | @shutdown _ timeout hhandles hother hwrites htime =>
    have hstate : (t.shutBy other (t.now + timeout)).onlyDraining call =
        (t.onlyDraining call).shutBy other (t.now + timeout) := by
      simp only [Timed.onlyDraining, Timed.shutBy, Spool.shutBy, Spool.shut, Spool.close,
        Spool.endShutdown, Calls.remove_add_of_ne _ hne]
    rw [hstate]
    exact .shutdown hhandles (hfresh.trans hother) hwrites htime
  | again hfree hdeadline => exact .again hfree hdeadline

theorem pollUntil_onlyDraining {other : Nat} (hne : other ≠ call) (d : Nat) :
    (t.onlyDraining call).pollUntil other d =
      ((t.pollUntil other d).1.onlyDraining call, (t.pollUntil other d).2) := by
  have hpoll : (t.onlyDraining call).spool.poll other (d ≤ t.now) =
      (t.spool.poll other (d ≤ t.now)).endShutdown call := Spool.poll_endShutdown hne _
  have hnow : (t.onlyDraining call).now = t.now := rfl
  rw [pollUntil, pollUntil, hnow, hpoll]
  obtain ⟨spool, effects, result⟩ := t.spool.poll other (d ≤ t.now)
  cases result <;> rfl

/-- What anybody else does can be done in the same way. -/
theorem Transition.onlyDraining (h : Stands t call .draining deadline) (step : Transition r t m u ns)
    (hpoll : m ≠ .poll call) (hkept : m ≠ .giveUp call) :
    Transition r (t.onlyDraining call) m (u.onlyDraining call) ns ∧
      Stands u call .draining deadline ∧ ∀ result, .answered call result ∉ ns := by
  obtain ⟨hphase, hd⟩ := h
  have hstale : t.spool.isFresh call = false := by simp [Spool.isFresh, hphase]
  cases step with
  | @other a s fs hother step =>
    have hne : a.waiting? ≠ some call := by
      intro heq
      rw [hother] at heq
      cases heq
    exact ⟨.other hother (step.endShutdown hother call),
      ⟨(Spool.shutdown_of_other step hne).trans hphase, hd⟩, by simp⟩
  | close hhandles hwrites => exact ⟨.close hhandles hwrites, ⟨hphase, hd⟩, by simp⟩
  | @polled m other d w fs hpolls =>
    have hne : call ≠ other := by
      rintro rfl
      cases hpolls with
      | drain hhandles hfresh | shutdown hhandles hfresh =>
        rw [hstale] at hfresh
        cases hfresh
      | again => exact hpoll rfl
    have hpolled : Transition r (t.onlyDraining call) m _ _ := .polled (hpolls.onlyDraining hne.symm)
    rw [pollUntil_onlyDraining hne.symm] at hpolled
    refine ⟨hpolled, ⟨?_, ?_⟩, fun result hmem => ?_⟩
    · rw [spool_pollUntil, Spool.shutdown_of_takes hne (Spool.takes_poll _ _ _)]
      cases hpolls with
      | shutdown => exact (Calls.find?_add_of_ne _ hne _).trans hphase
      | drain | again => exact hphase
    · rw [find?_pollUntil_of_ne hne, hpolls.find?_of_ne hne, hd]
    · rcases List.mem_append.mp hmem with hmem | hmem
      · simp at hmem
      · exact hne (answered_of_mem_pollUntil hmem).1
  | @panic other late hhandles hfresh htime =>
    have hne : other ≠ call := by
      rintro rfl
      rw [hstale] at hfresh
      cases hfresh
    refine ⟨.panic hhandles ?_ htime, ⟨hphase, hd⟩, by simp⟩
    simpa only [Timed.onlyDraining, Spool.endShutdown, Spool.isFresh, Calls.find?_remove_of_ne _ hne]
      using hfresh
  | @giveUp other d s fs hdeadline step =>
    have hne : call ≠ other := by
      rintro rfl
      exact hkept rfl
    have hstep := Spool.step_endShutdown (s := t.spool) (a := .abandon other) rfl hne.symm
    rw [step.step_eq] at hstep
    refine ⟨.giveUp hdeadline (.of_step hstep), ⟨?_, ?_⟩, by simp⟩
    · exact (Spool.shutdown_of_other step fun heq => hne (Option.some.inj heq).symm).trans hphase
    · exact (Calls.find?_remove_of_ne _ hne).trans hd
  | pass hnow hlatest hdeadlines => exact ⟨.pass hnow hlatest hdeadlines, ⟨hphase, hd⟩, by simp⟩

/-! ## Waiting for the worker -/

/-- The same without a call. -/
def without (t : Timed) (call : Nat) : Timed :=
  { t with spool := t.spool.leave call, deadlines := t.deadlines.remove call }

/-- The same, but the right to wait for the worker's end is taken. -/
def claimed (t : Timed) : Timed := { t with spool := { t.spool with unclaimed := false } }

/-- A call that waits for the worker's end until an instant is polled: it is told when the worker
is gone, and else that its time is up, and how many slots are taken, when that is so. -/
inductive AwaitsWorker (t : Timed) (call deadline : Nat) : Timed → List Notice → Prop where
  | gone (hgone : t.spool.worker.isAlive = false) :
      AwaitsWorker t call deadline (t.without call)
        ((t.spool.worker.lossReports ++ [Effect.shutDown call]).map .spool ++
          [.answered call (.ok ())])
  | expired (halive : t.spool.worker.isAlive = true) (hlate : deadline ≤ t.now) :
      AwaitsWorker t call deadline (t.without call)
        [.spool .detached, .answered call (.error (.drainTimeout t.spool.pending))]
  | asleep (halive : t.spool.worker.isAlive = true) (hearly : t.now < deadline) :
      AwaitsWorker t call deadline t []

/-- A call asks for the right to wait for the worker's end, and waits until an instant if it gets
that. -/
inductive Joins (t : Timed) (call deadline : Nat) : Timed → List Notice → Prop where
  | overtaken (hclaimed : t.spool.unclaimed = false) :
      Joins t call deadline t [.spool (.shutDown call), .answered call (.ok ())]
  | claims {u v : Timed} {ns : List Notice} (hunclaimed : t.spool.unclaimed = true)
      (hstands : Stands u call .joining deadline) (hsame : u.without call = t.claimed)
      (hwait : AwaitsWorker u call deadline v ns) : Joins t call deadline v ns

theorem settle_of_workerPoll {p : Polled} (h : t.spool.WorkerPoll call (deadline ≤ t.now) p) :
    AwaitsWorker t call deadline (t.settle call p).1 (t.settle call p).2 := by
  cases h with
  | gone hgone => exact .gone hgone
  | expired halive hlate => exact .expired halive (of_decide_eq_true hlate)
  | asleep halive hearly => exact .asleep halive (Nat.not_le.mp (of_decide_eq_false hearly))

theorem pollUntil_of_joining (hwaits : t.spool.Waits call)
    (hphase : t.spool.shutdowns.find? call = some .joining) (deadline : Nat) :
    AwaitsWorker t call deadline (t.pollUntil call deadline).1 (t.pollUntil call deadline).2 := by
  cases hwaits with
  | draining hw hdraining =>
    rw [hphase] at hdraining
    rcases hdraining with heq | heq <;> cases heq
  | joining hw hjoining =>
    rw [pollUntil, Spool.poll_of_joining hphase]
    exact settle_of_workerPoll (Spool.workerPoll hw hphase)

/-- A call that waits for the worker's end is polled for that, until its time is up. -/
theorem awaitsWorker_of_step (h : Timely t) (hstands : Stands t call .joining deadline)
    (hstep : t.step r (.poll call) = some (u, ns)) : AwaitsWorker t call deadline u ns := by
  have hd := hstands.find?_deadlines
  cases Transition.of_step hstep with
  | polled hpolls =>
    cases hpolls with
    | again hfree hdeadline =>
      cases hd.symm.trans hdeadline
      exact pollUntil_of_joining (h.waits call deadline hd) hstands.find?_shutdowns deadline

/-! ## A poll of a call that still drains -/

/-- A poll of a call that drains in order to shut the spool down is one of a call that only drains,
and if that finds the spool drained the call goes on to the worker in the same poll. -/
theorem pollUntil_of_draining (h : Stands t call .draining deadline) (hwaits : t.spool.Waits call) :
    (Stands (t.pollUntil call deadline).1 call .draining deadline ∧
      (t.pollUntil call deadline).2 = [] ∧
      (t.onlyDraining call).pollUntil call deadline =
        ((t.pollUntil call deadline).1.onlyDraining call, [])) ∨
    (∃ k, (t.pollUntil call deadline).2 = [.answered call (.error (.drainTimeout k))] ∧
      (t.onlyDraining call).pollUntil call deadline = t.pollUntil call deadline) ∨
    ∃ v fs, (t.onlyDraining call).pollUntil call deadline =
        (v, [.spool (.drained call), .answered call (.ok ())]) ∧
      Joins v call deadline (t.pollUntil call deadline).1 fs ∧
      (t.pollUntil call deadline).2 = .spool (.drained call) :: fs := by
  obtain ⟨hphase, hd⟩ := h
  have hdrains := t.find?_onlyDraining call
  have hleave : (t.onlyDraining call).spool.leave call = t.spool.leave call := by
    simp only [Timed.onlyDraining, Spool.leave, Spool.endWaiter, Spool.endShutdown,
      Calls.remove_remove]
  have hpolled := Spool.poll_cases hwaits (deadline ≤ t.now)
  have honly : (t.onlyDraining call).pollUntil call deadline = (t.onlyDraining call).settle call
      ((t.onlyDraining call).spool.pollDrain call (deadline ≤ t.now)) := by
    rw [pollUntil, Spool.poll_of_drain hdrains]
    rfl
  rw [honly, pollUntil]
  generalize t.spool.poll call (deadline ≤ t.now) = p at hpolled
  cases hpolled with
  | drained hw hawake hnone hnophase =>
    rw [hphase] at hnophase
    cases hnophase
  | joining hw hjoining =>
    rw [hphase] at hjoining
    cases hjoining
  | @asleep w hw hbusy hearly =>
    have hasleep : (t.onlyDraining call).spool.pollDrain call false = _ :=
      Spool.pollDrain_asleep hw hbusy
    rw [hearly, hasleep]
    exact .inl ⟨⟨hphase, hd⟩, rfl, rfl⟩
  | expired hw hbusy hlate =>
    have hexpired : (t.onlyDraining call).spool.pollDrain call true = _ :=
      Spool.pollDrain_expired hw hbusy (.inl hdrains)
    rw [hlate, hexpired, hleave]
    exact .inr (.inl ⟨_, rfl, rfl⟩)
  | overtaken hw hawake hnone _ hclaimed =>
    have hdrained : (t.onlyDraining call).spool.pollDrain call (deadline ≤ t.now) = _ :=
      Spool.pollDrain_leaves hw hawake hnone hdrains
    rw [hdrained, hleave]
    exact .inr (.inr ⟨t.without call, _, rfl, .overtaken hclaimed, rfl⟩)
  | @claims _ p hw hawake hnone _ hunclaimed hp =>
    have hdrained : (t.onlyDraining call).spool.pollDrain call (deadline ≤ t.now) = _ :=
      Spool.pollDrain_leaves hw hawake hnone hdrains
    rw [hdrained, hleave]
    let u : Timed := { t with spool := t.spool.claim call }
    have hsame : u.without call = (t.without call).claimed := by
      simp only [u, without, claimed, Spool.leave_claim]
    have hwait : AwaitsWorker u call deadline (u.settle call p).1 (u.settle call p).2 :=
      settle_of_workerPoll hp
    have hjoins : Joins (t.without call) call deadline (u.settle call p).1 (u.settle call p).2 :=
      .claims (u := u) hunclaimed ⟨Calls.find?_put_self hphase _, hd⟩ hsame hwait
    -- The call is polled for the worker's end within the poll at which it drains.
    have hsettle : t.settle call ⟨p.spool, .drained call :: p.effects, p.result?⟩ =
        ((u.settle call p).1, .spool (.drained call) :: (u.settle call p).2) := by
      obtain ⟨spool, effects, result⟩ := p
      cases result <;> rfl
    rw [hsettle]
    exact .inr (.inr ⟨t.without call, _, rfl, hjoins, rfl⟩)

/-! ## A shutdown as a drain and what follows -/

/-- The moves by which a spool is closed and a call starts to drain it, and some moves after that. -/
def closeAndDrain (call timeout : Nat) (rest : List Move) : List Move :=
  .close :: .drain call timeout :: rest

/-- What a run of a call that shuts the spool down comes to, when the same is done by closing the
spool, draining it, and waiting for the worker's end with what is left of the time. -/
inductive CloseDrainJoin (r : Runtime) (t : Timed) (call timeout : Nat) :
    List Move → Timed → List Notice → Prop where
  /-- The call that drains has no answer yet, and neither has the one that shuts down. -/
  | draining {rest : List Move} {u : Timed} {ns : List Notice}
      (hrun : t.run r (closeAndDrain call timeout rest) = some (u.onlyDraining call, ns))
      (hopen : ∀ result, .answered call result ∉ ns)
      (hstands : Stands u call .draining (t.now + timeout)) :
      CloseDrainJoin r t call timeout rest u ns
  /-- The call that drains is told that its time is up, and so is the one that shuts down. -/
  | timedOut {before after : List Move} {u v : Timed} {es gs : List Notice} {k : Nat}
      (hrun : t.run r (closeAndDrain call timeout before) =
        some (v, es ++ [.answered call (.error (.drainTimeout k))]))
      (hopen : ∀ result, .answered call result ∉ es) (hrest : v.run r after = some (u, gs)) :
      CloseDrainJoin r t call timeout (before ++ after) u
        (es ++ [.answered call (.error (.drainTimeout k))] ++ gs)
  /-- Nobody wants the call that drains any more, nor the one that shuts down. -/
  | givenUp {before after : List Move} {u v : Timed} {es gs : List Notice}
      (hrun : t.run r (closeAndDrain call timeout (before ++ [.giveUp call])) = some (v, es))
      (hopen : ∀ result, .answered call result ∉ es) (hrest : v.run r after = some (u, gs)) :
      CloseDrainJoin r t call timeout (before ++ [.giveUp call] ++ after) u (es ++ gs)
  /-- The call that drains is told that the spool is drained, and the one that shuts down goes on to
  the worker. -/
  | joined {before after : List Move} {u v w : Timed} {es fs gs : List Notice}
      (hrun : t.run r (closeAndDrain call timeout before) =
        some (v, es ++ [.spool (.drained call), .answered call (.ok ())]))
      (hopen : ∀ result, .answered call result ∉ es)
      (hjoins : Joins v call (t.now + timeout) w fs) (hrest : w.run r after = some (u, gs)) :
      CloseDrainJoin r t call timeout (before ++ after) u
        (es ++ .spool (.drained call) :: fs ++ gs)

namespace CloseDrainJoin

/-- A run to where the call that drains is polled, and that poll. -/
theorem of_poll (h : Stands t call .draining deadline) (hwaits : t.spool.Waits call) {c : Timed}
    (hdeadline : deadline = c.now + timeout) (hopen : ∀ result, .answered call result ∉ ns)
    (hrun : c.run r (closeAndDrain call timeout rest) =
      some (((t.onlyDraining call).pollUntil call deadline).1,
        ns ++ ((t.onlyDraining call).pollUntil call deadline).2)) :
    CloseDrainJoin r c call timeout rest (t.pollUntil call deadline).1
      (ns ++ (t.pollUntil call deadline).2) := by
  subst hdeadline
  rcases pollUntil_of_draining h hwaits with ⟨hstands, hsilent, honly⟩ | ⟨k, hanswer, honly⟩ |
    ⟨v, fs, honly, hjoins, hnotices⟩
  · rw [honly] at hrun
    rw [hsilent]
    exact .draining hrun (by simpa using hopen) hstands
  · rw [honly, hanswer] at hrun
    rw [hanswer]
    have hdone := timedOut hrun hopen (run_nil r _)
    simpa using hdone
  · rw [honly] at hrun
    rw [hnotices]
    have hdone := joined hrun hopen hjoins (run_nil r _)
    simpa using hdone

theorem start (hhandles : 0 < t.spool.handles) (hfresh : t.spool.isFresh call = true)
    (hwrites : t.spool.writes.isEmpty = true) (htime : t.now + timeout ≤ r.latest) :
    CloseDrainJoin r t call timeout [] ((t.shutBy call (t.now + timeout)).pollUntil call
      (t.now + timeout)).1 (t.spool.closingReports.map .spool ++
        ((t.shutBy call (t.now + timeout)).pollUntil call (t.now + timeout)).2) := by
  have hshutdowns := (Spool.isFresh_iff.mp hfresh).2
  let shut : Timed := { t with spool := t.spool.shut }
  have honly : (t.shutBy call (t.now + timeout)).onlyDraining call =
      shut.drainedBy call (t.now + timeout) := by
    simp only [Timed.onlyDraining, Timed.shutBy, Spool.shutBy, Spool.endShutdown,
      Calls.remove_add hshutdowns]
    rfl
  have hclose : Transition r t .close shut _ := .close hhandles hwrites
  have hpolls : Polls r shut (.drain call timeout) call (shut.deadline r timeout) _ [] :=
    .drain hhandles hfresh
  have hdeadline : shut.deadline r timeout = t.now + timeout := if_pos htime
  rw [hdeadline, ← honly] at hpolls
  have hstands : Stands (t.shutBy call (t.now + timeout)) call .draining (t.now + timeout) :=
    ⟨Calls.find?_add_self _ _ _, Calls.find?_add_self _ _ _⟩
  have hwaits : (t.shutBy call (t.now + timeout)).spool.Waits call :=
    .draining (Calls.find?_add_self _ _ _) (.inr hstands.find?_shutdowns)
  refine of_poll hstands hwaits rfl (by simp) ?_
  rw [closeAndDrain, run_cons, hclose.step_eq, Option.bind_some, run_singleton,
    (Transition.polled hpolls).step_eq]
  rfl

/-- It comes to that when a call that still drains is polled. -/
theorem next_poll {c : Timed} (htimely : Timely t)
    (hrun : c.run r (closeAndDrain call timeout rest) = some (t.onlyDraining call, ns))
    (hopen : ∀ result, .answered call result ∉ ns)
    (hstands : Stands t call .draining (c.now + timeout))
    (step : Transition r t (.poll call) u ms) :
    CloseDrainJoin r c call timeout (rest ++ [.poll call]) u (ns ++ ms) := by
  have hd := hstands.find?_deadlines
  cases step with
  | polled hpolls =>
    cases hpolls with
    | again hfree hdeadline =>
      cases hd.symm.trans hdeadline
      have hagain : Transition r (t.onlyDraining call) (.poll call) _ _ := .polled (.again hfree hd)
      exact of_poll hstands (htimely.waits call _ hd) rfl hopen
        (run_trans hrun ((run_singleton r _ _).trans hagain.step_eq))

/-- It comes to that when nobody wants a call any more that still drains. -/
theorem next_giveUp {c : Timed} (htimely : Timely t)
    (hrun : c.run r (closeAndDrain call timeout rest) = some (t.onlyDraining call, ns))
    (hopen : ∀ result, .answered call result ∉ ns)
    (hstands : Stands t call .draining (c.now + timeout))
    (step : Transition r t (.giveUp call) u ms) :
    CloseDrainJoin r c call timeout (rest ++ [.giveUp call]) u (ns ++ ms) := by
  obtain ⟨hphase, hd⟩ := hstands
  cases step with
  | polled hpolls => cases hpolls
  | giveUp hdeadline step =>
    cases step.step_eq.symm.trans (Spool.Transition.abandonDraining hphase).step_eq
    cases htimely.waits call _ hd with
    | joining hw hjoining =>
      rw [hphase] at hjoining
      cases hjoining
    | draining hw =>
      have hleave : Transition r (t.onlyDraining call) (.giveUp call) _ _ :=
        .giveUp hd (.abandonWait hw (t.find?_onlyDraining call))
      have hlast := run_trans hrun ((run_singleton r _ _).trans hleave.step_eq)
      have hdone := givenUp hlast (by simpa using hopen) (run_nil r _)
      rw [List.append_nil, List.append_nil] at hdone
      exact hdone

theorem next {c : Timed} (h : CloseDrainJoin r c call timeout rest t ns) (htimely : Timely t)
    (step : Transition r t m u ms) : CloseDrainJoin r c call timeout (rest ++ [m]) u (ns ++ ms) := by
  have hstep : t.run r [m] = some (u, ms) := (run_singleton r t m).trans step.step_eq
  cases h with
  | draining hrun hopen hstands =>
    by_cases hpoll : m = .poll call
    · subst hpoll
      exact next_poll htimely hrun hopen hstands step
    · by_cases hkept : m = .giveUp call
      · subst hkept
        exact next_giveUp htimely hrun hopen hstands step
      · obtain ⟨honly, hstill, hsilent⟩ := step.onlyDraining hstands hpoll hkept
        refine .draining (run_trans hrun ((run_singleton r _ _).trans honly.step_eq)) ?_ hstill
        intro result hmem
        exact (List.mem_append.mp hmem).elim (hopen result) (hsilent result)
  | timedOut hrun hopen hrest =>
    rw [List.append_assoc _ _ [m], List.append_assoc _ _ ms]
    exact .timedOut hrun hopen (run_trans hrest hstep)
  | givenUp hrun hopen hrest =>
    rw [List.append_assoc _ _ [m], List.append_assoc _ _ ms]
    exact .givenUp hrun hopen (run_trans hrest hstep)
  | joined hrun hopen hjoins hrest =>
    rw [List.append_assoc _ _ [m], List.append_assoc _ _ ms]
    exact .joined hrun hopen hjoins (run_trans hrest hstep)

theorem of_run (h : Timely t) (htime : t.now + timeout ≤ r.latest)
    (hrun : t.run r (.shutdown call timeout :: rest) = some (u, ns)) :
    CloseDrainJoin r t call timeout rest u ns := by
  obtain ⟨v, first, last, step, hrest, rfl⟩ := exists_of_run_cons hrun
  have hpolls := polls_of_shutdown step htime
  cases step.step_eq.symm.trans (Transition.polled hpolls).step_eq
  -- One move after another, all of them from where the call was polled first.
  refine (run_induction (P := fun rest u ms => Timely u ∧
    CloseDrainJoin r t call timeout rest u (_ ++ ms)) ⟨h.preserve step, ?_⟩ ?_ hrest).2
  · rw [List.append_nil]
    cases hpolls with
    | shutdown hhandles hfresh hwrites => exact start hhandles hfresh hwrites htime
  · rintro rest u ms m v fs - ⟨htimely, hdone⟩ step
    rw [← List.append_assoc]
    exact ⟨htimely.preserve step, hdone.next htimely step⟩

end CloseDrainJoin

/-! ## Starting with any time whatever -/

theorem not_panicked_of_pollUntil (t : Timed) (call deadline other : Nat) :
    .panicked other ∉ (t.pollUntil call deadline).2 := by
  unfold pollUntil settle
  split <;> simp

/-- A call that starts to shut the spool down with an end of its time that can be told does not
fail. -/
theorem step_shutdown_of_tellable (hhandles : 0 < t.spool.handles)
    (hfresh : t.spool.isFresh call = true) (hwrites : t.spool.writes.isEmpty = true)
    (htime : t.now + timeout ≤ r.latest) :
    ∃ u ms, t.step r (.shutdown call timeout) = some (u, ms) ∧ .panicked call ∉ ms := by
  have hpolls : Polls r t (.shutdown call timeout) call _ _ _ :=
    .shutdown hhandles hfresh hwrites htime
  refine ⟨_, _, (Transition.polled hpolls).step_eq, fun hmem => ?_⟩
  rcases List.mem_append.mp hmem with hmem | hmem
  · simp at hmem
  · exact not_panicked_of_pollUntil _ _ _ _ hmem

theorem step_drain_of_busy (hhandles : 0 < t.spool.handles) (hfresh : t.spool.isFresh call = true)
    (hsome : t.spool.pending ≠ 0) (htime : t.now < t.deadline r timeout) :
    ∃ u, t.step r (.drain call timeout) = some (u, []) ∧ u.now = t.now ∧
      u.deadlines.find? call = some (t.deadline r timeout) := by
  let armed := t.drainedBy call (t.deadline r timeout)
  have hpolls : Polls r t (.drain call timeout) call _ armed [] := .drain hhandles hfresh
  have hdrain : armed.spool.shutdowns.find? call = none := (Spool.isFresh_iff.mp hfresh).2
  have hwaiter : armed.spool.waiters.find? call = some {} := Calls.find?_add_self _ _ _
  have hearly : decide (t.deadline r timeout ≤ armed.now) = false :=
    decide_eq_false (Nat.not_le.mpr htime)
  have hasleep : armed.pollUntil call (t.deadline r timeout) =
      ({ armed with spool := armed.spool.putWaiter call (Waiter.sleep {}) }, []) := by
    rw [pollUntil, Spool.poll_of_drain hdrain, hearly, Spool.pollDrain_asleep hwaiter fun _ => hsome]
    rfl
  have hstep := (Transition.polled hpolls).step_eq
  rw [hasleep] at hstep
  exact ⟨_, hstep, rfl, Calls.find?_add_self _ _ _⟩

/-- For every call that shuts a spool down, in whatever state the spool is and whatever its time:

* if the end of its time can be told the call starts, unless somebody is in the middle of a write,
  and does not fail; from then on the spool is closed, and all that is done and answered is what
  comes of closing the spool, draining it with the same time and, when that has an answer, waiting
  for the worker's end with what is left of the time;
* if it cannot be told the call fails at once, before anything is done, so that the spool stays as it
  was, open if it was open; a call that drains is answered then if no slot is taken, and else waits.
-/
theorem shutdown_is_close_drain_join {capacity : Nat} {moves : List Move}
    (h : (start capacity).run r moves = some (t, es)) (timeout : Nat)
    (hhandles : 0 < t.spool.handles) (hfresh : t.spool.isFresh call = true) :
    (t.now + timeout ≤ r.latest →
      (t.spool.writes.isEmpty = true →
        ∃ u ms, t.step r (.shutdown call timeout) = some (u, ms) ∧ .panicked call ∉ ms) ∧
      ∀ rest u ms, t.run r (.shutdown call timeout :: rest) = some (u, ms) →
        u.spool.closed = true ∧ CloseDrainJoin r t call timeout rest u ms ∧
        (Stands u call .joining (t.now + timeout) → ∀ v fs, u.step r (.poll call) = some (v, fs) →
          AwaitsWorker u call (t.now + timeout) v fs)) ∧
    (r.latest < t.now + timeout →
      t.step r (.shutdown call timeout) = some (t, [.panicked call]) ∧
      (t.spool.pending = 0 → ∃ u, u.now = t.now ∧ t.step r (.drain call timeout) =
        some (u, [.spool (.drained call), .answered call (.ok ())])) ∧
      (t.spool.pending ≠ 0 → 0 < r.horizon → ∃ u, t.step r (.drain call timeout) = some (u, []) ∧
        u.now = t.now ∧ u.deadlines.find? call = some (t.now + r.horizon))) := by
  have htimely := timely_of_run h
  refine ⟨fun htime => ⟨fun hwrites => ?_, fun rest u ms hrun => ⟨?_, ?_, ?_⟩⟩,
    fun hlate => ⟨?_, fun hnone => ?_, fun hsome hhorizon => ?_⟩⟩
  · exact step_shutdown_of_tellable hhandles hfresh hwrites htime
  · exact closed_of_shutdown htimely htime hrun
  · exact .of_run htimely htime hrun
  · intro hstands v fs hstep
    have hlater : Timely u := timely_of_run (run_trans h hrun)
    exact awaitsWorker_of_step hlater hstands hstep
  · exact (Transition.panic hhandles hfresh hlate).step_eq
  · exact step_drain_of_empty r timeout hhandles hfresh hnone
  · have hdeadline : t.deadline r timeout = t.now + r.horizon := if_neg (Nat.not_le.mpr hlate)
    rw [← hdeadline]
    exact step_drain_of_busy hhandles hfresh hsome (by omega)

/-- One thread, and a hundred instants. -/
def hundred : Runtime := { latest := 100, horizon := 30, oneThread := true }

/-- A record is being written to the sink. -/
def writing : List Move :=
  [.other (.enter 0 [1]), .other (.advance 0), .other (.advance 0), .other .receive, .other .await]

/-- A timed spool with one slot, whose record is being written to the sink. -/
def busy : Timed := (((start 1).run hundred writing).get rfl).1

/-- A call that shuts the spool down finds it drained and waits for the worker, and is polled again
fifteen instants after its start, while the sink is being flushed. -/
def overdue : List Move :=
  [.pass 5, .other (.finish (.returned 1)), .other .judge, .other .release, .other .wake, .poll 5,
    .other .flush, .other .await, .pass 10, .poll 5, .other (.finishFlush .done)]

/-- The longest time whose end can be told is enough, and with one instant more the call fails:
the spool stays open, where a call that drains waits for thirty instants. -/
theorem shutdown_is_close_drain_join_untellable :
    ∃ u ns ms, (start 1).run hundred writing = some (busy, ns) ∧
      busy.run hundred (.shutdown 5 100 :: overdue) = some (u, ms) ∧
      CloseDrainJoin hundred busy 5 100 overdue u ms ∧
      busy.step hundred (.shutdown 5 101) = some (busy, [.panicked 5]) ∧ busy.spool.closed = false ∧
      ∃ v, busy.step hundred (.drain 5 101) = some (v, []) ∧ v.deadlines.find? 5 = some 30 := by
  have hbusy : (start 1).run hundred writing = some (busy, _) := rfl
  have hhandles : 0 < busy.spool.handles := by decide
  obtain ⟨htold, -⟩ := @shutdown_is_close_drain_join _ _ 5 _ _ _ hbusy 100 hhandles rfl
  obtain ⟨-, huntold⟩ := @shutdown_is_close_drain_join _ _ 5 _ _ _ hbusy 101 hhandles rfl
  obtain ⟨-, hruns⟩ := htold (by decide)
  obtain ⟨-, hdone, -⟩ := hruns overdue _ _ rfl
  obtain ⟨hfails, -, hwaits⟩ := huntold (by decide)
  obtain ⟨v, hdrain, -, hdeadline⟩ := hwaits (by decide) (by decide)
  exact ⟨_, _, _, hbusy, rfl, hdone, hfails, rfl, v, hdrain, hdeadline⟩

end Timed

end LogSpool
