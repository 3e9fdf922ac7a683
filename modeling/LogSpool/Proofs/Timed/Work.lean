import LogSpool.Proofs.Spool.Bystanders
import LogSpool.Proofs.Spool.Lifecycle
import LogSpool.Proofs.Timed.Deadlines
set_option autoImplicit false

/-!
# Timed spools: the work goes on

The queue, the worker and the calls that write do not notice who waits.  `work_of_run` erases
from a run every call that waits: what is left is a run with the same work and the same
effects of it, in which a call that shut the spool down closed it and did nothing else.
-/

namespace LogSpool

theorem Spool.filter_closingReports (s : Spool) :
    s.closingReports.filter Effect.isWork = s.closingReports := by
  unfold Spool.closingReports
  split <;> rfl

namespace Timed

variable {r : Runtime} {t u v : Timed} {m : Move} {moves rest : List Move} {call timeout : Nat}
  {ns ms : List Notice} {result : WaitResult}

/-! ## Erasing who waits -/

/-- A timed spool where nobody waits. -/
def work (t : Timed) : Timed := { t with spool := t.spool.work, deadlines := {} }

/-- What is done of the work. -/
def worksOf (ns : List Notice) : List Effect := (effectsOf ns).filter Effect.isWork

@[simp] theorem worksOf_append (ns ms : List Notice) :
    worksOf (ns ++ ms) = worksOf ns ++ worksOf ms := by
  simp [worksOf]

/-- What is left of a move when nobody waits: a call that shuts the spool down closes it. -/
def Move.bare (r : Runtime) (now : Nat) : Move → List Move
  | .other a => [.other a]
  | .close => [.close]
  | .shutdown _ timeout => if now + timeout ≤ r.latest then [.close] else []
  | .drain _ _ | .poll _ | .giveUp _ => []
  | .pass later => [.pass later]

/-- The time after a move. -/
def Move.time (now : Nat) : Move → Nat
  | .pass later => later
  | _ => now

/-- What is left of some moves when nobody waits. -/
def bare (r : Runtime) (now : Nat) : List Move → List Move
  | [] => []
  | m :: rest => m.bare r now ++ bare r (m.time now) rest

theorem now_of_transition (step : Transition r t m u ns) : u.now = m.time t.now := by
  cases step with
  | polled h =>
    rw [now_pollUntil, h.now_eq]
    cases h <;> rfl
  | _ => rfl

theorem now_of_others (hrun : t.run r moves = some (u, ns))
    (hothers : ∀ m ∈ moves, ∃ a, m = .other a) : u.now = t.now := by
  induction moves generalizing t ns with
  | nil =>
    cases hrun
    rfl
  | cons m rest ih =>
    obtain ⟨v, first, last, step, hrest, -⟩ := exists_of_run_cons hrun
    obtain ⟨a, rfl⟩ := hothers m List.mem_cons_self
    have hlater := ih hrest fun m hm => hothers m (List.mem_cons_of_mem _ hm)
    exact hlater.trans (now_of_transition step)

/-- A poll does no work. -/
theorem work_pollUntil {deadline : Nat} (h : t.spool.Waits call) :
    (t.pollUntil call deadline).1.work = t.work ∧ worksOf (t.pollUntil call deadline).2 = [] := by
  have hpoll := Spool.poll_cases h (deadline ≤ t.now)
  constructor
  · rw [work, spool_pollUntil, hpoll.work_eq, now_pollUntil]
    rfl
  · rw [worksOf, effectsOf_pollUntil, hpoll.filter_isWork]

/-- What is left of a move at which a call is polled: that the spool is closed, if it is. -/
theorem work_of_polls {deadline : Nat} {w : Timed} {es : List Effect}
    (h : Polls r t m call deadline w es) :
    t.work.run r (m.bare r t.now) = some (w.work, es.map .spool) ∧
      es.filter Effect.isWork = es := by
  cases h with
  | drain => exact ⟨rfl, rfl⟩
  | shutdown hhandles hfresh hwrites htime =>
    have hstep : Transition r t.work .close _ _ := .close hhandles hwrites
    rw [Move.bare, if_pos htime, run_singleton, hstep.step_eq]
    exact ⟨rfl, Spool.filter_closingReports _⟩
  | again => exact ⟨rfl, rfl⟩

/-- What is left of a move does the same work. -/
theorem work_of_transition (h : Timely t) (step : Transition r t m u ns) :
    t.work.run r (m.bare r t.now) = some (u.work, (worksOf ns).map .spool) := by
  cases step with
  | @other a s es hother step =>
    have hworks : es.filter Effect.isWork = es :=
      List.filter_eq_self.mpr fun e he => Spool.isWork_of_transition step hother he
    have hstep : Transition r t.work (.other a) _ _ := .other hother (step.work hother)
    rw [Move.bare, run_singleton, hstep.step_eq, worksOf, effectsOf_map, hworks]
    rfl
  | close hhandles hwrites =>
    have hstep : Transition r t.work .close _ _ := .close hhandles hwrites
    rw [Move.bare, run_singleton, hstep.step_eq, worksOf, effectsOf_map, Spool.filter_closingReports]
    rfl
  | polled hpolls =>
    obtain ⟨hrun, hworks⟩ := work_of_polls hpolls
    obtain ⟨hwork, hnone⟩ := work_pollUntil (hpolls.waits (h.waits _))
    rw [hrun, hwork, worksOf_append, hnone, List.append_nil, worksOf, effectsOf_map, hworks]
  | panic hhandles hfresh htime =>
    rw [Move.bare, if_neg (Nat.not_le.mpr htime)]
    rfl
  | giveUp hdeadline step =>
    obtain ⟨hwork, hworks⟩ := Spool.work_of_abandon step
    rw [worksOf, effectsOf_map, hworks, work, work, hwork]
    rfl
  | pass hnow hlatest hdeadlines =>
    have hstep : Transition r t.work (.pass _) _ _ := .pass hnow hlatest nofun
    rw [Move.bare, run_singleton, hstep.step_eq]
    rfl

/-- What is left of a run when nobody waits does the same work. -/
theorem work_of_run (h : Timely t) (hrun : t.run r moves = some (u, ns)) :
    t.work.run r (bare r t.now moves) = some (u.work, (worksOf ns).map .spool) := by
  induction moves generalizing t ns with
  | nil =>
    cases hrun
    rfl
  | cons m rest ih =>
    obtain ⟨v, first, last, step, hrest, rfl⟩ := exists_of_run_cons hrun
    have hlast := ih (h.preserve step) hrest
    rw [now_of_transition step] at hlast
    rw [bare, worksOf_append, List.map_append]
    exact run_trans (work_of_transition h step) hlast

/-! ## What a shutdown does to a spool -/

/-- A call that starts to shut the spool down, with an end of its time that can be told, is
polled at once. -/
theorem polls_of_shutdown (step : Transition r t (.shutdown call timeout) u ns)
    (htime : t.now + timeout ≤ r.latest) :
    Polls r t (.shutdown call timeout) call (t.now + timeout) (t.shutBy call (t.now + timeout))
      t.spool.closingReports := by
  cases step with
  | polled h =>
    cases h with
    | shutdown hhandles hfresh hwrites => exact .shutdown hhandles hfresh hwrites htime
  | panic hhandles hfresh hlate => omega

theorem run_of_underWay {first : Move} (h : UnderWay r t first call u) :
    ∃ rest ms, t.run r (first :: rest) = some (u, ms) := by
  obtain ⟨hrun, -, -⟩ := h
  exact ⟨_, _, hrun⟩

theorem run_of_answers {first : Move} (h : Answers r t first call result v) :
    ∃ rest ms, t.run r (first :: rest) = some (v, ms) := by
  cases h with
  | @atOnce _ ms hstart => exact ⟨[], ms, (run_singleton r t first).trans hstart⟩
  | @later u _ m ms hopen hstep =>
    obtain ⟨hrun, -, -⟩ := hopen
    exact ⟨_, _, run_trans hrun ((run_singleton r u m).trans hstep)⟩

/-- Once a call has started to shut the spool down, the spool is closed. -/
theorem closed_of_shutdown (h : Timely t) (htime : t.now + timeout ≤ r.latest)
    (hrun : t.run r (.shutdown call timeout :: rest) = some (u, ms)) : u.spool.closed = true := by
  obtain ⟨v, first, last, step, hrest, -⟩ := exists_of_run_cons hrun
  have hpolls := polls_of_shutdown step htime
  have hfirst := step.step_eq.symm.trans (Transition.polled hpolls).step_eq
  cases hfirst
  have hpoll := Spool.poll_cases (hpolls.waits (h.waits call)) (t.now + timeout ≤ t.now)
  obtain ⟨steps, hsteps⟩ := spool_of_run hrest
  refine Spool.closed_of_run hsteps ?_
  rw [spool_pollUntil]
  exact hpoll.closed_eq

/-- Once the worker is done, every record that joined the channel was attempted once, and then
the sink was flushed once. -/
theorem sinkCalls_of_done (settings : SpoolSettings)
    (h : (start settings.slots).run r moves = some (t, ns)) (hdone : t.spool.worker = .done) :
    Spool.attempts (effectsOf ns) = Spool.queued (effectsOf ns) ∧
      Spool.sinkCalls (effectsOf ns) = (Spool.queued (effectsOf ns)).map .write ++ [.flush] := by
  have hone := (Spool.slots_bounds settings).1
  obtain ⟨steps, hsteps⟩ := spool_of_run h
  have hrest := (Spool.accounted_of_run hone hsteps).exhausted (by rw [hdone]; rfl)
  have hflushed := (Spool.flushing_of_run hsteps).flushed (by rw [hdone]; rfl)
  have hattempted := (Spool.settled_of_run hone hsteps hrest.pending).attempted
  refine ⟨hattempted, ?_⟩
  rw [(Spool.sinkUse_of_run hone hsteps).calls, if_pos hflushed, hattempted]

end Timed

end LogSpool
