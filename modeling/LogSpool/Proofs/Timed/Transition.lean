import LogSpool.Proofs.Spool.Polling
import LogSpool.Timed
set_option autoImplicit false

/-!
# Timed spools: what a move can do

`Transition` says what each move of a timed spool needs and what it does; `step_eq_some_iff`
is the tie to `Timed.step`.  The moves at which a call is polled differ in how the call
comes to it, which `Polls` tells, and in nothing after that.
-/

namespace LogSpool

/-! ## Closing and starting to shut down -/

namespace Spool

variable {s : Spool} {call : Nat}

/-- The spool is closed, and that is reported. -/
def shut (s : Spool) : Spool := { s.close with announcing := false }

/-- What is reported when the spool is closed. -/
def closingReports (s : Spool) : List Effect :=
  if s.announcing || !s.closed then [.reported (.closed s.pending)] else []

/-- A call shuts the spool down. -/
def shutBy (s : Spool) (call : Nat) : Spool :=
  { s.shut with
    waiters := s.waiters.add call {}
    shutdowns := s.shutdowns.add call .draining }

theorem tryStep_announce (s : Spool) : s.tryStep .announce =
    ({ s with announcing := false },
      if s.announcing then [.reported (.closed s.pending)] else []) := by
  cases hnews : s.announcing with
  | false =>
    have hstep : s.step .announce = none := by simp [step, hnews]
    rw [tryStep_of_none hstep, if_neg Bool.false_ne_true, ← hnews]
  | true => rw [tryStep_eq (.announce hnews), if_pos rfl]

/-- What it comes to that a spool is closed. -/
theorem tryAll_closeSteps (hhandles : 0 < s.handles) (hwrites : s.writes.isEmpty = true) :
    s.tryAll closeSteps = (s.shut, s.closingReports) := by
  simp only [tryAll, closeSteps, tryStep_eq (.close hhandles hwrites), tryStep_announce,
    List.nil_append, List.append_nil]
  rfl

/-- What it comes to that a call starts to shut a spool down. -/
theorem tryAll_shutdownSteps (hhandles : 0 < s.handles) (hfresh : s.isFresh call = true)
    (hwrites : s.writes.isEmpty = true) :
    s.tryAll (shutdownSteps call) = (s.shutBy call, s.closingReports) := by
  let closing : Spool := { s with shutdowns := s.shutdowns.add call .closing }
  let closed : Spool := { s.close with shutdowns := s.shutdowns.add call .arming }
  let arming : Spool := { s.shut with shutdowns := s.shutdowns.add call .arming }
  have hclosing : closing.shutdowns.find? call = some .closing := Calls.find?_add_self _ _ _
  have harming : arming.shutdowns.find? call = some .arming := Calls.find?_add_self _ _ _
  have hfirst : s.tryStep (.shutdown call) = (closing, []) := tryStep_eq (.shutdown hhandles hfresh)
  have hsecond : closing.tryStep (.pursue call) = (closed, []) := by
    rw [tryStep_eq (.pursueClosing hclosing hwrites), Calls.put_add]
    rfl
  have hthird : closed.tryStep .announce = (arming, s.closingReports) := tryStep_announce closed
  have hlast : arming.tryStep (.pursue call) = (s.shutBy call, []) := by
    rw [tryStep_eq (.pursueArming harming), Calls.put_add]
    rfl
  simp only [tryAll, shutdownSteps, hfirst, hsecond, hthird, hlast, List.nil_append, List.append_nil]

end Spool

/-! ## Moves -/

namespace Timed

variable {r : Runtime} {t u : Timed} {m : Move} {call : Nat} {ns : List Notice}

/-- A call is ready to drain the spool until an instant. -/
def drainedBy (t : Timed) (call deadline : Nat) : Timed :=
  { t with
    spool := { t.spool with waiters := t.spool.waiters.add call {} }
    deadlines := t.deadlines.add call deadline }

/-- A call has closed the spool and is ready to drain it until an instant. -/
def shutBy (t : Timed) (call deadline : Nat) : Timed :=
  { t with
    spool := t.spool.shutBy call
    deadlines := t.deadlines.add call deadline }

/-- How a call comes to be polled: when it starts, or later. -/
inductive Polls (r : Runtime) (t : Timed) : Move → Nat → Nat → Timed → List Effect → Prop where
  | drain {call timeout : Nat} (hhandles : 0 < t.spool.handles)
      (hfresh : t.spool.isFresh call = true) :
      Polls r t (.drain call timeout) call (t.deadline r timeout)
        (t.drainedBy call (t.deadline r timeout)) []
  | shutdown {call timeout : Nat} (hhandles : 0 < t.spool.handles)
      (hfresh : t.spool.isFresh call = true) (hwrites : t.spool.writes.isEmpty = true)
      (htime : t.now + timeout ≤ r.latest) :
      Polls r t (.shutdown call timeout) call (t.now + timeout)
        (t.shutBy call (t.now + timeout)) t.spool.closingReports
  | again {call deadline : Nat} (hfree : r.oneThread = true → t.spool.isWaking = false)
      (hdeadline : t.deadlines.find? call = some deadline) :
      Polls r t (.poll call) call deadline t []

/-- One possible move: what it needs, what it leaves behind, and what it does. -/
inductive Transition (r : Runtime) (t : Timed) : Move → Timed → List Notice → Prop where
  | other {a : Action} {s : Spool} {es : List Effect} (hother : a.waiting? = none)
      (step : t.spool.Transition a s es) :
      Transition r t (.other a) { t with spool := s } (es.map .spool)
  | close (hhandles : 0 < t.spool.handles) (hwrites : t.spool.writes.isEmpty = true) :
      Transition r t .close { t with spool := t.spool.shut } (t.spool.closingReports.map .spool)
  | polled {m : Move} {call deadline : Nat} {u : Timed} {es : List Effect}
      (h : Polls r t m call deadline u es) :
      Transition r t m (u.pollUntil call deadline).1
        (es.map .spool ++ (u.pollUntil call deadline).2)
  | panic {call timeout : Nat} (hhandles : 0 < t.spool.handles)
      (hfresh : t.spool.isFresh call = true) (htime : r.latest < t.now + timeout) :
      Transition r t (.shutdown call timeout) t [.panicked call]
  | giveUp {call deadline : Nat} {s : Spool} {es : List Effect}
      (hdeadline : t.deadlines.find? call = some deadline)
      (step : t.spool.Transition (.abandon call) s es) :
      Transition r t (.giveUp call)
        { t with spool := s, deadlines := t.deadlines.remove call } (es.map .spool)
  | pass {later : Nat} (hnow : t.now ≤ later) (hlatest : later ≤ r.latest)
      (hdeadlines : ∀ call deadline, t.deadlines.find? call = some deadline → later ≤ deadline) :
      Transition r t (.pass later) { t with now := later } []

namespace Transition

theorem of_shutdown {timeout : Nat} (h : t.step r (.shutdown call timeout) = some (u, ns)) :
    Transition r t (.shutdown call timeout) u ns := by
  simp only [step, Option.ite_none_right_eq_some] at h
  obtain ⟨⟨hhandles, hfresh⟩, h⟩ := h
  unfold Timed.shutdown at h
  split at h
  · next htime =>
    cases h
    exact .panic hhandles hfresh htime
  · next htime =>
    simp only [Option.ite_none_right_eq_some] at h
    obtain ⟨hwrites, h⟩ := h
    rw [Spool.tryAll_shutdownSteps hhandles hfresh hwrites] at h
    cases h
    exact .polled (.shutdown hhandles hfresh hwrites (Nat.not_lt.mp htime))

theorem of_step (h : t.step r m = some (u, ns)) : Transition r t m u ns := by
  cases m with
  | shutdown call timeout => exact of_shutdown h
  | other a =>
    simp only [step, Option.ite_none_right_eq_some] at h
    obtain ⟨hother, h⟩ := h
    obtain ⟨⟨s, es⟩, hstep, heq⟩ := Option.map_eq_some_iff.mp h
    cases heq
    exact .other hother (.of_step hstep)
  | close =>
    simp only [step, Option.ite_none_right_eq_some] at h
    obtain ⟨⟨hhandles, hwrites⟩, h⟩ := h
    rw [Spool.tryAll_closeSteps hhandles hwrites] at h
    cases h
    exact .close hhandles hwrites
  | drain call timeout =>
    obtain ⟨⟨s, es⟩, hstep, heq⟩ := Option.map_eq_some_iff.mp h
    cases Spool.Transition.of_step hstep with
    | arm hhandles hfresh =>
      obtain ⟨rfl, rfl⟩ := Prod.ext_iff.mp heq
      exact .polled (.drain hhandles hfresh)
  | poll call =>
    simp only [step] at h
    split at h
    · cases h
    · next hwaking =>
      obtain ⟨deadline, hdeadline, heq⟩ := Option.map_eq_some_iff.mp h
      have hfree : r.oneThread = true → t.spool.isWaking = false := by simpa using hwaking
      obtain ⟨rfl, rfl⟩ := Prod.ext_iff.mp heq
      exact .polled (.again hfree hdeadline)
  | giveUp call =>
    simp only [step, Option.ite_none_right_eq_some] at h
    obtain ⟨hdeadline, h⟩ := h
    obtain ⟨deadline, hdeadline⟩ := Option.isSome_iff_exists.mp hdeadline
    obtain ⟨⟨s, es⟩, hstep, heq⟩ := Option.map_eq_some_iff.mp h
    cases heq
    exact .giveUp hdeadline (.of_step hstep)
  | pass later =>
    simp only [step, Option.ite_none_right_eq_some] at h
    obtain ⟨⟨hnow, hlatest, hdeadlines⟩, h⟩ := h
    cases h
    refine .pass hnow hlatest fun call deadline hdeadline => ?_
    simpa using Calls.all_iff.mp hdeadlines call deadline hdeadline

theorem step_eq (h : Transition r t m u ns) : t.step r m = some (u, ns) := by
  cases h with
  | other hother step => simp [Timed.step, hother, step.step_eq]
  | close hhandles hwrites =>
    simp [Timed.step, hhandles, hwrites, Spool.tryAll_closeSteps hhandles hwrites]
  | polled h =>
    cases h with
    | drain hhandles hfresh =>
      simp [Timed.step, (Spool.Transition.arm hhandles hfresh).step_eq, await, drainedBy]
    | shutdown hhandles hfresh hwrites htime =>
      simp [Timed.step, Timed.shutdown, hhandles, hfresh, hwrites, Nat.not_lt.mpr htime,
        Spool.tryAll_shutdownSteps hhandles hfresh hwrites, await, shutBy]
    | again hfree hdeadline =>
      have hwaking : (r.oneThread && t.spool.isWaking) = false := by
        cases hone : r.oneThread with
        | false => rfl
        | true => exact hfree hone
      simp [Timed.step, hwaking, hdeadline]
  | panic hhandles hfresh htime => simp [Timed.step, Timed.shutdown, hhandles, hfresh, htime]
  | giveUp hdeadline step => simp [Timed.step, hdeadline, step.step_eq]
  | @pass later hnow hlatest hdeadlines =>
    have hall : t.deadlines.all (later ≤ ·) = true :=
      Calls.all_iff.mpr fun call deadline hdeadline =>
        decide_eq_true (hdeadlines call deadline hdeadline)
    simp [Timed.step, hnow, hlatest, hall]

/-- The moves of a timed spool are its transitions. -/
theorem step_eq_some_iff : t.step r m = some (u, ns) ↔ Transition r t m u ns :=
  ⟨of_step, step_eq⟩

end Transition

end Timed

end LogSpool
