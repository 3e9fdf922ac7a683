import LogSpool.Proofs.Timed.Transition
set_option autoImplicit false

/-!
# Timed spools: runs

A run of a timed spool is, for the spool in it, a run like any other: `spool_of_run`.  And
what a timed spool knows of the calls that wait is `Timely`: each of them stands where it
can be polled, and its time is not over yet.
-/

namespace LogSpool

open Timed (Notice)

/-- What a spool does, among all that a timed spool does. -/
def Timed.effectsOf (ns : List Notice) : List Effect :=
  ns.filterMap fun
    | .spool e => some e
    | _ => none

namespace Timed

variable {r : Runtime} {t u v : Timed} {m : Move} {moves rest : List Move} {call deadline : Nat}
  {ns ms : List Notice} {es : List Effect}

@[simp] theorem effectsOf_append (ns ms : List Notice) :
    effectsOf (ns ++ ms) = effectsOf ns ++ effectsOf ms := List.filterMap_append

@[simp] theorem effectsOf_map (es : List Effect) : effectsOf (es.map .spool) = es := by
  rw [effectsOf, List.filterMap_map]
  exact List.filterMap_some

/-! ## Runs -/

theorem run_nil (r : Runtime) (t : Timed) : t.run r [] = some (t, []) := rfl

theorem run_cons (r : Runtime) (t : Timed) (m : Move) (rest : List Move) :
    t.run r (m :: rest) =
      (t.step r m).bind fun q => (q.1.run r rest).map fun p => (p.1, q.2 ++ p.2) := by
  simp only [run, Option.bind_eq_bind, Option.pure_def]
  cases t.step r m with
  | none => rfl
  | some q =>
    simp only [Option.bind_some]
    cases q.1.run r rest <;> rfl

theorem run_singleton (r : Runtime) (t : Timed) (m : Move) : t.run r [m] = t.step r m := by
  rw [run_cons]
  cases t.step r m with
  | none => rfl
  | some q => simp [run]

theorem run_append (r : Runtime) (t : Timed) (before after : List Move) :
    t.run r (before ++ after) =
      (t.run r before).bind fun q => (q.1.run r after).map fun p => (p.1, q.2 ++ p.2) := by
  induction before generalizing t with
  | nil => cases h : t.run r after <;> simp [run, h]
  | cons m rest ih =>
    rw [List.cons_append, run_cons, run_cons]
    cases t.step r m with
    | none => rfl
    | some q =>
      simp only [Option.bind_some, ih]
      cases q.1.run r rest with
      | none => rfl
      | some p =>
        simp only [Option.bind_some, Option.map_some]
        cases p.1.run r after <;> simp

theorem run_trans {before after : List Move} (h : t.run r before = some (u, ns))
    (hafter : u.run r after = some (v, ms)) : t.run r (before ++ after) = some (v, ns ++ ms) := by
  rw [run_append, h, Option.bind_some, hafter, Option.map_some]

theorem exists_of_run_cons (h : t.run r (m :: rest) = some (v, ns)) :
    ∃ u first last, Transition r t m u first ∧ u.run r rest = some (v, last) ∧
      ns = first ++ last := by
  rw [run_cons] at h
  obtain ⟨⟨u, first⟩, hstep, hrest⟩ := Option.bind_eq_some_iff.mp h
  obtain ⟨⟨w, last⟩, hlast, heq⟩ := Option.map_eq_some_iff.mp hrest
  cases heq
  exact ⟨u, first, last, .of_step hstep, hlast, rfl⟩

/-- The induction over runs: what holds at the start and is kept by every transition after a
run holds after every run. -/
theorem run_induction {t₀ : Timed} {P : List Move → Timed → List Notice → Prop} (base : P [] t₀ [])
    (next : ∀ {moves t ns m u ms}, t₀.run r moves = some (t, ns) → P moves t ns →
      Transition r t m u ms → P (moves ++ [m]) u (ns ++ ms))
    (h : t₀.run r moves = some (t, ns)) : P moves t ns := by
  induction moves using List.reverseRecOn generalizing t ns with
  | nil =>
    cases h
    exact base
  | append_singleton moves m ih =>
    rw [run_append] at h
    obtain ⟨⟨u, before⟩, hbefore, hlast⟩ := Option.bind_eq_some_iff.mp h
    obtain ⟨⟨v, last⟩, hstep, heq⟩ := Option.map_eq_some_iff.mp hlast
    cases heq
    rw [run_singleton] at hstep
    exact next hbefore (ih hbefore) (.of_step hstep)

/-! ## How a call comes to be polled -/

namespace Polls

variable (h : Polls r t m call deadline u es)
include h

theorem now_eq : u.now = t.now := by
  cases h <;> rfl

theorem find?_self : u.deadlines.find? call = some deadline := by
  cases h with
  | again hfree hdeadline => exact hdeadline
  | _ => exact Calls.find?_add_self _ _ _

theorem find?_of_ne {other : Nat} (hne : other ≠ call) :
    u.deadlines.find? other = t.deadlines.find? other := by
  cases h with
  | again => rfl
  | _ => exact Calls.find?_add_of_ne _ hne _

theorem run_spool : ∃ steps, t.spool.run steps = some (u.spool, es) := by
  cases h with
  | drain hhandles hfresh =>
    refine ⟨[.arm call], ?_⟩
    rw [Spool.run_cons_of_transition (.arm hhandles hfresh)]
    rfl
  | shutdown hhandles hfresh hwrites =>
    obtain ⟨taken, -, hrun⟩ := Spool.run_tryAll t.spool (Spool.shutdownSteps call)
    rw [Spool.tryAll_shutdownSteps hhandles hfresh hwrites] at hrun
    exact ⟨taken, hrun⟩
  | again => exact ⟨[], rfl⟩

/-- The call can be polled, if it stands where it can be or is only starting. -/
theorem waits (hwaits : ∀ d, t.deadlines.find? call = some d → t.spool.Waits call) :
    u.spool.Waits call := by
  cases h with
  | drain hhandles hfresh =>
    exact .draining (Calls.find?_add_self _ _ _) (.inl (Spool.isFresh_iff.mp hfresh).2)
  | shutdown =>
    exact .draining (Calls.find?_add_self _ _ _) (.inr (Calls.find?_add_self _ _ _))
  | again hfree hdeadline => exact hwaits deadline hdeadline

theorem waits_of_ne {other : Nat} (hne : other ≠ call) (hwaits : t.spool.Waits other) :
    u.spool.Waits other := by
  cases h with
  | drain =>
    have hwaiter := Calls.find?_add_of_ne t.spool.waiters hne ({} : Waiter)
    cases hwaits with
    | draining hw hphase => exact .draining (hwaiter.trans hw) hphase
    | joining hw hphase => exact .joining (hwaiter.trans hw) hphase
  | shutdown =>
    have hwaiter := Calls.find?_add_of_ne t.spool.waiters hne ({} : Waiter)
    have hshutdown := Calls.find?_add_of_ne t.spool.shutdowns hne ShutdownPhase.draining
    cases hwaits with
    | draining hw hphase =>
      rw [← hshutdown] at hphase
      exact .draining (hwaiter.trans hw) hphase
    | joining hw hphase => exact .joining (hwaiter.trans hw) (hshutdown.trans hphase)
  | again => exact hwaits

/-- A call whose time is not over has time when it is polled. -/
theorem ahead (hahead : ∀ d, t.deadlines.find? call = some d → t.now ≤ d) : t.now ≤ deadline := by
  cases h with
  | drain =>
    unfold Timed.deadline
    split <;> omega
  | shutdown => omega
  | again hfree hdeadline => exact hahead deadline hdeadline

end Polls

/-! ## What comes of a poll -/

theorem settle_of_none {polled : Polled} (h : polled.result? = none) :
    t.settle call polled = ({ t with spool := polled.spool }, polled.effects.map .spool) := by
  simp only [settle, h]

theorem settle_of_some {polled : Polled} {result : WaitResult} (h : polled.result? = some result) :
    t.settle call polled =
      ({ t with spool := polled.spool, deadlines := t.deadlines.remove call },
        polled.effects.map .spool ++ [.answered call result]) := by
  simp only [settle, h]

theorem now_pollUntil (t : Timed) (call deadline : Nat) : (t.pollUntil call deadline).1.now = t.now := by
  unfold pollUntil settle
  split <;> rfl

theorem spool_pollUntil (t : Timed) (call deadline : Nat) :
    (t.pollUntil call deadline).1.spool = (t.spool.poll call (deadline ≤ t.now)).spool := by
  unfold pollUntil settle
  split <;> rfl

/-- What a poll does is what the spool does, and the answer. -/
theorem effectsOf_pollUntil (t : Timed) (call deadline : Nat) :
    effectsOf (t.pollUntil call deadline).2 = (t.spool.poll call (deadline ≤ t.now)).effects := by
  unfold pollUntil settle
  split
  · exact effectsOf_map _
  · rw [effectsOf_append, effectsOf_map]
    simp [effectsOf]

theorem find?_pollUntil_of_ne {other : Nat} (hne : other ≠ call) :
    (t.pollUntil call deadline).1.deadlines.find? other = t.deadlines.find? other := by
  unfold pollUntil settle
  split
  · rfl
  · exact Calls.find?_remove_of_ne _ hne

/-- A call that was polled keeps its deadline, or is answered. -/
theorem find?_pollUntil_self (h : t.deadlines.find? call = some deadline) :
    ((t.pollUntil call deadline).1.deadlines.find? call = some deadline ∧
      (t.spool.poll call (deadline ≤ t.now)).result? = none) ∨
    ((t.pollUntil call deadline).1.deadlines.find? call = none ∧
      ∃ result, (t.spool.poll call (deadline ≤ t.now)).result? = some result ∧
        .answered call result ∈ (t.pollUntil call deadline).2) := by
  cases hresult : (t.spool.poll call (deadline ≤ t.now)).result? with
  | none =>
    rw [pollUntil, settle_of_none hresult]
    exact .inl ⟨h, rfl⟩
  | some result =>
    rw [pollUntil, settle_of_some hresult]
    refine .inr ⟨?_, result, rfl, by simp⟩
    simp [Calls.find?_remove]

theorem answered_of_mem_pollUntil {other : Nat} {result : WaitResult}
    (h : .answered other result ∈ (t.pollUntil call deadline).2) :
    other = call ∧ (t.spool.poll call (deadline ≤ t.now)).result? = some result := by
  unfold pollUntil settle at h
  split at h
  · simp at h
  · next hresult =>
    rw [hresult]
    simpa [eq_comm] using h

/-! ## The spool of a timed spool -/

theorem spool_of_transition (step : Transition r t m u ns) :
    ∃ steps, t.spool.run steps = some (u.spool, effectsOf ns) := by
  cases step with
  | @other a s es hother step =>
    refine ⟨[a], ?_⟩
    rw [Spool.run_cons_of_transition step, effectsOf_map]
    simp
  | close hhandles hwrites =>
    obtain ⟨taken, -, hrun⟩ := Spool.run_tryAll t.spool Spool.closeSteps
    rw [Spool.tryAll_closeSteps hhandles hwrites] at hrun
    exact ⟨taken, by rw [effectsOf_map, hrun]⟩
  | @polled m call deadline u es h =>
    obtain ⟨before, hbefore⟩ := h.run_spool
    obtain ⟨after, -, hafter⟩ := Spool.takes_poll u.spool call (deadline ≤ u.now)
    refine ⟨before ++ after, ?_⟩
    rw [spool_pollUntil, effectsOf_append, effectsOf_map, effectsOf_pollUntil]
    exact Spool.run_trans hbefore hafter
  | panic => exact ⟨[], rfl⟩
  | @giveUp call deadline s es hdeadline step =>
    refine ⟨[.abandon call], ?_⟩
    rw [Spool.run_cons_of_transition step, effectsOf_map]
    simp
  | pass => exact ⟨[], rfl⟩

/-- A run of a timed spool is a run of the spool in it. -/
theorem spool_of_run (h : t.run r moves = some (u, ns)) :
    ∃ steps, t.spool.run steps = some (u.spool, effectsOf ns) := by
  refine run_induction (P := fun _ u ns => ∃ steps, t.spool.run steps = some (u.spool, effectsOf ns))
    ⟨[], rfl⟩ ?_ h
  rintro moves u ns m v ms - ⟨before, hbefore⟩ step
  obtain ⟨after, hafter⟩ := spool_of_transition step
  refine ⟨before ++ after, ?_⟩
  rw [effectsOf_append]
  exact Spool.run_trans hbefore hafter

/-! ## Calls that wait, and the time they have -/

/-- Every call with a deadline can be polled, and its time is not over. -/
structure Timely (t : Timed) : Prop where
  waits : ∀ call deadline, t.deadlines.find? call = some deadline → t.spool.Waits call
  ahead : ∀ call deadline, t.deadlines.find? call = some deadline → t.now ≤ deadline

theorem not_fresh_of_waits {s : Spool} (h : s.Waits call) : s.isFresh call = false := by
  refine Bool.eq_false_iff.mpr fun hfresh => ?_
  obtain ⟨hwaiter, hshutdown⟩ := Spool.isFresh_iff.mp hfresh
  cases h with
  | draining hw => rw [hwaiter] at hw; cases hw
  | joining hw hphase => rw [hshutdown] at hphase; cases hphase

theorem Timely.preserve (h : Timely t) (step : Transition r t m u ns) : Timely u := by
  cases step with
  | @other a s es hother step =>
    have hne : ∀ call, a.waiting? ≠ some call := by
      intro call
      rw [hother]
      nofun
    exact ⟨fun call d hd => (h.waits call d hd).preserve step (hne call), h.ahead⟩
  | close hhandles hwrites =>
    refine ⟨fun call d hd => ?_, h.ahead⟩
    cases h.waits call d hd with
    | draining hw hphase => exact .draining hw hphase
    | joining hw hphase => exact .joining hw hphase
  | @polled m call deadline u es hpolls =>
    have hwaits := hpolls.waits (h.waits call)
    have hpoll := Spool.poll_cases hwaits (deadline ≤ u.now)
    constructor
    · intro other d hd
      rw [spool_pollUntil]
      by_cases heq : other = call
      · subst heq
        rcases find?_pollUntil_self hpolls.find?_self with ⟨-, hnone⟩ | ⟨hnone, -⟩
        · exact hpoll.waits hnone
        · rw [hnone] at hd
          cases hd
      · rw [find?_pollUntil_of_ne heq, hpolls.find?_of_ne heq] at hd
        exact (hpolls.waits_of_ne heq (h.waits other d hd)).of_takes heq (Spool.takes_poll _ _ _)
    · intro other d hd
      rw [now_pollUntil, hpolls.now_eq]
      by_cases heq : other = call
      · subst heq
        rcases find?_pollUntil_self hpolls.find?_self with ⟨hkept, -⟩ | ⟨hnone, -⟩
        · rw [hkept] at hd
          cases hd
          exact hpolls.ahead (h.ahead other)
        · rw [hnone] at hd
          cases hd
      · rw [find?_pollUntil_of_ne heq, hpolls.find?_of_ne heq] at hd
        exact h.ahead other d hd
  | panic => exact h
  | @giveUp call deadline s es hdeadline step =>
    refine ⟨fun other d hd => ?_, fun other d hd => h.ahead other d (Calls.find?_of_remove hd).2⟩
    obtain ⟨hne, hd⟩ := Calls.find?_of_remove hd
    refine (h.waits other d hd).preserve step fun heq => ?_
    exact hne (Option.some.inj heq).symm
  | pass hnow hlatest hdeadlines => exact ⟨h.waits, hdeadlines⟩

/-- At the start nobody waits, and so it is after every run. -/
theorem timely_of_run {capacity : Nat} (h : (start capacity).run r moves = some (t, ns)) :
    Timely t := by
  have hstart : Timely (start capacity) := by
    constructor <;> nofun
  exact run_induction (P := fun _ t _ => Timely t) hstart (fun _ ih step => ih.preserve step) h

end Timed

end LogSpool
