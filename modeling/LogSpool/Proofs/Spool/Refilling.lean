import LogSpool.Proofs.Spool.Polling
import LogSpool.Proofs.Spool.Waking
set_option autoImplicit false

/-!
# Spools: slots that are taken again

A call that waits until no slot is taken is woken when that is so, but it does not remember
why: when it is polled it looks again.  Between the two any number of records can be written.

* `drained_unless_refilled` : a call that waits while no slot is taken is woken, and it finds the
  spool drained unless somebody has taken a slot before it is polled.
-/

namespace LogSpool.Spool

variable {s t u : Spool} {a : Action} {actions others : List Action} {call : Nat}
  {effects es : List Effect}

/-- A call that waits is awake, or somebody is about to wake it. -/
def Roused (s : Spool) (call : Nat) : Prop :=
  ∃ w, s.waiters.find? call = some w ∧ (w.isAwake = true ∨ ∃ a, AboutToWake s a)

/-- Where no slot is taken every call that waits is awake, or about to be woken. -/
theorem Watched.roused (h : Watched s) {w : Waiter} (hw : s.waiters.find? call = some w)
    (hnone : s.pending = 0) : Roused s call := by
  refine ⟨w, hw, ?_⟩
  cases hawake : w.isAwake with
  | true => exact .inl rfl
  | false =>
    have hsleeps : w.parked = true ∧ w.notified = false := by
      simpa [Waiter.isAwake] using hawake
    exact .inr ((h call w hw hsleeps.1 hsleeps.2).resolve_left fun hsome => hsome hnone)

/-- A call that is awake or about to be woken stays so, whatever the others do. -/
theorem Roused.preserve (h : Roused s call) (step : Transition s a t es)
    (hother : a.waiting? ≠ some call) : Roused t call := by
  obtain ⟨w, hw, hrouses⟩ := h
  obtain ⟨woken, hwaiter⟩ := waiter_of_other step hother
  rw [hw, Option.map_some] at hwaiter
  rcases hrouses with hawake | ⟨b, habout⟩
  · refine ⟨_, hwaiter, .inl ?_⟩
    simp only [Waiter.isAwake, Bool.or_eq_true] at hawake ⊢
    exact hawake.imp_right .inl
  · by_cases hsame : a = b
    · -- Everyone is woken, and so is this call.
      subst hsame
      have hwoken : t.waiters.find? call = some { w with notified := true } := by
        rw [habout.waiters_eq step, find?_wakeAll, hw, Option.map_some]
      exact ⟨_, hwoken, .inl (by simp [Waiter.isAwake])⟩
    · exact ⟨_, hwaiter, .inr ⟨b, habout.preserve hsame step⟩⟩

theorem roused_of_run (hrun : s.run others = some (t, es)) (h : Roused s call)
    (hothers : ∀ a ∈ others, a.waiting? ≠ some call) : Roused t call :=
  run_invariant_of (P := fun u => Roused u call) (fun hu hother step => hu.preserve step hother)
    hrun hothers h

/-- Only a call that writes takes a slot. -/
theorem entered_of_refilled (step : Transition s a t es) (hnone : s.pending = 0)
    (hsome : t.pending ≠ 0) :
    ∃ other record, a = .advance other ∧ s.writes.find? other = some ⟨record, .entered⟩ := by
  cases step with
  | @reserve other record hw => exact ⟨other, record, rfl, hw⟩
  | giveBack | release => simp [hnone] at hsome
  | _ => exact absurd hnone hsome

/-- In a run after which a slot is taken, and before which none was, somebody took one where none
was taken. -/
theorem exists_refill (hrun : s.run others = some (t, es)) (hnone : s.pending = 0)
    (hsome : t.pending ≠ 0) :
    ∃ before after other record u fs, others = before ++ .advance other :: after ∧
      s.run before = some (u, fs) ∧ u.pending = 0 ∧
      u.writes.find? other = some ⟨record, .entered⟩ := by
  refine run_induction (P := fun taken t _ => t.pending ≠ 0 →
    ∃ before after other record u fs, taken = before ++ .advance other :: after ∧
      s.run before = some (u, fs) ∧ u.pending = 0 ∧
      u.writes.find? other = some ⟨record, .entered⟩) (fun h => absurd hnone h) ?_ hrun hsome
  intro taken u fs a v _ htaken ih step hsome
  by_cases hempty : u.pending = 0
  · obtain ⟨other, record, rfl, hw⟩ := entered_of_refilled step hempty hsome
    exact ⟨taken, [], other, record, u, fs, rfl, htaken, hempty, hw⟩
  · obtain ⟨before, after, other, record, w, gs, rfl, hbefore, hnone, hw⟩ := ih hempty
    exact ⟨before, after ++ [a], other, record, w, gs, by simp, hbefore, hnone, hw⟩

/-- The answer of a poll of a call that drains and is awake: that the spool is drained, if it is so
at that instant, and else that the time is up, if it is. -/
theorem result_of_awake {w : Waiter} (hw : s.waiters.find? call = some w)
    (hawake : w.isAwake = true) (hdrain : s.shutdowns.find? call = none) (late : Bool) :
    (s.poll call late).result? =
      if s.pending = 0 then some (.ok ())
      else if late then some (.error (.drainTimeout s.pending)) else none := by
  rw [poll_of_drain hdrain]
  split
  · next hnone => rw [pollDrain_drained hw hawake hnone]
  · next hsome =>
    cases late with
    | true => rw [pollDrain_expired hw (fun _ => hsome) (.inl hdrain), if_pos rfl]
    | false => rw [pollDrain_asleep hw (fun _ => hsome), if_neg nofun]

/-- A call drains a spool, and at some instant after it has started no slot is taken.  Whatever the
others do from then on:

* as long as the call is not polled it is awake, or somebody is about to wake it;
* polled when it is awake, it is answered that the spool is drained exactly if no slot is taken at
  the instant of the poll; else it is told that its time is up, if that is so, and else it goes on
  to wait;
* that a slot is taken then can only be because a call that writes has taken one where none was
  taken. -/
theorem drained_unless_refilled (settings : SpoolSettings)
    (h : (start settings.slots).run actions = some (s, effects)) {w : Waiter}
    (hw : s.waiters.find? call = some w) (hdrain : s.shutdowns.find? call = none)
    (hnone : s.pending = 0) (hrun : s.run others = some (t, es))
    (hothers : ∀ a ∈ others, a.waiting? ≠ some call) :
    (∃ v, t.waiters.find? call = some v ∧ (v.isAwake = true ∨ ∃ a, AboutToWake t a) ∧
      (v.isAwake = true → ∀ late, (t.poll call late).result? =
        if t.pending = 0 then some (.ok ())
        else if late then some (.error (.drainTimeout t.pending)) else none)) ∧
    (t.pending ≠ 0 → ∃ before after other record u fs, others = before ++ .advance other :: after ∧
      s.run before = some (u, fs) ∧ u.pending = 0 ∧
      u.writes.find? other = some ⟨record, .entered⟩) := by
  have hwatched := watched_of_run (slots_bounds settings).1 h
  obtain ⟨v, hv, hrouses⟩ := roused_of_run hrun (hwatched.roused hw hnone) hothers
  have hstill := (shutdown_of_others hrun hothers).trans hdrain
  exact ⟨⟨v, hv, hrouses, fun hawake => result_of_awake hv hawake hstill⟩, exists_refill hrun hnone⟩

/-- A record is being written to the sink when a call goes to sleep; then the sink is done with the
record, and its slot is given back. -/
def emptied : List Action :=
  [.enter 0 [1], .advance 0, .advance 0, .receive, .await, .arm 5, .look 5, .finish (.returned 1),
    .judge, .release, .wake]

/-- Another record takes the slot before the call that was woken is polled.  At its last instant the
call is told that its time is up, although no slot was taken while it waited. -/
theorem drained_unless_refilled_late :
    ∃ s effects t, (start ({ capacity := 1 } : SpoolSettings).slots).run emptied = some (s, effects) ∧
      s.waiters.find? 5 = some { parked := true, notified := true } ∧ s.pending = 0 ∧
      s.run [.enter 1 [2], .advance 1, .advance 1] =
        some (t, [.queued 1 [2], .answered 1 (.accepted 1)]) ∧
      (t.poll 5 true).result? = some (.error (.drainTimeout 1)) := by
  obtain ⟨⟨v, hv, -, hresult⟩, -⟩ := @drained_unless_refilled _ _ emptied
    [.enter 1 [2], .advance 1, .advance 1] 5 _ _ { capacity := 1 } rfl
    { parked := true, notified := true } rfl rfl rfl rfl (by decide)
  cases hv
  exact ⟨_, _, _, rfl, rfl, rfl, rfl, hresult rfl true⟩

end LogSpool.Spool
