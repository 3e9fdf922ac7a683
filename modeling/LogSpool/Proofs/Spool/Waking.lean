import LogSpool.Proofs.Spool.Cancelling
set_option autoImplicit false

/-!
# Spools: waking who waits

A call that waits is armed, looks whether a slot is taken, and parks.  The last slot may be
given back at any instant in between, by the worker or by a call whose record was refused,
and taken and given back again before anyone is woken.  `AboutToWake` is what keeps a call
from sleeping on: whoever gave the last slot back wakes everyone who is armed, and nothing
keeps it from doing so.

* `no_wakeup_lost` : a call that sleeps unnoticed has a slot to wait for, or somebody is
  about to wake it; and calls that are stopped take nothing from the others.
-/

namespace LogSpool.Spool

variable {s t : Spool} {a b : Action} {actions : List Action} {effects es : List Effect}

/-! ## Whoever is about to wake -/

/-- The step by which somebody who gave the last taken slot back wakes who waits. -/
inductive AboutToWake (s : Spool) : Action → Prop where
  | worker (h : s.worker = .waking) : AboutToWake s .wake
  | write {call : Nat} {record : Bytes} (h : s.writes.find? call = some ⟨record, .waking⟩) :
      AboutToWake s (.advance call)

namespace AboutToWake

theorem step (h : AboutToWake s a) :
    ∃ t, Transition s a t [] ∧ t.waiters = s.wakeAll.waiters ∧ t.pending = s.pending := by
  cases h with
  | worker hworker => exact ⟨_, .wake hworker, rfl, rfl⟩
  | write hw => exact ⟨_, .wakeFromWrite hw, rfl, rfl⟩

theorem waiters_eq (h : AboutToWake s a) (hstep : Transition s a t es) :
    t.waiters = s.wakeAll.waiters := by
  obtain ⟨u, hu, hwaiters, -⟩ := h.step
  have heq := hstep.step_eq.symm.trans hu.step_eq
  cases heq
  exact hwaiters

/-- Whoever is about to wake stands where it stood. -/
theorem of_writes (h : AboutToWake s a) (hworker : s.worker = .waking → t.worker = .waking)
    (hwrites : ∀ call record, a = .advance call → s.writes.find? call = some ⟨record, .waking⟩ →
      t.writes.find? call = some ⟨record, .waking⟩) : AboutToWake t a := by
  cases h with
  | worker h => exact .worker (hworker h)
  | write h => exact .write (hwrites _ _ rfl h)

/-- Another call that writes moves to another phase, or ends. -/
theorem of_write (h : AboutToWake s a) {call : Nat} (hne : .advance call ≠ a)
    (hworker : t.worker = s.worker)
    (hwrites : ∀ other, other ≠ call → t.writes.find? other = s.writes.find? other) :
    AboutToWake t a := by
  refine h.of_writes (fun hwaking => hworker.trans hwaking) ?_
  rintro other record rfl hother
  have hcall : other ≠ call := fun heq => hne (heq ▸ rfl)
  rw [hwrites other hcall, hother]

theorem of_worker (h : AboutToWake s a) (hworker : s.worker ≠ .waking)
    (hwrites : t.writes = s.writes) : AboutToWake t a :=
  h.of_writes (fun hwaking => absurd hwaking hworker) fun _ _ _ hother => hwrites ▸ hother

theorem of_eq (h : AboutToWake s a) (hworker : t.worker = s.worker)
    (hwrites : t.writes = s.writes) : AboutToWake t a :=
  h.of_writes (fun hwaking => hworker.trans hwaking) fun _ _ _ hother => hwrites ▸ hother

/-- Whatever happens in between, whoever is about to wake stays so. -/
theorem preserve (h : AboutToWake s a) (hne : b ≠ a) (step : Transition s b t es) :
    AboutToWake t a := by
  cases step with
  | @enter call record hhandles hnew =>
    refine h.of_writes id ?_
    rintro other record' rfl hother
    have hcall : other ≠ call := by
      rintro rfl
      rw [hnew] at hother
      cases hother
    exact (Calls.find?_add_of_ne _ hcall _).trans hother
  | reserve | overflow | refuse | giveBack | wakeFromWrite =>
    exact h.of_write hne rfl fun _ hother => Calls.find?_put_of_ne _ hother _
  | send | countLost =>
    exact h.of_write hne rfl fun _ hother => Calls.find?_remove_of_ne _ hother
  | wake hworker =>
    cases h with
    | worker => exact absurd rfl hne
    | write hw => exact .write hw
  | receive hworker | awaitWrite hworker | awaitFlush hworker | finish outcome hworker
  | judge hworker | release hworker | flush hworker | finishFlush outcome hworker =>
    exact h.of_worker (by rw [hworker]; nofun) rfl
  | lose loss hlose =>
    refine h.of_worker (fun hwaking => ?_) rfl
    rw [hwaking] at hlose
    cases loss <;> cases hlose
  | _ => exact h.of_eq rfl rfl

end AboutToWake

/-! ## What a sleeping call waits for -/

/-- A slot is taken, or somebody is about to wake who waits. -/
def Stirring (s : Spool) : Prop := s.pending ≠ 0 ∨ ∃ a, AboutToWake s a

/-- Whoever gives the last taken slot back is about to wake who waits. -/
theorem stirring_of_transition (hslots : Slots s) (h : Stirring s) (step : Transition s b t es) :
    Stirring t ∨ t.waiters = s.wakeAll.waiters := by
  rcases h with hsome | ⟨a, habout⟩
  · cases step with
    | @giveBack call record hw =>
      have hpos := hslots.pending_pos hw rfl
      refine .inl ?_
      by_cases hlast : s.pending = 1
      · have hwaking : (s.writes.put call
            ⟨record, if s.pending == 1 then .waking else .losing⟩).find? call =
              some ⟨record, .waking⟩ := by
          rw [Calls.find?_put_self hw, hlast]
          rfl
        exact .inr ⟨_, .write hwaking⟩
      · refine .inl ?_
        simp only
        omega
    | release hworker =>
      refine .inl ?_
      by_cases hlast : s.pending = 1
      · exact .inr ⟨_, .worker (by simp [hlast])⟩
      · refine .inl ?_
        simp only
        omega
    | reserve => exact .inl (.inl (Nat.succ_ne_zero _))
    | _ => exact .inl (.inl hsome)
  · by_cases hsame : b = a
    · subst hsame
      exact .inr (habout.waiters_eq step)
    · exact .inl (.inr ⟨a, habout.preserve hsame step⟩)

/-- A call that sleeps went to sleep when a slot was taken, or slept before, or was woken. -/
theorem waiter_of_transition (step : Transition s a t es) {call : Nat} {w : Waiter}
    (hw : t.waiters.find? call = some w) (hparked : w.parked = true) :
    s.waiters.find? call = some w ∨ w.notified = true ∨ Stirring t := by
  have hfresh : ∀ {v : Waiter}, v = {} → v.parked ≠ true := by
    rintro v rfl
    nofun
  cases step with
  | arm | pursueArming =>
    rcases Calls.find?_of_add hw with ⟨-, heq⟩ | ⟨-, hbefore⟩
    · exact absurd hparked (hfresh heq)
    · exact .inl hbefore
  | rearm =>
    rcases Calls.find?_of_put hw with ⟨-, heq⟩ | ⟨-, hbefore⟩
    · exact absurd hparked (hfresh heq)
    · exact .inl hbefore
  | park hwas hawake hsome => exact .inr (.inr (.inl hsome))
  | lookDrained | abandonWait | abandonDraining => exact .inl (Calls.find?_of_remove hw).2
  | wakeFromWrite | wake =>
    rw [find?_wakeAll] at hw
    obtain ⟨before, -, rfl⟩ := Option.map_eq_some_iff.mp hw
    exact .inr (.inl rfl)
  | _ => exact .inl hw

/-- A call that sleeps unnoticed has something to wait for. -/
def Watched (s : Spool) : Prop :=
  ∀ call w, s.waiters.find? call = some w → w.parked = true → w.notified = false → Stirring s

theorem Watched.preserve (h : Watched s) (hslots : Slots s) (step : Transition s a t es) :
    Watched t := by
  intro call w hw hparked hunnoticed
  rcases waiter_of_transition step hw hparked with hbefore | hnoticed | hstirring
  · rcases stirring_of_transition hslots (h call w hbefore hparked hunnoticed) step with hstirring | hwoken
    · exact hstirring
    · -- Everyone was woken, and so was this call.
      rw [hwoken, find?_wakeAll] at hw
      obtain ⟨before, -, rfl⟩ := Option.map_eq_some_iff.mp hw
      cases hunnoticed
  · rw [hunnoticed] at hnoticed
    cases hnoticed
  · exact hstirring

/-- In every spool that a run reaches a call that sleeps unnoticed has something to wait for. -/
theorem watched_of_run {capacity : Nat} (hcapacity : 0 < capacity)
    (h : (start capacity).run actions = some (s, effects)) : Watched s :=
  run_induction (P := fun _ s _ => Watched s) (fun _ _ hw => by cases hw)
    (fun hrun ih step => ih.preserve (accounted_of_run hcapacity hrun).slots step) h

/-! ## How a call that waits comes to its answer -/

/-- A call that was woken finds the spool drained, if no slot is taken. -/
theorem drained_of_notified {call : Nat} {w : Waiter} (hw : s.waiters.find? call = some w)
    (hparked : w.parked = true) (hnotified : w.notified = true) (hnone : s.pending = 0) :
    ∃ t u, Transition s (.rearm call) t [] ∧ Transition t (.look call) u [.drained call] :=
  ⟨_, _, .rearm hw hparked hnotified, .lookDrained (Calls.find?_put_self hw _) rfl hnone⟩

/-- Where no slot is taken, a call that waits is at most three steps from its answer: that of
whoever is about to wake it, and two of its own. -/
theorem drained_of_waiting (h : Watched s) {call : Nat} {w : Waiter}
    (hw : s.waiters.find? call = some w) (hnone : s.pending = 0) :
    ∃ actions t u, actions.length ≤ 2 ∧ (∀ a ∈ actions, a = .rearm call ∨ AboutToWake s a) ∧
      s.run actions = some (t, []) ∧ t.step (.look call) = some (u, [.drained call]) := by
  cases hparked : w.parked with
  | false =>
    exact ⟨[], _, _, Nat.zero_le _, nofun, rfl, (Transition.lookDrained hw hparked hnone).step_eq⟩
  | true =>
    cases hnotified : w.notified with
    | true =>
      obtain ⟨t, u, hrearm, hlook⟩ := drained_of_notified hw hparked hnotified hnone
      refine ⟨[.rearm call], t, u, Nat.le_succ _, fun a ha => ?_, ?_, hlook.step_eq⟩
      · exact .inl (List.mem_singleton.mp ha)
      · rw [run_cons_of_transition hrearm]
        rfl
    | false =>
      rcases h call w hw hparked hnotified with hsome | ⟨a, habout⟩
      · exact absurd hnone hsome
      · obtain ⟨v, hwake, hwaiters, hpending⟩ := habout.step
        have hwoken : v.waiters.find? call = some { w with notified := true } := by
          rw [hwaiters, find?_wakeAll, hw]
          rfl
        obtain ⟨t, u, hrearm, hlook⟩ :=
          drained_of_notified hwoken hparked rfl (hpending.trans hnone)
        refine ⟨[a, .rearm call], t, u, Nat.le_refl _, fun b hb => ?_, ?_, hlook.step_eq⟩
        · rcases List.mem_cons.mp hb with rfl | hlast
          · exact .inr habout
          · exact .inl (List.mem_singleton.mp hlast)
        · rw [run_cons_of_transition hwake, run_cons_of_transition hrearm]
          rfl

/-- After every run of a spool with any capacity:

* a call that sleeps and was not woken since it was armed has a slot to wait for, or somebody
  who gave the last slot back is about to wake it;
* whoever is about to wake stays so, whatever happens in between, and then wakes every call
  that waits;
* if no slot is taken, every call that waits is at most that step and two of its own from
  its answer;
* any of the calls that wait can stop, wherever each of them stands.  Beyond that they are
  gone nothing is changed and nothing told, the others wait as before, and every run of the
  others that was possible with them is possible without, with the same effects. -/
theorem no_wakeup_lost (settings : SpoolSettings)
    (h : (start settings.slots).run actions = some (s, effects)) :
    (∀ call w, s.waiters.find? call = some w → w.parked = true → w.notified = false →
      s.pending ≠ 0 ∨ ∃ a, AboutToWake s a) ∧
    (∀ a, AboutToWake s a →
      (∀ b t es, b ≠ a → s.step b = some (t, es) → AboutToWake t a) ∧
      ∃ t, s.step a = some (t, []) ∧ t.pending = s.pending ∧
        ∀ call, t.waiters.find? call =
          (s.waiters.find? call).map fun w => { w with notified := true }) ∧
    (s.pending = 0 → ∀ call w, s.waiters.find? call = some w →
      ∃ steps t u, steps.length ≤ 2 ∧ (∀ a ∈ steps, a = .rearm call ∨ AboutToWake s a) ∧
        s.run steps = some (t, []) ∧ t.step (.look call) = some (u, [.drained call])) ∧
    (∀ gone : List Nat, gone.Nodup → (∀ call ∈ gone, (s.waiters.find? call).isSome = true) →
      ∃ waiters shutdowns,
        s.run (gone.map .abandon) =
          some ({ s with waiters := waiters, shutdowns := shutdowns }, []) ∧
        s.waiters.Without gone waiters ∧ s.shutdowns.Without gone shutdowns ∧
        ∀ others t more, (∀ a ∈ others, ∀ call ∈ gone, a.waiting? ≠ some call) →
          s.run others = some (t, more) →
          ∃ waiters' shutdowns',
            run { s with waiters := waiters, shutdowns := shutdowns } others =
              some ({ t with waiters := waiters', shutdowns := shutdowns' }, more) ∧
            t.waiters.Without gone waiters' ∧ t.shutdowns.Without gone shutdowns') := by
  have hwatched := watched_of_run (slots_bounds settings).1 h
  refine ⟨hwatched, ?_, ?_, ?_⟩
  · intro a habout
    refine ⟨fun b t es hne hstep => habout.preserve hne (.of_step hstep), ?_⟩
    obtain ⟨t, hwake, hwaiters, hpending⟩ := habout.step
    refine ⟨t, hwake.step_eq, hpending, fun call => ?_⟩
    rw [hwaiters, find?_wakeAll]
  · intro hnone call w hw
    exact drained_of_waiting hwatched hw hnone
  · intro gone hdistinct hwaits
    obtain ⟨waiters, shutdowns, hrun, hwaiters, hshutdowns⟩ :=
      run_abandon (waitsToDrain_of_run h) hdistinct hwaits
    refine ⟨waiters, shutdowns, hrun, hwaiters, hshutdowns, ?_⟩
    intro others t more hother hothers
    exact run_without hothers hother hwaiters hshutdowns

/-- Nobody takes records any more.  Two calls give the last slot back, one after the other,
and neither has woken anyone yet; two calls went to sleep in between. -/
def asleep : List Action :=
  [.lose .cancelled, .enter 0 [1], .advance 0, .arm 5, .look 5, .advance 0, .advance 0,
    .enter 1 [2], .advance 1, .arm 6, .look 6, .advance 1, .advance 1]

/-- No slot is taken while both sleep, and each is about to be woken.  One of them stops to
wait; the other is woken all the same, and finds the spool drained. -/
theorem no_wakeup_lost_asleep :
    ∃ s effects, (start ({ capacity := 1 } : SpoolSettings).slots).run asleep = some (s, effects) ∧
      s.waiters.find? 5 = some { parked := true } ∧ s.waiters.find? 6 = some { parked := true } ∧
      s.pending = 0 ∧ (s.pending ≠ 0 ∨ ∃ a, AboutToWake s a) ∧
      ∃ t u, s.run [.abandon 5] = some (t, []) ∧
        t.run [.advance 0, .rearm 6, .look 6] = some (u, [.drained 6]) := by
  have hwake := @no_wakeup_lost _ asleep _ { capacity := 1 } rfl
  obtain ⟨hwatched, -, -, hstop⟩ := hwake
  have habout := hwatched 5 { parked := true } rfl rfl rfl
  have hstopped := hstop [5] (by decide) (by decide)
  obtain ⟨waiters, shutdowns, hgone, -, -, hothers⟩ := hstopped
  have hwoken := hothers [.advance 0, .rearm 6, .look 6] _ [.drained 6] (by decide) rfl
  obtain ⟨waiters', shutdowns', hrun, -, -⟩ := hwoken
  exact ⟨_, _, rfl, rfl, rfl, rfl, habout, _, _, hgone, hrun⟩

end LogSpool.Spool
