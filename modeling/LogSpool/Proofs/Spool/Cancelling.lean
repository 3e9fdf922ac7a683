import LogSpool.Proofs.Spool.Bystanders
set_option autoImplicit false

/-!
# Spools: calls that stop waiting

A call that waits can be stopped wherever it waits.  `Calls.Without` compares the calls
under way with those that are left when some are gone.  Nobody else can tell the
difference: whatever the others can do with all of them there, they can do without those,
step by step and with the same effects.
-/

namespace LogSpool

/-- The rest of some calls, when those with the given numbers are gone. -/
def Calls.Without {α : Type} (gone : List Nat) (calls rest : Calls α) : Prop :=
  ∀ call, rest.find? call = if call ∈ gone then none else calls.find? call

namespace Calls.Without

variable {α : Type} {gone : List Nat} {calls rest : Calls α} {call : Nat}

theorem refl (calls : Calls α) : Without [] calls calls := fun _ => by simp

theorem find?_eq (h : Without gone calls rest) (hstays : call ∉ gone) :
    rest.find? call = calls.find? call := by
  rw [h call, if_neg hstays]

/-- One call is gone first, and then some others. -/
theorem cons {next : Calls α} (hfirst : Without [call] calls next) (h : Without gone next rest) :
    Without (call :: gone) calls rest := by
  intro other
  rw [h other, hfirst other]
  by_cases hcall : other = call <;> by_cases hmem : other ∈ gone <;> simp [hcall, hmem]

theorem of_remove (calls : Calls α) (call : Nat) : Without [call] calls (calls.remove call) := by
  intro other
  rw [find?_remove]
  simp

theorem of_none (h : calls.find? call = none) : Without [call] calls calls := by
  intro other
  by_cases hcall : other = call
  · simp [hcall, h]
  · simp [hcall]

theorem add (h : Without gone calls rest) (hstays : call ∉ gone) (a : α) :
    Without gone (calls.add call a) (rest.add call a) := by
  intro other
  by_cases hcall : other = call
  · subst hcall
    rw [find?_add_self, find?_add_self, if_neg hstays]
  · rw [find?_add_of_ne _ hcall, find?_add_of_ne _ hcall]
    exact h other

theorem mapAll (h : Without gone calls rest) (f : Nat → α → α) :
    Without gone (calls.mapAll f) (rest.mapAll f) := by
  intro other
  rw [find?_mapAll, find?_mapAll, h other]
  split <;> rfl

theorem modify (h : Without gone calls rest) (call : Nat) (f : α → α) :
    Without gone (calls.modify call f) (rest.modify call f) :=
  h.mapAll _

theorem put (h : Without gone calls rest) (call : Nat) (a : α) :
    Without gone (calls.put call a) (rest.put call a) :=
  h.modify call _

theorem remove (h : Without gone calls rest) (call : Nat) :
    Without gone (calls.remove call) (rest.remove call) := by
  intro other
  rw [find?_remove, find?_remove, h other]
  by_cases hcall : other = call <;> simp [hcall]

theorem isEmpty (h : Without gone calls rest) (hempty : calls.isEmpty = true) :
    rest.isEmpty = true := by
  refine isEmpty_iff.mpr ?_
  intro other
  rw [h other, isEmpty_iff.mp hempty, ite_self]

end Calls.Without

namespace Spool

variable {s t : Spool} {a : Action} {actions : List Action} {effects es : List Effect}
  {gone : List Nat} {waiters : Calls Waiter} {shutdowns : Calls ShutdownPhase}

/-! ## Nobody else can tell the difference -/

/-- A number that is not among those gone is as fresh as before. -/
theorem isFresh_without (hwaiters : s.waiters.Without gone waiters)
    (hshutdowns : s.shutdowns.Without gone shutdowns) {call : Nat} (hstays : call ∉ gone)
    (hfresh : s.isFresh call = true) :
    isFresh { s with waiters := waiters, shutdowns := shutdowns } call = true := by
  rw [isFresh_iff] at hfresh ⊢
  rw [hwaiters.find?_eq hstays, hshutdowns.find?_eq hstays]
  exact hfresh

/-- A call that waits and is not among those gone can go on without them, with the same effects. -/
theorem Transition.without_of_waiting (step : Transition s a t es) {call : Nat}
    (hwaiting : a.waiting? = some call) (hstays : call ∉ gone)
    (hwaiters : s.waiters.Without gone waiters) (hshutdowns : s.shutdowns.Without gone shutdowns) :
    ∃ waiters' shutdowns', Transition { s with waiters := waiters, shutdowns := shutdowns } a
        { t with waiters := waiters', shutdowns := shutdowns' } es ∧
      t.waiters.Without gone waiters' ∧ t.shutdowns.Without gone shutdowns' := by
  have hsameWaiter := hwaiters.find?_eq hstays
  have hsamePhase := hshutdowns.find?_eq hstays
  cases step with
  | arm hhandles hfresh =>
    cases hwaiting
    exact ⟨_, _, .arm hhandles (isFresh_without hwaiters hshutdowns hstays hfresh),
      hwaiters.add hstays _, hshutdowns⟩
  | lookDrained hw hparked hnone =>
    cases hwaiting
    exact ⟨_, _, .lookDrained (hsameWaiter.trans hw) hparked hnone, hwaiters.remove _,
      hshutdowns.modify _ _⟩
  | park hw hparked hsome =>
    cases hwaiting
    exact ⟨_, _, .park (hsameWaiter.trans hw) hparked hsome, hwaiters.put _ _, hshutdowns⟩
  | rearm hw hparked hnotified =>
    cases hwaiting
    exact ⟨_, _, .rearm (hsameWaiter.trans hw) hparked hnotified, hwaiters.put _ _, hshutdowns⟩
  | abandonWait hw hdrain =>
    cases hwaiting
    exact ⟨_, _, .abandonWait (hsameWaiter.trans hw) (hsamePhase.trans hdrain), hwaiters.remove _,
      hshutdowns⟩
  | abandonDraining hphase =>
    cases hwaiting
    exact ⟨_, _, .abandonDraining (hsamePhase.trans hphase), hwaiters.remove _,
      hshutdowns.remove _⟩
  | abandonJoining hphase =>
    cases hwaiting
    exact ⟨_, _, .abandonJoining (hsamePhase.trans hphase), hwaiters, hshutdowns.remove _⟩
  | shutdown hhandles hfresh =>
    cases hwaiting
    exact ⟨_, _, .shutdown hhandles (isFresh_without hwaiters hshutdowns hstays hfresh), hwaiters,
      hshutdowns.add hstays _⟩
  | pursueClosing hphase hwrites =>
    cases hwaiting
    exact ⟨_, _, .pursueClosing (hsamePhase.trans hphase) hwrites, hwaiters, hshutdowns.put _ _⟩
  | pursueArming hphase =>
    cases hwaiting
    exact ⟨_, _, .pursueArming (hsamePhase.trans hphase), hwaiters.add hstays _, hshutdowns.put _ _⟩
  | claim hphase hunclaimed =>
    cases hwaiting
    exact ⟨_, _, .claim (hsamePhase.trans hphase) hunclaimed, hwaiters, hshutdowns.put _ _⟩
  | claimTaken hphase hclaimed =>
    cases hwaiting
    exact ⟨_, _, .claimTaken (hsamePhase.trans hphase) hclaimed, hwaiters, hshutdowns.remove _⟩
  | joinDone hphase hdone =>
    cases hwaiting
    exact ⟨_, _, .joinDone (hsamePhase.trans hphase) hdone, hwaiters, hshutdowns.remove _⟩
  | joinLost hphase hlost =>
    cases hwaiting
    exact ⟨_, _, .joinLost (hsamePhase.trans hphase) hlost, hwaiters, hshutdowns.remove _⟩
  | _ => cases hwaiting

/-- A transition of somebody else is possible without the calls that are gone, with the same
effects. -/
theorem Transition.without (step : Transition s a t es)
    (hother : ∀ call ∈ gone, a.waiting? ≠ some call) (hwaiters : s.waiters.Without gone waiters)
    (hshutdowns : s.shutdowns.Without gone shutdowns) :
    ∃ waiters' shutdowns', Transition { s with waiters := waiters, shutdowns := shutdowns } a
        { t with waiters := waiters', shutdowns := shutdowns' } es ∧
      t.waiters.Without gone waiters' ∧ t.shutdowns.Without gone shutdowns' := by
  cases hwaiting : a.waiting? with
  | some call =>
    have hstays : call ∉ gone := fun hmem => hother call hmem hwaiting
    exact step.without_of_waiting hwaiting hstays hwaiters hshutdowns
  | none =>
    -- Who does not wait takes no notice of those who do, except to wake all of them at once.
    obtain ⟨wakes, hwoken, hsame, hclaim, step'⟩ :=
      step.reframe hwaiting waiters shutdowns s.unclaimed fun _ _ hquiet => by
        obtain ⟨-, hwaits, hshuts⟩ := Sealing.isQuiet_iff.mp hquiet
        exact ⟨hwaiters.isEmpty hwaits, hshutdowns.isEmpty hshuts⟩
    have hstate (waiters' : Calls Waiter) :
        ({ t with waiters := waiters', shutdowns, unclaimed := s.unclaimed } : Spool) =
          { t with waiters := waiters', shutdowns } := by rw [hclaim]
    rw [hstate] at step'
    refine ⟨_, shutdowns, step', ?_, hsame ▸ hshutdowns⟩
    rw [hwoken]
    cases wakes with
    | false => exact hwaiters
    | true =>
      rw [if_pos rfl, if_pos rfl]
      exact hwaiters.mapAll _

theorem run_without (h : s.run actions = some (t, effects))
    (hother : ∀ a ∈ actions, ∀ call ∈ gone, a.waiting? ≠ some call)
    (hwaiters : s.waiters.Without gone waiters) (hshutdowns : s.shutdowns.Without gone shutdowns) :
    ∃ waiters' shutdowns', run { s with waiters := waiters, shutdowns := shutdowns } actions =
        some ({ t with waiters := waiters', shutdowns := shutdowns' }, effects) ∧
      t.waiters.Without gone waiters' ∧ t.shutdowns.Without gone shutdowns' := by
  induction actions generalizing s waiters shutdowns effects with
  | nil =>
    cases h
    exact ⟨waiters, shutdowns, rfl, hwaiters, hshutdowns⟩
  | cons a rest ih =>
    obtain ⟨first, next, before, es, more, hfirst, step, hrest, rfl⟩ := @run_split s t [] _ _ _ h
    cases hfirst
    obtain ⟨waiters', shutdowns', step', hwaiters', hshutdowns'⟩ :=
      step.without (hother a List.mem_cons_self) hwaiters hshutdowns
    obtain ⟨waiters'', shutdowns'', hrun, hlast⟩ :=
      ih hrest (fun b hb => hother b (List.mem_cons_of_mem _ hb)) hwaiters' hshutdowns'
    refine ⟨waiters'', shutdowns'', ?_, hlast⟩
    rw [run_cons_of_transition step', hrun]
    rfl

/-! ## Stopping calls -/

/-- A call that shuts the spool down waits only while it drains it. -/
def WaitsToDrain (s : Spool) : Prop :=
  ∀ call w phase, s.waiters.find? call = some w → s.shutdowns.find? call = some phase →
    phase = .draining

namespace WaitsToDrain

theorem of_subset (h : WaitsToDrain s)
    (hwaiters : ∀ call w, t.waiters.find? call = some w → ∃ v, s.waiters.find? call = some v)
    (hshutdowns : ∀ call phase, t.shutdowns.find? call = some phase →
      s.shutdowns.find? call = some phase) : WaitsToDrain t := by
  intro call w phase hw hphase
  obtain ⟨v, hv⟩ := hwaiters call w hw
  exact h call v phase hv (hshutdowns call phase hphase)

/-- A call that shuts down and is not draining does not wait, so it may go to any phase. -/
theorem of_put (h : WaitsToDrain s) {call : Nat} {phase : ShutdownPhase}
    (hphase : s.shutdowns.find? call = some phase) (hne : phase ≠ .draining)
    (next : ShutdownPhase) (hwaiters : t.waiters = s.waiters)
    (hshutdowns : t.shutdowns = s.shutdowns.put call next) : WaitsToDrain t := by
  intro other w reached hw hreached
  rw [hwaiters] at hw
  rw [hshutdowns] at hreached
  rcases Calls.find?_of_put hreached with ⟨rfl, rfl⟩ | ⟨-, hbefore⟩
  · exact absurd (h other w phase hw hphase) hne
  · exact h other w reached hw hbefore

theorem preserve (h : WaitsToDrain s) (step : Transition s a t es) : WaitsToDrain t := by
  cases step with
  | arm hhandles hfresh =>
    intro other w phase hw hphase
    rcases Calls.find?_of_add hw with ⟨rfl, -⟩ | ⟨-, hbefore⟩
    · rw [(isFresh_iff.mp hfresh).2] at hphase
      cases hphase
    · exact h other w phase hbefore hphase
  | shutdown hhandles hfresh =>
    intro other w phase hw hphase
    rcases Calls.find?_of_add hphase with ⟨rfl, -⟩ | ⟨-, hbefore⟩
    · rw [(isFresh_iff.mp hfresh).1] at hw
      cases hw
    · exact h other w phase hw hbefore
  | lookDrained =>
    intro other w phase hw hphase
    obtain ⟨hne, hbefore⟩ := Calls.find?_of_remove hw
    rw [Calls.find?_modify, if_neg hne] at hphase
    exact h other w phase hbefore hphase
  | park hw | rearm hw =>
    refine h.of_subset (fun other v hv => ?_) fun _ _ hphase => hphase
    rcases Calls.find?_of_put hv with ⟨rfl, -⟩ | ⟨-, hbefore⟩
    · exact ⟨_, hw⟩
    · exact ⟨_, hbefore⟩
  | abandonWait =>
    exact h.of_subset (fun _ _ hv => ⟨_, (Calls.find?_of_remove hv).2⟩) fun _ _ hphase => hphase
  | abandonDraining =>
    exact h.of_subset (fun _ _ hv => ⟨_, (Calls.find?_of_remove hv).2⟩)
      fun _ _ hphase => (Calls.find?_of_remove hphase).2
  | abandonJoining | claimTaken | joinDone | joinLost =>
    exact h.of_subset (fun _ _ hv => ⟨_, hv⟩) fun _ _ hphase => (Calls.find?_of_remove hphase).2
  | pursueClosing hphase => exact h.of_put hphase nofun _ rfl rfl
  | claim hphase => exact h.of_put hphase nofun _ rfl rfl
  | pursueArming =>
    intro other w phase hw hphase
    rcases Calls.find?_of_put hphase with ⟨-, rfl⟩ | ⟨hne, hbefore⟩
    · rfl
    · rcases Calls.find?_of_add hw with ⟨heq, -⟩ | ⟨-, hwas⟩
      · exact absurd heq hne
      · exact h other w phase hwas hbefore
  | wakeFromWrite | wake =>
    refine h.of_subset (fun other v hv => ?_) fun _ _ hphase => hphase
    rw [find?_wakeAll] at hv
    obtain ⟨before, hbefore, -⟩ := Option.map_eq_some_iff.mp hv
    exact ⟨before, hbefore⟩
  | _ => exact h

end WaitsToDrain

/-- The calls of a run that shut the spool down wait only while they drain it. -/
theorem waitsToDrain_of_run {capacity : Nat}
    (h : (start capacity).run actions = some (s, effects)) : WaitsToDrain s :=
  run_invariant WaitsToDrain.preserve h fun _ _ _ hw => by cases hw

theorem abandon_of_waiting (hdrain : WaitsToDrain s) {call : Nat}
    (hwaits : (s.waiters.find? call).isSome = true) :
    ∃ waiters shutdowns,
      Transition s (.abandon call) { s with waiters := waiters, shutdowns := shutdowns } [] ∧
      s.waiters.Without [call] waiters ∧ s.shutdowns.Without [call] shutdowns := by
  obtain ⟨w, hw⟩ := Option.isSome_iff_exists.mp hwaits
  cases hphase : s.shutdowns.find? call with
  | none => exact ⟨_, _, .abandonWait hw hphase, .of_remove _ _, .of_none hphase⟩
  | some phase =>
    cases hdrain call w phase hw hphase
    exact ⟨_, _, .abandonDraining hphase, .of_remove _ _, .of_remove _ _⟩

/-- Any of the calls that wait can stop, one after another.  That has no effect, and changes
nothing but that they are gone. -/
theorem run_abandon (hdrain : WaitsToDrain s) (hdistinct : gone.Nodup)
    (hwaits : ∀ call ∈ gone, (s.waiters.find? call).isSome = true) :
    ∃ waiters shutdowns,
      s.run (gone.map .abandon) = some ({ s with waiters := waiters, shutdowns := shutdowns }, []) ∧
      s.waiters.Without gone waiters ∧ s.shutdowns.Without gone shutdowns := by
  induction gone generalizing s with
  | nil => exact ⟨s.waiters, s.shutdowns, rfl, .refl _, .refl _⟩
  | cons call rest ih =>
    obtain ⟨hnew, hdistinct⟩ := List.nodup_cons.mp hdistinct
    obtain ⟨waiters, shutdowns, step, hwaiters, hshutdowns⟩ :=
      abandon_of_waiting hdrain (hwaits call List.mem_cons_self)
    have hstill : ∀ other ∈ rest, (waiters.find? other).isSome = true := by
      intro other hother
      have hne : other ∉ [call] := fun heq => hnew (List.mem_singleton.mp heq ▸ hother)
      rw [hwaiters.find?_eq hne]
      exact hwaits other (List.mem_cons_of_mem _ hother)
    obtain ⟨waiters', shutdowns', hrun, hwaiters', hshutdowns'⟩ :=
      ih (hdrain.preserve step) hdistinct hstill
    refine ⟨waiters', shutdowns', ?_, hwaiters.cons hwaiters', hshutdowns.cons hshutdowns'⟩
    rw [List.map_cons, run_cons_of_transition step, hrun]
    rfl

end Spool

end LogSpool
