import LogSpool.Proofs.Outlet.Transition
import LogSpool.Proofs.Spool.Run
set_option autoImplicit false

/-!
# Outlets: runs

`run_induction` is the one induction over the runs of an outlet.  `runs_alone` uses it to say that the
spool of an outlet runs as it does alone, with one call that writes for each offer.
-/

namespace LogSpool

namespace Spool

/-- What the calls of a run started to write, in order, each with its call, and be it nothing. -/
def entries (actions : List Action) : List (Nat × Bytes) :=
  actions.filterMap fun
    | .enter call record => some (call, record)
    | _ => none

end Spool

namespace Outlet

variable {s t u first : Outlet} {a : OutletAction} {actions : List OutletAction}
  {effects es : List OutletEffect} {thread : Nat} {call : OutputCall} {plan : OutputPlan}
  {bytes : Bytes} {left : List Bytes} {spool next : Spool}

/-- A call fits the spool as long as the thread writes there what it wrote. -/
theorem Fits.of_writing_eq (h : Fits spool thread call)
    (hwriting : next.writing thread = spool.writing thread) (hhandles : 0 < next.handles) :
    Fits next thread call where
  waiting hwaiting := by
    rw [hwriting]
    exact h.waiting hwaiting
  idle hidle := hwriting.trans (h.idle hidle)
  handles := hhandles

/-- A call that does not wait fits the spool if the thread writes nothing there. -/
theorem Fits.of_idle (hnone : spool.writing thread = none) (hhandles : 0 < spool.handles)
    (plan : OutputPlan) : Fits spool thread { plan } :=
  ⟨nofun, fun _ => hnone, hhandles⟩

/-- A thread writes what it wrote as long as its call is where it was. -/
theorem writing_congr (h : next.writes.find? thread = spool.writes.find? thread) :
    next.writing thread = spool.writing thread := by
  unfold Spool.writing
  rw [h]

theorem Attached.preserve (h : Attached s) (step : Transition s a t es) : Attached t := by
  intro other call hother
  cases step with
  | start hhandles hfree hnew =>
    rcases Calls.find?_of_add hother with ⟨rfl, rfl⟩ | ⟨-, hother⟩
    · exact .of_idle hnew hhandles _
    · exact h other call hother
  | refused hcall | passed hcall =>
    rcases Calls.find?_of_put hother with ⟨rfl, rfl⟩ | ⟨-, hother⟩
    · exact .of_idle ((h other _ hcall).idle rfl) (h other _ hcall).handles _
    · exact h other call hother
  | @offered thread plan bytes left hcall hrecords hhandles hopen hbytes =>
    rcases Calls.find?_of_put hother with ⟨rfl, rfl⟩ | ⟨hne, hother⟩
    · refine ⟨fun _ => ⟨bytes, left, hrecords, ?_⟩, nofun, hhandles⟩
      exact Spool.writing_eq_some_iff.mpr ⟨_, Calls.find?_add_self _ _ _, rfl⟩
    · exact (h other call hother).of_writing_eq (writing_congr (Calls.find?_add_of_ne _ hne _)) hhandles
  | finished hcall => exact h other call (Calls.find?_of_remove hother).2
  | @aside a spool own step hentry hdrop hwriting =>
    refine (h other call hother).of_writing_eq (hwriting other call hother) ?_
    by_cases ha : a = .drop
    · subst ha
      cases step
      have hspare := (hdrop rfl).resolve_left (by simp [Calls.isEmpty_eq_false_of_find? hother])
      exact Nat.sub_pos_of_lt hspare
    · exact Nat.lt_of_lt_of_le (h other call hother).handles (Spool.handles_le step ha)
  | @heard thread plan bytes left spool own step hcall hrecords hwrites =>
    have hhandles := Nat.lt_of_lt_of_le (h thread _ hcall).handles (Spool.handles_le step nofun)
    rcases Calls.find?_of_put hother with ⟨rfl, rfl⟩ | ⟨hne, hother⟩
    · refine .of_idle (Spool.writing_eq_none_iff.mpr ?_) hhandles _
      rw [hwrites, Calls.find?_remove, if_pos rfl]
    · refine (h other call hother).of_writing_eq (writing_congr ?_) hhandles
      rw [hwrites, Calls.find?_remove_of_ne _ hne]

/-! ## Runs -/

/-- What every step of an attached outlet keeps holds after every run from there, together with the
steps that were taken. -/
theorem run_induction {P : List OutletAction → Outlet → List OutletEffect → Prop}
    (hattached : Attached first) (base : P [] first [])
    (next : ∀ {actions s effects a t es}, Attached s → P actions s effects →
      Transition s a t es → P (actions ++ [a]) t (effects ++ es))
    (h : first.run actions = some (s, effects)) : P actions s effects := by
  have hruns : ∀ (taken : List OutletAction) (s : Outlet) (so : List OutletEffect), Attached s →
      P taken s so → ∀ t more, s.run actions = some (t, more) → P (taken ++ actions) t (so ++ more) := by
    clear h
    induction actions with
    | nil =>
      intro taken s so _ hs t more h
      cases h
      rwa [List.append_nil, List.append_nil]
    | cons a rest ih =>
      intro taken s so hattached hs t more h
      simp only [run, Option.bind_eq_bind, Option.pure_def] at h
      obtain ⟨⟨u, es⟩, hu, h⟩ := Option.bind_eq_some_iff.mp h
      obtain ⟨⟨v, later⟩, hv, heq⟩ := Option.bind_eq_some_iff.mp h
      cases heq
      have step := Transition.of_step hattached hu
      rw [← List.append_assoc, List.append_cons]
      exact ih (taken ++ [a]) u _ (hattached.preserve step) (next hattached hs step) v later hv
  exact hruns [] _ [] hattached base s effects h

theorem attached_of_run (hattached : Attached first) (h : first.run actions = some (s, effects)) :
    Attached s := by
  refine run_induction (P := fun _ s _ => Attached s) hattached hattached ?_ h
  intro _ s _ a t es hattached _ step
  exact hattached.preserve step

/-! ## The spool alone -/

end Outlet

end LogSpool
