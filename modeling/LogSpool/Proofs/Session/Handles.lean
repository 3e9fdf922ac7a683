import LogSpool.Proofs.Spool.Run
import LogSpool.Session.Open
set_option autoImplicit false

/-!
# Sessions: the handles of those who record events

Whoever records the events of a program through a spool holds a handle to it.  Setting a
recorder up takes a handle, letting it go gives one back, and to the spools of the session
that is all that happens: `HandlesOnly`.
-/

namespace LogSpool

/-- The step takes a handle or gives one back. -/
def Action.isHandles : Action → Bool
  | clone | drop => true
  | _ => false

namespace Session

variable {s t u : Session}

/-- From one session to another every spool has only had handles taken and given back, which
nobody is told of. -/
def HandlesOnly (s t : Session) : Prop :=
  ∀ (k : Nat) (station : Station), s.stations[k]? = some station →
    ∃ (actions : List Action) (spool : Spool),
      t.stations[k]? = some { station with spool } ∧
      station.spool.run actions = some (spool, []) ∧ ∀ a ∈ actions, a.isHandles = true

namespace HandlesOnly

theorem of_eq (h : t.stations = s.stations) : HandlesOnly s t :=
  fun _ station hk => ⟨[], station.spool, h ▸ hk, rfl, nofun⟩

theorem trans (h : HandlesOnly s t) (hnext : HandlesOnly t u) : HandlesOnly s u := by
  intro k station hk
  obtain ⟨actions, spool, ht, hrun, hhandles⟩ := h k station hk
  obtain ⟨more, later, hu, hrest, hmore⟩ := hnext k _ ht
  refine ⟨actions ++ more, later, hu, Spool.run_trans hrun hrest, fun a ha => ?_⟩
  rcases List.mem_append.mp ha with hfirst | hlast
  · exact hhandles a hfirst
  · exact hmore a hlast

end HandlesOnly

/-- Taking a handle or giving one back has no effects. -/
theorem effects_of_isHandles {s t : Spool} {a : Action} {es : List Effect}
    (ha : a.isHandles = true) (h : s.step a = some (t, es)) : es = [] := by
  cases Spool.Transition.of_step h with
  | clone | drop => rfl
  | _ => cases ha

theorem handlesOnly_take (s : Session) (i : Nat) {a : Action} (ha : a.isHandles = true) :
    HandlesOnly s (s.take i a) := by
  intro k station hk
  unfold take takeSeeing stepSpool
  cases hi : s.stations[i]? with
  | none => exact ⟨[], station.spool, hk, rfl, nofun⟩
  | some other =>
    cases hstep : other.spool.step a with
    | none => exact ⟨[], station.spool, by simp [hstep, hk], rfl, nofun⟩
    | some r =>
      obtain ⟨spool, es⟩ := r
      obtain rfl := effects_of_isHandles ha hstep
      by_cases heq : i = k
      · subst heq
        rw [hk] at hi
        cases hi
        refine ⟨[a], spool, ?_, ?_, fun b hb => ?_⟩
        · simp [hstep, Array.getElem?_modify, hk]
        · rw [Spool.run_cons, hstep]
          rfl
        · cases List.mem_singleton.mp hb
          exact ha
      · refine ⟨[], station.spool, ?_, rfl, nofun⟩
        simp [hstep, Array.getElem?_modify, heq, hk]

theorem stations_wakeWorker (s : Session) (i : Nat) : (s.wakeWorker i).stations = s.stations := by
  unfold wakeWorker
  split <;> rfl

theorem handlesOnly_release (s : Session) (i : Nat) : HandlesOnly s (s.release i) :=
  (handlesOnly_take s i rfl).trans (.of_eq (stations_wakeWorker _ i))

/-- Whoever recorded events lets go, and gives a handle back. -/
theorem handlesOnly_releaseObservers (s : Session) : HandlesOnly s s.releaseObservers := by
  have hfold : ∀ (held : List Nat) (s : Session), HandlesOnly s (held.foldl release s) := by
    intro held
    induction held with
    | nil => exact fun s => .of_eq rfl
    | cons i rest ih => exact fun s => (handlesOnly_release s i).trans (ih _)
  unfold releaseObservers
  intro k station hk
  exact hfold _ _ k station hk

/-- A recorder is set up over a station, and takes a handle; the one before it lets go. -/
theorem handlesOnly_observe (s : Session) (i : Nat) (recorder : Recorder) :
    HandlesOnly s (s.observe i recorder) :=
  ((handlesOnly_take s i rfl).trans (handlesOnly_releaseObservers _)).trans (.of_eq rfl)

end Session

end LogSpool
