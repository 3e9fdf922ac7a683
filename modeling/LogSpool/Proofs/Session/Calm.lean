import LogSpool.Proofs.Session.Lasting
set_option autoImplicit false

/-!
# Sessions: nobody is half done

A session writes a record without a break, and its workers wake who waits in the same move in which
they give the last slot back.  Between two moves of its tasks it is `Calm`: nobody is writing, and
nobody has still to wake who waits.
-/

namespace LogSpool

namespace Spool

variable {s t u : Spool} {a : Action} {call n : Nat} {es : List Effect}

/-- Nobody is writing, and the worker has nobody to wake. -/
structure Calm (s : Spool) : Prop where
  writes : s.writes.isEmpty = true
  worker : s.worker ≠ .waking

theorem Calm.start (capacity : Nat) : Calm (start capacity) := ⟨rfl, nofun⟩

/-- A calm spool stays so in a step after which nobody is half done. -/
theorem Calm.preserve (h : Calm s) (step : Transition s a t es) (ha : a.isBrief = true) :
    Calm t := by
  obtain ⟨hwrites, hworker⟩ := h
  cases step with
  | receive | awaitWrite | awaitFlush | finish | judge | wake | flush | finishFlush | lose =>
    exact ⟨hwrites, nofun⟩
  | enterClosed | enterEmpty | enter | reserve | overflow | send | refuse | giveBack
  | wakeFromWrite | countLost | release => cases ha
  | _ => exact ⟨hwrites, hworker⟩

theorem worker_of_goesOn {reply : Reply} (h : GoesOn call n s t es reply) : t.worker = s.worker := by
  have hstep : ∀ {v w : Spool} {fs : List Effect}, Transition v (.advance call) w fs →
      w.worker = v.worker := by
    intro v w fs step
    cases step <;> rfl
  induction h with
  | answered step hreplies => exact hstep step
  | next step hreplies rest ih => exact ih.trans (hstep step)

theorem Calm.of_work_eq (h : Calm s) (heq : t.work = s.work) : Calm t := by
  have hwrites := congrArg Spool.writes heq
  have hworker := congrArg Spool.worker heq
  exact ⟨(congrArg Calls.isEmpty hwrites).trans h.writes,
    fun hwaking => h.worker (hworker.symm.trans hwaking)⟩

end Spool

namespace Session

variable {s t : Session} {i k : Nat} {station : Station}

/-- Nobody is half done at any station. -/
def Calm (s : Session) : Prop :=
  ∀ (k : Nat) (station : Station), s.stations[k]? = some station → station.spool.Calm

theorem station_putSpool_of_ne (s : Session) (hne : i ≠ k) (spool : Spool) :
    (s.putSpool i spool).stations[k]? = s.stations[k]? := by
  simp [putSpool, modifyStation, Array.getElem?_modify, hne]

theorem Calm.putSpool (h : Calm s) {spool : Spool} (hspool : spool.Calm) :
    Calm (s.putSpool i spool) := by
  intro k station hk
  by_cases heq : i = k
  · subst heq
    cases hi : s.stations[i]? with
    | none => simp [Session.putSpool, modifyStation, Array.getElem?_modify, hi] at hk
    | some other =>
      rw [station_putSpool hi] at hk
      cases hk
      exact hspool
  · rw [station_putSpool_of_ne s heq] at hk
    exact h k station hk

theorem Calm.of_stations (h : Calm s) (heq : t.stations = s.stations) : Calm t := by
  intro k station hk
  exact h k station (by rw [← heq]; exact hk)

theorem stepSpool_of_stuck {a : Action} (hstation : s.stations[i]? = some station)
    (hstep : station.spool.step a = none) : s.stepSpool i a = (s, []) := by
  refine stepSpool_of_none fun other hother => ?_
  cases hstation.symm.trans hother
  exact hstep

/-- In a calm session no call that writes can take a step. -/
theorem stepSpool_advance (h : Calm s) (k : Nat) : s.stepSpool k (.advance writeCall) = (s, []) := by
  refine stepSpool_of_none fun station hk => ?_
  rw [Spool.step, Calls.isEmpty_iff.mp (h k station hk).writes writeCall, Option.map_none]

theorem finishWrite_of_calm (h : Calm s) (k fuel : Nat) : finishWrite k fuel s = (s, .closed) := by
  induction fuel with
  | zero => rfl
  | succ fuel ih =>
    rw [finishWrite, stepSpool_advance h]
    exact ih

theorem write_of_stuck (h : Calm s) {record : Bytes}
    (hstuck : s.stepSpool k (.enter writeCall record) = (s, [])) :
    s.write k record = (s.wakeWorker k, .closed) := by
  have hnone : reply? [] = none := rfl
  rw [write, hstuck]
  dsimp only
  rw [hnone]
  dsimp only
  rw [finishWrite_of_calm h]

/-- What a write does in a calm session: it is refused, or answered that the record is taken care of,
and it does nothing to the stations, or takes the spool of one that is open to another calm state. -/
theorem write_cases (h : Calm s) (k : Nat) (record : Bytes) :
    ((s.write k record).2 = .closed ∨ (s.write k record).2 = .accepted record.length) ∧
      (s.write k record).1.now = s.now ∧ ((s.write k record).1.stations = s.stations ∨
      ∃ station next, s.stations[k]? = some station ∧ station.spool.closed = false ∧
        Spool.Calm next ∧ (s.write k record).1.stations = (s.putSpool k next).stations) := by
  cases hk : s.stations[k]? with
  | none =>
    obtain ⟨hstations, hnow⟩ := frame_wakeWorker s k
    rw [write_of_stuck h (by simp [stepSpool, hk])]
    exact ⟨.inl rfl, hnow, .inl hstations⟩
  | some station =>
    obtain ⟨hquiet, hworker⟩ := h k station hk
    cases henter : station.spool.step (.enter writeCall record) with
    | none =>
      obtain ⟨hstations, hnow⟩ := frame_wakeWorker s k
      rw [write_of_stuck h (stepSpool_of_stuck hk henter)]
      exact ⟨.inl rfl, hnow, .inl hstations⟩
    | some r =>
      obtain ⟨next, es⟩ := r
      cases Spool.Transition.of_step henter with
      | enterClosed hhandles hnew hclosed =>
        rw [write_of_closed hk hhandles hquiet hclosed]
        exact ⟨.inl rfl, rfl, .inl rfl⟩
      | enterEmpty hhandles hnew hopen =>
        have hwrite : s.write k [] = (s, .accepted 0) := by
          simp [write, stepSpool_eq hk (.enterEmpty hhandles hnew hopen), reply?_eq, Spool.replies,
            putSpool_self hk]
        rw [hwrite]
        exact ⟨.inr rfl, rfl, .inl rfl⟩
      | enter hhandles hnew hopen hrecord =>
        let entered : Spool :=
          { station.spool with writes := station.spool.writes.add writeCall ⟨record, .entered⟩ }
        have hanswers : entered.Answers writeCall record 5 :=
          Spool.answers_entered (Calls.find?_add_self _ _ _)
        obtain ⟨n, next, es, hn, hgoes, hwrites⟩ := hanswers
        rw [write_of_open hk hhandles hquiet hopen hrecord hn hgoes]
        obtain ⟨hstations, hnow⟩ := frame_wakeWorker
          ({ s.putSpool k next with registry := station.post s.registry es } : Session) k
        refine ⟨.inr rfl, hnow, .inr ⟨station, next, rfl, hopen, ⟨?_, ?_⟩, hstations⟩⟩
        · rw [hwrites, Calls.remove_add hnew]
          exact hquiet
        · rw [Spool.worker_of_goesOn hgoes]
          exact hworker

theorem Calm.write (h : Calm s) (k : Nat) (record : Bytes) : Calm (s.write k record).1 := by
  obtain ⟨-, -, hsame | ⟨station, next, -, -, hnext, hstations⟩⟩ := write_cases h k record
  · exact h.of_stations hsame
  · exact (h.putSpool hnext).of_stations hstations

/-- A calm session stays calm in a step after which nobody is half done. -/
theorem Calm.stepSpool (h : Calm s) (i : Nat) {a : Action} (ha : a.isBrief = true) :
    Calm (s.stepSpool i a).1 := by
  cases hi : s.stations[i]? with
  | none => simpa [Session.stepSpool, hi] using h
  | some station =>
    cases hstep : station.spool.step a with
    | none =>
      rw [stepSpool_of_stuck hi hstep]
      exact h
    | some r =>
      have step := Spool.Transition.of_step hstep
      rw [stepSpool_eq hi step]
      exact h.putSpool ((h i station hi).preserve step ha)

/-- A worker of a calm session gives a slot back and wakes who waits, and the session is calm. -/
theorem Calm.giveBack (h : Calm s) (i : Nat) :
    Calm ((s.stepSpool i .release).1.stepSpool i .wake).1 := by
  cases hi : s.stations[i]? with
  | none => simpa [Session.stepSpool, hi] using h
  | some station =>
    obtain ⟨hwrites, -⟩ := h i station hi
    cases hrelease : station.spool.step .release with
    | none =>
      rw [stepSpool_of_stuck hi hrelease]
      exact h.stepSpool i rfl
    | some r =>
      obtain ⟨next, es⟩ := r
      have step := Spool.Transition.of_step hrelease
      have hquiet : next.writes.isEmpty = true := by
        cases step
        exact hwrites
      have hreleased := station_putSpool hi next
      rw [stepSpool_eq hi step]
      cases hwake : next.step .wake with
      | none =>
        rw [stepSpool_of_stuck hreleased hwake]
        refine h.putSpool ⟨hquiet, fun hwaking => ?_⟩
        rw [(Spool.Transition.wake hwaking).step_eq] at hwake
        cases hwake
      | some woken =>
        obtain ⟨last, fs⟩ := woken
        have hwoken := Spool.Transition.of_step hwake
        have hlast : last.Calm := by
          cases hwoken
          refine ⟨hquiet, fun hwaking => ?_⟩
          cases hwaking
        rw [stepSpool_eq hreleased hwoken, putSpool_putSpool]
        exact h.putSpool hlast

/-- Everything that is done in one go leaves a calm session calm. -/
theorem keeps_calm : Keeps Calm where
  frame h heq _ := h.of_stations heq
  write k record h := h.write k record
  step h hi ha step := h.putSpool ((h _ _ hi).preserve step (Action.isBrief_of_isWhole ha))
  giveBack i h := h.giveBack i
  progress {s} i progress h k station hk := by
    rw [modifyStation, Array.getElem?_modify] at hk
    split at hk
    · obtain ⟨other, hother, rfl⟩ := Option.map_eq_some_iff.mp hk
      exact h k other hother
    · exact h k station hk
  push {s} station settings h hstart k other hk := by
    rw [Array.getElem?_push] at hk
    split at hk
    · cases hk
      rw [hstart]
      exact .start _
    · exact h k other hk

theorem lasting_calm : Lasting Calm where
  toKeeps := keeps_calm
  clock _ h := h
  waitingStep h hi ha step := h.putSpool ((h _ _ hi).preserve step (Action.isBrief_of_isSome ha))

end Session

end LogSpool
