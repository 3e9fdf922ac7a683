import LogSpool.Proofs.Feed.Transition
set_option autoImplicit false

/-!
# Spools: a call that writes gets its answer

`GoesOn` is a call that writes and takes one step after another, nobody else taking any, until
it is answered.  `answers_of_find?` says that every call that writes can go on like that, and
that it is answered after at most five steps that its record is taken care of.
-/

namespace LogSpool

namespace Spool

variable {s t u : Spool} {call n : Nat} {record : Bytes} {es : List Effect}

/-- A call that writes takes its steps, so many of them, until it is answered. -/
inductive GoesOn (call : Nat) : Nat → Spool → Spool → List Effect → Reply → Prop
  /-- It is answered in this step. -/
  | answered {s t : Spool} {es : List Effect} {reply : Reply}
      (step : Transition s (.advance call) t es) (hreplies : replies es = [(call, reply)]) :
      GoesOn call 1 s t es reply
  /-- It is answered in a later one. -/
  | next {n : Nat} {s t u : Spool} {es more : List Effect} {reply : Reply}
      (step : Transition s (.advance call) t es) (hreplies : replies es = [])
      (rest : GoesOn call n t u more reply) : GoesOn call (n + 1) s u (es ++ more) reply

theorem reports_of_advance (step : Transition s (.advance call) t es) : reports es = [] := by
  cases step <;> rfl

/-- A call goes on until it is answered that its record is taken care of, after so many steps at
most, and is done. -/
def Answers (s : Spool) (call : Nat) (record : Bytes) (bound : Nat) : Prop :=
  ∃ n t es, n ≤ bound ∧ GoesOn call n s t es (.accepted record.length) ∧
    t.writes = s.writes.remove call

/-- A call that is answered after so many steps is answered after more. -/
theorem Answers.mono {bound more : Nat} (h : Answers s call record bound) (hmore : bound ≤ more) :
    Answers s call record more := by
  obtain ⟨n, t, es, hn, hrest⟩ := h
  exact ⟨n, t, es, Nat.le_trans hn hmore, hrest⟩

/-- A call that steps into another phase, and goes on there. -/
theorem Answers.of_next {phase : WritePhase} {bound : Nat} (step : Transition s (.advance call) t es)
    (hreplies : replies es = []) (hput : t.writes = s.writes.put call ⟨record, phase⟩)
    (h : Answers t call record bound) : Answers s call record (bound + 1) := by
  obtain ⟨n, u, more, hn, hrest, hwrites⟩ := h
  refine ⟨n + 1, u, es ++ more, Nat.succ_le_succ hn, .next step hreplies hrest, ?_⟩
  rw [hwrites, hput, Calls.remove_put]

theorem answers_losing (hw : s.writes.find? call = some ⟨record, .losing⟩) :
    Answers s call record 1 :=
  ⟨1, _, _, Nat.le_refl 1, .answered (.countLost hw) rfl, rfl⟩

theorem answers_waking (hw : s.writes.find? call = some ⟨record, .waking⟩) :
    Answers s call record 2 :=
  .of_next (.wakeFromWrite hw) rfl rfl (answers_losing (Calls.find?_put_self hw _))

theorem answers_refused (hw : s.writes.find? call = some ⟨record, .refused⟩) :
    Answers s call record 3 := by
  by_cases hlast : s.pending = 1
  · refine .of_next (.giveBack hw) rfl rfl (answers_waking ?_)
    simpa [hlast] using Calls.find?_put_self hw ⟨record, .waking⟩
  · refine .of_next (.giveBack hw) rfl rfl ((answers_losing ?_).mono (by omega))
    simpa [hlast] using Calls.find?_put_self hw ⟨record, .losing⟩

theorem answers_reserved (hw : s.writes.find? call = some ⟨record, .reserved⟩) :
    Answers s call record 4 := by
  by_cases hroom : s.worker.isAlive = true ∧ s.channel.size < s.capacity
  · exact ⟨1, _, _, by omega, .answered (.send hw hroom.1 hroom.2) rfl, rfl⟩
  · exact .of_next (.refuse hw hroom) rfl rfl (answers_refused (Calls.find?_put_self hw _))

theorem answers_entered (hw : s.writes.find? call = some ⟨record, .entered⟩) :
    Answers s call record 5 := by
  by_cases hroom : s.pending < s.capacity
  · exact .of_next (.reserve hw hroom) rfl rfl (answers_reserved (Calls.find?_put_self hw _))
  · exact .of_next (.overflow hw hroom) rfl rfl
      ((answers_losing (Calls.find?_put_self hw _)).mono (by omega))

/-- A call that writes is answered after at most five steps of its own. -/
theorem answers_of_find? {w : WriteCall} (hw : s.writes.find? call = some w) :
    Answers s call w.record 5 := by
  obtain ⟨record, phase⟩ := w
  cases phase with
  | losing => exact (answers_losing hw).mono (by omega)
  | waking => exact (answers_waking hw).mono (by omega)
  | refused => exact (answers_refused hw).mono (by omega)
  | reserved => exact (answers_reserved hw).mono (by omega)
  | entered => exact answers_entered hw

end Spool

end LogSpool
