import LogSpool.Session.Report
import LogSpool.Session.Work
set_option autoImplicit false

/-!
# Sessions: sinks in memory

A sink in memory keeps every record that is handed on to it, whole and after those before
it; a call that fails, panics or reports a count of its own leaves the memory as it is.
`endWriteCalls` brings the calls on a sink to their ends one after another, and
`memory_of_endWriteCalls` says what the memory holds then.
-/

namespace LogSpool

/-- A sink of this kind keeps in memory what is handed on to it. -/
def SinkKind.keeps : SinkKind → Bool
  | .memory => true
  | .scripted script => script.keeps
  | _ => false

/-- How a write call that came to this end is answered, if what is handed on is taken whole. -/
def Ending.outcome (record : Bytes) : Ending → Outcome
  | .forward => .returned record.length
  | .fail error => .failed error
  | .panic payload => .panicked payload
  | .count n => .returned n
  | .short n => .returned (record.length - n)

namespace Session

/-- The records that were handed on, in order. -/
def forwarded (calls : List (Bytes × Ending)) : List Bytes :=
  calls.filterMap fun
    | (record, .forward) => some record
    | _ => none

/-- Bring write calls on a sink to their ends, one after another, and say how each is
answered. -/
def endWriteCalls (s : Session) (j : Nat) : List (Bytes × Ending) → Session × List Outcome
  | [] => (s, [])
  | (record, ending) :: rest =>
    let (s, outcome) := s.endWriteCall j record ending
    let (s, outcomes) := s.endWriteCalls j rest
    (s, outcome :: outcomes)

theorem getElem?_modifySink (s : Session) (j : Nat) (f : SinkState → SinkState) :
    (s.modifySink j f).sinks[j]? = (s.sinks[j]?).map f := by
  simp [modifySink, Array.getElem?_modify]

theorem memory_push {sink : SinkState} (hkeeps : sink.kind.keeps = true) (record : Bytes) :
    { sink with kept := sink.kept.push record }.memory = sink.memory ++ record := by
  cases hkind : sink.kind with
  | scripted | memory => simp [SinkState.memory, hkind]
  | _ => simp [hkind, SinkKind.keeps] at hkeeps

/-- A sink in memory takes what is handed on to it whole, and keeps it. -/
theorem acceptRecord_of_keeps {s : Session} {j : Nat} {sink : SinkState}
    (hsink : s.sinks[j]? = some sink) (hkeeps : sink.kind.keeps = true) (record : Bytes) :
    s.acceptRecord j record =
      (s.modifySink j fun sink => { sink with kept := sink.kept.push record },
        .returned record.length) := by
  unfold acceptRecord
  cases hkind : sink.kind with
  | memory => simp [hsink, hkind]
  | scripted script =>
    rw [hkind] at hkeeps
    simp only [SinkKind.keeps] at hkeeps
    simp [hsink, hkind, hkeeps]
  | _ => simp [hkind, SinkKind.keeps] at hkeeps

theorem endWriteCall_of_keeps {s : Session} {j : Nat} {sink : SinkState}
    (hsink : s.sinks[j]? = some sink) (hkeeps : sink.kind.keeps = true) (record : Bytes)
    (ending : Ending) :
    ∃ t next, s.endWriteCall j record ending = (t, ending.outcome record) ∧
      t.sinks[j]? = some next ∧ next.kind = sink.kind ∧
      next.memory = sink.memory ++ (forwarded [(record, ending)]).flatten := by
  cases ending with
  | forward =>
    refine ⟨_, { sink with kept := sink.kept.push record },
      acceptRecord_of_keeps hsink hkeeps record, ?_, rfl, ?_⟩
    · rw [getElem?_modifySink, hsink]
      rfl
    · rw [memory_push hkeeps]
      exact congrArg (sink.memory ++ ·) (List.append_nil record).symm
  | fail | panic | count | short => exact ⟨s, sink, rfl, hsink, rfl, (List.append_nil _).symm⟩

/-- Whatever ends the calls on a sink in memory come to, it holds the records that were
handed on, one after another. -/
theorem memory_of_endWriteCalls {s : Session} {j : Nat} {sink : SinkState}
    (hsink : s.sinks[j]? = some sink) (hkeeps : sink.kind.keeps = true)
    (calls : List (Bytes × Ending)) :
    ∃ t next, s.endWriteCalls j calls = (t, calls.map fun c => c.2.outcome c.1) ∧
      t.sinks[j]? = some next ∧ next.memory = sink.memory ++ (forwarded calls).flatten := by
  induction calls generalizing s sink with
  | nil => exact ⟨s, sink, rfl, hsink, (List.append_nil _).symm⟩
  | cons call rest ih =>
    obtain ⟨record, ending⟩ := call
    obtain ⟨t, kept, hcall, ht, hkind, hmemory⟩ := endWriteCall_of_keeps hsink hkeeps record ending
    obtain ⟨u, next, hrest, hu, hmore⟩ := ih ht (hkind ▸ hkeeps)
    refine ⟨u, next, ?_, hu, ?_⟩
    · simp only [endWriteCalls, hcall, hrest, List.map_cons]
    · rw [hmore, hmemory, List.append_assoc, ← List.flatten_append]
      congr 2
      exact List.filterMap_append.symm

end Session

end LogSpool
