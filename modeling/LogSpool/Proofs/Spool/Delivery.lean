import LogSpool.Proofs.Session.Memory
import LogSpool.Proofs.Spool.Producers
import LogSpool.Proofs.Spool.Trail
set_option autoImplicit false

/-!
# Spools: delivery

The sink is asked to write what was queued, in that order and byte by byte, and nothing
else: the trail of the worker is a prefix of what joined the channel, and what joined the
channel is, producer by producer, part of what the producer wrote.

* `delivered_in_order` : after every run the attempts are the first of the records that
  joined the channel, those that are left stand in the channel, no producer's records
  change their order, and a sink in memory holds the records that were handed on to it.
-/

namespace LogSpool.Spool

theorem fate_forward (record : Bytes) : (Ending.forward.outcome record).fate record = .written := by
  simp [Ending.outcome, Outcome.fate, Outcome.succeeds, Outcome.failure?]

/-- The records that were counted as written, in order. -/
def written (counted : List (Bytes × Fate)) : List Bytes :=
  counted.filterMap fun
    | (record, .written) => some record
    | _ => none

theorem forwarded_sublist_written (records : List Bytes) (ends : List Ending) :
    (Session.forwarded (records.zip ends)).Sublist
      (written (fates records ((records.zip ends).map fun c => c.2.outcome c.1))) := by
  induction records generalizing ends with
  | nil => exact List.Sublist.refl _
  | cons record rest ih =>
    cases ends with
    | nil => exact List.Sublist.refl _
    | cons ending more =>
      have hrest := ih more
      have hcons : fates (record :: rest)
            (((record :: rest).zip (ending :: more)).map fun c => c.2.outcome c.1) =
          (record, (ending.outcome record).fate record) ::
            fates rest ((rest.zip more).map fun c => c.2.outcome c.1) := rfl
      rw [hcons]
      cases ending with
      | forward =>
        rw [fate_forward]
        exact hrest.cons_cons record
      | _ =>
        -- A call that hands nothing on may be counted either way.
        cases ((_ : Ending).outcome record).fate record with
        | written => exact hrest.cons record
        | dropped => exact hrest

/-- The records that joined the channel are, producer by producer, among those that were
written, in the same order. -/
theorem sent_sublist_entered {capacity : Nat} {s : Spool} {actions : List Action}
    {effects : List Effect} (h : (start capacity).run actions = some (s, effects))
    {mine : Nat → Bool} (hturns : oneAtATime mine (start capacity) actions = true) :
    (ofProducer mine (sent effects)).Sublist (ofProducer mine (entered actions)) := by
  obtain ⟨underWay, haccount⟩ := account_of_run h hturns
  have hdealt : (ofProducer mine (dealt effects)).Sublist (ofProducer mine (entered actions)) :=
    (List.prefix_append _ _).sublist.trans haccount.inOrder.sublist
  exact ((sent_sublist_dealt effects).filter _).trans hdealt

/-- After every run of a spool with any capacity, whatever the sink does: the sink was
asked to write the first of the records that joined the channel, in the order in which they
joined it, each once, and nothing else; as long as the worker is there, the rest of them
stand in the channel in that order.  Each of these records is one that its call started to
write, byte by byte, and the records of a producer that makes one call at a time have kept
their order.  A sink in memory whose calls came to some ends, and were answered as the run
has it, holds exactly the records that were handed on to it, one after another, and each
of them is counted as written. -/
theorem delivered_in_order (settings : SpoolSettings) {s : Spool} {actions : List Action}
    {effects : List Effect} (h : (start settings.slots).run actions = some (s, effects)) :
    attempts effects <+: (sent effects).map (·.2) ∧
      (s.worker.isAlive = true →
        (sent effects).map (·.2) = attempts effects ++ s.channel.toList) ∧
      (∀ call, (ofProducer (· == call) (sent effects)).Sublist
        (ofProducer (· == call) (entered actions))) ∧
      (∀ mine, oneAtATime mine (start settings.slots) actions = true →
        (ofProducer mine (sent effects)).Sublist (ofProducer mine (entered actions))) ∧
      (∀ (world : Session) (j : Nat) (sink : SinkState) (ends : List Ending),
        world.sinks[j]? = some sink → sink.kind.keeps = true →
        (world.endWriteCalls j ((attempts effects).zip ends)).2 = outcomes actions →
        (((world.endWriteCalls j ((attempts effects).zip ends)).1.sinks[j]?).map (·.memory) =
            some (sink.memory ++ (Session.forwarded ((attempts effects).zip ends)).flatten) ∧
          (Session.forwarded ((attempts effects).zip ends)).Sublist
            (written (verdicts effects ++ s.worker.judgment)))) := by
  have hone := (slots_bounds settings).1
  have trail := trail_of_run hone h
  have hturns := oneAtATime_of_run h
  rw [← queued_eq_map_sent]
  refine ⟨trail.attempted, fun halive => ?_, fun call => sent_sublist_entered h (hturns call),
    fun mine => sent_sublist_entered h, fun world j sink ends hsink hkeeps hanswers => ?_⟩
  · obtain ⟨ledger, hbooks⟩ := books_of_run hone h
    rw [hbooks.inOrder, hbooks.owing halive, trail.current halive, List.append_assoc]
  · obtain ⟨after, next, hcalls, hnext, hmemory⟩ :=
      Session.memory_of_endWriteCalls hsink hkeeps ((attempts effects).zip ends)
    rw [hcalls] at hanswers ⊢
    refine ⟨by rw [hnext, ← hmemory]; rfl, ?_⟩
    rw [trail.judged, ← hanswers]
    exact forwarded_sublist_written (attempts effects) ends

/-- One producer makes the calls 0 and 2, another the call 1, which overtakes it between its
slot and the channel.  A third record of the first producer finds no slot, a fourth does.
The sink fails with the first record it is given, and is in the call with the last. -/
def interleaved : List Action :=
  [.enter 0 [1], .advance 0, .enter 1 [2], .advance 1, .advance 1, .advance 0,
    .enter 2 [3], .advance 2, .advance 2,
    .receive, .await, .finish (.failed "refused"), .judge, .release,
    .enter 2 [4], .advance 2, .advance 2,
    .receive, .await, .finish (.returned 1), .judge, .release, .receive]

/-- The records arrive as they joined the channel, the first producer's among them in its
own order, and the memory holds the one that was handed on. -/
theorem delivered_in_order_interleaved :
    ∃ s effects, (start ({ capacity := 2 } : SpoolSettings).slots).run interleaved =
        some (s, effects) ∧
      attempts effects = [[2], [1], [4]] ∧
      attempts effects <+: (sent effects).map (·.2) ∧
      [(0, [1]), (2, [4])].Sublist (ofProducer (· % 2 == 0) (entered interleaved)) ∧
      ∃ world : Session, (world.sinks[0]?).map (·.memory) = some [] ∧
        (((world.endWriteCalls 0 ((attempts effects).zip [.fail "refused", .forward])).1.sinks[0]?).map
          (·.memory)) = some [1] := by
  obtain ⟨hfirst, -, -, hturns, hmemory⟩ := @delivered_in_order { capacity := 2 } _ interleaved _ rfl
  have hkept := (hmemory { sinks := #[{ kind := .scripted {} }] } 0 _ [.fail "refused", .forward]
    rfl rfl rfl).1
  exact ⟨_, _, rfl, rfl, hfirst, hturns (· % 2 == 0) rfl, _, rfl, hkept⟩

end LogSpool.Spool
