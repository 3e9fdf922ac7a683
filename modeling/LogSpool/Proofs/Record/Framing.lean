import LogSpool.Proofs.Record.Line
import LogSpool.Proofs.Spool.Delivery
set_option autoImplicit false

/-!
# Records: one line each

The newline after the line of a record is the only one: records that are added to a buffer can
be told apart again, and a sink in memory shows each record that was written as a line of its
own.

* `lines_are_framed` : what any records make of any buffer, and what a sink in memory shows
  after any run in which nothing but lines of records is written.
-/

namespace LogSpool

namespace Spool

variable {s : Spool} {actions : List Action} {effects : List Effect}

/-! ## What a sink in memory shows -/

/-- The sink was asked for nothing but what some call started to write. -/
theorem entered_of_attempted {capacity : Nat} (hcapacity : 0 < capacity)
    (h : (start capacity).run actions = some (s, effects)) {record : Bytes}
    (hrecord : record ∈ attempts effects) : ∃ call, (call, record) ∈ entered actions := by
  have hqueued := (trail_of_run hcapacity h).attempted.subset hrecord
  rw [queued_eq_map_sent] at hqueued
  obtain ⟨⟨call, bytes⟩, hsent, rfl⟩ := List.mem_map.mp hqueued
  have hmine : (call, bytes) ∈ ofProducer (· == call) (sent effects) :=
    List.mem_filter.mpr ⟨hsent, by simp⟩
  have hentered := (sent_sublist_entered h (oneAtATime_of_run h call)).subset hmine
  exact ⟨call, (List.mem_filter.mp hentered).1⟩

/-- Where every record is handed on, those that were handed on are the first of them, and they
are counted as written. -/
theorem written_of_forward (records : List Bytes) (n : Nat) :
    Session.forwarded (records.zip (List.replicate n Ending.forward)) = records.take n ∧
      written (fates records ((records.zip (List.replicate n Ending.forward)).map
        fun c => c.2.outcome c.1)) = records.take n := by
  induction records generalizing n with
  | nil => exact ⟨by simp [Session.forwarded], by simp [written, fates]⟩
  | cons record rest ih =>
    cases n with
    | zero => exact ⟨rfl, rfl⟩
    | succ n =>
      obtain ⟨hforwarded, hwritten⟩ := ih n
      refine ⟨congrArg (record :: ·) hforwarded, ?_⟩
      have hcons : fates (record :: rest) (((record :: rest).zip
            (List.replicate (n + 1) Ending.forward)).map fun c => c.2.outcome c.1) =
          (record, (Ending.forward.outcome record).fate record) ::
            fates rest ((rest.zip (List.replicate n Ending.forward)).map fun c => c.2.outcome c.1) := rfl
      rw [hcons, fate_forward]
      exact congrArg (record :: ·) hwritten

theorem exists_records {lines : List Bytes} (h : ∀ line ∈ lines, ∃ r : Record, line = r.encode) :
    ∃ records : List Record, lines = records.map Record.encode := by
  induction lines with
  | nil => exact ⟨[], rfl⟩
  | cons line rest ih =>
    obtain ⟨⟨r, rfl⟩, hrest⟩ := List.forall_mem_cons.mp h
    obtain ⟨records, rfl⟩ := ih hrest
    exact ⟨r :: records, rfl⟩

/-- Whatever was in a buffer and whatever records are added to it: what was there stays, and what
was added, cut at its newlines, is the line of each record in turn, of which each is valid UTF-8
without a byte below 0x20.  And in every run in which nothing but such lines is written, a fresh
sink in memory shows the lines of the records that were counted as written, in the order in which
they were delivered, and of one that is just about to be counted. -/
theorem lines_are_framed :
    (∀ (records : List Record) (buffer : Bytes),
      (Record.appendAll records buffer).take buffer.length = buffer ∧
        ((Record.appendAll records buffer).drop buffer.length).splitOn newlineByte =
          records.map Record.lineBytes ++ [[]] ∧
        ∀ r ∈ records, Utf8.decode? r.lineBytes = some r.object ∧
          ∀ b ∈ r.lineBytes, 0x20 ≤ b.toNat) ∧
      ∀ {settings : SpoolSettings} {actions : List Action} {s : Spool} {effects : List Effect}
        {world : Session} {j n : Nat} {sink : SinkState},
        (start settings.slots).run actions = some (s, effects) →
        (∀ p ∈ entered actions, ∃ r : Record, p.2 = r.encode) →
        world.sinks[j]? = some sink → sink.kind = .memory → sink.memory = [] →
        (world.endWriteCalls j ((attempts effects).zip (List.replicate n Ending.forward))).2 =
          outcomes actions →
        ∃ records : List Record,
          written (verdicts effects ++ s.worker.judgment) = records.map Record.encode ∧
            ((world.endWriteCalls j ((attempts effects).zip
              (List.replicate n Ending.forward))).1.sinks[j]?).map
                (fun sink => Text.linesOfBytes sink.memory) =
              some (records.map fun r => String.ofList r.object) := by
  refine ⟨fun records buffer => ?_, ?_⟩
  · rw [Record.appendAll_eq, List.take_left, List.drop_left]
    exact ⟨rfl, Record.splitOn_flatten records,
      fun r _ => ⟨r.decode?_lineBytes, fun b hb => r.le_of_mem_lineBytes hb⟩⟩
  · intro settings actions s effects world j n sink h hlines hsink hkind hfresh hanswers
    have hone := (slots_bounds settings).1
    obtain ⟨hforwarded, hwritten⟩ := written_of_forward (attempts effects) n
    obtain ⟨after, next, hcalls, hnext, hmemory⟩ := Session.memory_of_endWriteCalls hsink
      (by rw [hkind]; rfl) ((attempts effects).zip (List.replicate n Ending.forward))
    rw [hcalls] at hanswers ⊢
    have hencoded : ∀ line ∈ (attempts effects).take n, ∃ r : Record, line = r.encode := by
      intro line hline
      obtain ⟨call, hentered⟩ := entered_of_attempted hone h (List.mem_of_mem_take hline)
      exact hlines _ hentered
    obtain ⟨records, hrecords⟩ := exists_records hencoded
    refine ⟨records, ?_, ?_⟩
    · rw [(trail_of_run hone h).judged, ← hanswers, hwritten, hrecords]
    · rw [hnext, Option.map_some, hmemory, hfresh, List.nil_append, hforwarded, hrecords,
        Record.linesOfBytes_flatten]

/-- A record with line ends in every place that a text has in it. -/
def ragged : Record where
  timestamp := ⟨0, 0⟩
  level := "INFO"
  target := "a\nb"
  modulePath := none
  file := none
  line := some 7
  message := some "one\r\ntwo\u2028\x01"
  fields := [("\r\n", .array [.text "\n", .object [("\x0b", .null)]])]
  serviceName := some "\"\\"

/-- A record with nothing in it. -/
def blank : Record where
  timestamp := ⟨0, 0⟩
  level := ""
  target := ""
  modulePath := none
  file := none
  line := none
  message := none
  fields := []
  serviceName := none

/-- Two records are queued, and the sink takes the first. -/
def firstTaken (first second : Bytes) : List Action :=
  [.enter 0 first, .advance 0, .advance 0, .enter 1 second, .advance 1, .advance 1,
    .receive, .await, .finish (.returned first.length)]

/-- When the first is counted the sink takes the second. -/
def secondTaken (second : Bytes) : List Action :=
  [.release, .receive, .await, .finish (.returned second.length)]

/-- Whatever two records are written like this, the run is possible, and both are counted as
written or about to be. -/
theorem run_bothTaken {first second : Bytes} (hfirst : first ≠ []) (hsecond : second ≠ []) :
    ∃ s effects, (start ({} : SpoolSettings).slots).run
        (firstTaken first second ++ .judge :: secondTaken second) = some (s, effects) ∧
      attempts effects = [first, second] ∧
      written (verdicts effects ++ s.worker.judgment) = [first, second] := by
  obtain ⟨b, rest, rfl⟩ := List.exists_cons_of_ne_nil hfirst
  obtain ⟨c, more, rfl⟩ := List.exists_cons_of_ne_nil hsecond
  have hparts : ∃ t before, (start ({} : SpoolSettings).slots).run
        (firstTaken (b :: rest) (c :: more)) = some (t, before) ∧
      t.worker = .judging (b :: rest) (.returned (b :: rest).length) ∧
      attempts before = [b :: rest] ∧
      ∀ healthy, ∃ u after, { t with healthy := healthy, worker := .releasing }.run
        (secondTaken (c :: more)) = some (u, after) ∧ attempts after = [c :: more] :=
    ⟨_, _, rfl, rfl, rfl, fun _ => ⟨_, _, rfl, rfl⟩⟩
  obtain ⟨t, before, hbefore, hworker, hfirst, hafter⟩ := hparts
  obtain ⟨u, after, hlast, hsecond⟩ := hafter _
  have hrun := run_join hbefore (.judge hworker) hlast
  refine ⟨u, _, hrun, ?_⟩
  rw [(trail_of_run (slots_bounds {}).1 hrun).judged, attempts_append, attempts_append,
    (records_judge _ _ _).1, hfirst, hsecond]
  refine ⟨rfl, ?_⟩
  change written [(b :: rest, (Ending.forward.outcome (b :: rest)).fate (b :: rest)),
    (c :: more, (Ending.forward.outcome (c :: more)).fate (c :: more))] = _
  rw [fate_forward, fate_forward]
  rfl

/-- A record with line ends everywhere is one line in a buffer, and one of two in a sink. -/
theorem lines_are_framed_ragged :
    ((Record.appendAll [ragged, blank] [newlineByte]).drop 1).splitOn newlineByte =
        [ragged.lineBytes, blank.lineBytes, []] ∧
      ∃ (s : Spool) (effects : List Effect) (world : Session),
        (start ({} : SpoolSettings).slots).run
            (firstTaken ragged.encode blank.encode ++ .judge :: secondTaken blank.encode) =
              some (s, effects) ∧
          written (verdicts effects ++ s.worker.judgment) = [ragged, blank].map Record.encode ∧
          ((world.endWriteCalls 0 ((attempts effects).zip
            (List.replicate 2 Ending.forward))).1.sinks[0]?).map
              (fun sink => Text.linesOfBytes sink.memory) =
            some ([ragged, blank].map fun r => String.ofList r.object) := by
  obtain ⟨hbuffer, hmemory⟩ := lines_are_framed
  refine ⟨(hbuffer [ragged, blank] [newlineByte]).2.1, ?_⟩
  -- What the records are plays no part in the run.
  generalize ragged = first
  generalize blank = second
  have hfirst : first.encode ≠ [] := nofun
  have hsecond : second.encode ≠ [] := nofun
  obtain ⟨s, effects, hrun, hattempts, hcounted⟩ := run_bothTaken hfirst hsecond
  have hlines : ∀ p ∈ entered (firstTaken first.encode second.encode ++
      .judge :: secondTaken second.encode), ∃ r : Record, p.2 = r.encode := by
    have hentered : entered (firstTaken first.encode second.encode ++
      .judge :: secondTaken second.encode) = [(0, first.encode), (1, second.encode)] := rfl
    rw [hentered]
    simp only [List.forall_mem_cons]
    exact ⟨⟨first, rfl⟩, ⟨second, rfl⟩, nofun⟩
  have hanswers : ∀ a b : Bytes, (Session.endWriteCalls { sinks := #[{ kind := .memory }] } 0
      ([a, b].zip (List.replicate 2 Ending.forward))).2 =
        [.returned a.length, .returned b.length] := fun _ _ => rfl
  obtain ⟨records, hwritten, hshown⟩ := @hmemory {} _ _ _ { sinks := #[{ kind := .memory }] } 0 2 _
    hrun hlines rfl rfl rfl (by rw [hattempts, hanswers]; rfl)
  have hobjects : records.map Record.object = [first, second].map Record.object :=
    Record.map_object_of_encode (hwritten.symm.trans hcounted)
  refine ⟨s, effects, _, hrun, hcounted, hshown.trans ?_⟩
  have hmap : ∀ rs : List Record, rs.map (fun r => String.ofList r.object) =
      (rs.map Record.object).map String.ofList := by
    intro rs
    rw [List.map_map]
    rfl
  rw [hmap, hmap, hobjects]

end Spool

end LogSpool
