import LogSpool.Proofs.Session.Memory
import LogSpool.Proofs.Spool.Health
set_option autoImplicit false

/-!
# Sinks: records in a stream

A stream may take a record in any pieces, and stop anywhere.  What it has taken of a record is the
front of it, and it is the whole record exactly if the write was answered with the record's length;
that is `Written.IsAllOrCounted`.  Where a stream takes something of every offer until it has so
many bytes, the pieces in which it takes them make no difference (`Capped`).

* `records_whole_or_counted` : the bytes that a stream receives of any records, the fates of the
  records that a worker writes to it, and streams that differ in their pieces only.
-/

namespace LogSpool

/-- How a sink over a stream answers the write of a record. -/
def Written.outcome {σ : Type} (w : Written σ) (record : Bytes) : Outcome :=
  match w.failure? with
  | some error => .failed error
  | none => .returned record.length

/-- What came of a record that was written to a stream. -/
structure Written.IsAllOrCounted {σ : Type} (w : Written σ) (record : Bytes) : Prop where
  /-- The stream took the front of the record. -/
  front : w.taken <+: record
  /-- It took the whole record exactly if the answer is the record's length. -/
  whole : w.taken = record ↔ w.outcome record = .returned record.length
  /-- It took less exactly if the write failed. -/
  part : w.taken ≠ record ↔ ∃ error, w.outcome record = .failed error
  /-- If the record counts as dropped, the reason is why the stream did not take it. -/
  reason : (w.outcome record).failure? record.length = w.failure?

/-- A record is whole in a stream exactly if its write did not fail. -/
theorem Written.IsAllOrCounted.failure?_eq_none_iff {σ : Type} {w : Written σ} {record : Bytes}
    (h : w.IsAllOrCounted record) : w.failure? = none ↔ w.taken = record := by
  rw [h.whole]
  unfold Written.outcome
  cases w.failure? <;> simp

namespace Stream

variable {σ τ : Type}

/-! ## One record after another -/

/-- Write records to a stream, one after another, whatever comes of them. -/
def writeEach (write : Stream σ) (state : σ) : List Bytes → List (Written σ)
  | [] => []
  | record :: rest =>
    let result := writeAll write state record
    result :: writeEach write result.stream rest

/-- The stream when records were written to it. -/
def stateAfter (write : Stream σ) (state : σ) (records : List Bytes) : σ :=
  records.foldl (fun state record => (writeAll write state record).stream) state

/-- The answers to the writes of records. -/
def answers (write : Stream σ) (state : σ) (records : List Bytes) : List Outcome :=
  List.zipWith Written.outcome (writeEach write state records) records

/-- The bytes that a stream has taken of records, one record after another. -/
def contents (results : List (Written σ)) : Bytes := (results.map (·.taken)).flatten

/-- A stream that writes down every byte it takes. -/
def logged (write : Stream σ) : Stream (σ × Bytes) := fun state bytes =>
  match write state.1 bytes with
  | (.took n, next) => (.took n, next, state.2 ++ bytes.take n)
  | (.failed error, next) => (.failed error, next, state.2)

/-- The bytes that a stream receives when records are written to it, as the stream itself has
them. -/
def received (write : Stream σ) (state : σ) (records : List Bytes) : Bytes :=
  (stateAfter (logged write) (state, []) records).2

/-! ## One record -/

section

variable {write : Stream σ} {state next : σ} {b : UInt8} {rest : Bytes}

/-- A stream that fails has taken nothing of its offer. -/
theorem writeAll_of_failed {error : String} (h : write state (b :: rest) = (.failed error, next)) :
    writeAll write state (b :: rest) = ⟨some error, [], next⟩ := by
  rw [writeAll, h]

theorem writeAll_of_zero (h : write state (b :: rest) = (.took 0, next)) :
    writeAll write state (b :: rest) = ⟨some writeZero, [], next⟩ := by
  rw [writeAll, h]

theorem writeAll_of_took {n : Nat} (h : write state (b :: rest) = (.took (n + 1), next)) :
    writeAll write state (b :: rest) =
      ⟨(writeAll write next (rest.drop n)).failure?,
        b :: rest.take n ++ (writeAll write next (rest.drop n)).taken,
        (writeAll write next (rest.drop n)).stream⟩ := by
  rw [writeAll, h]

end

theorem taken_writeAll (write : Stream σ) (state : σ) (bytes : Bytes) :
    (writeAll write state bytes).taken <+: bytes := by
  fun_induction writeAll write state bytes with
  | case1 => exact List.prefix_refl _
  | case2 | case3 => exact List.nil_prefix
  | case4 state b rest n next heq result ih =>
    have hfront : rest.take n ++ result.taken <+: rest.take n ++ rest.drop n :=
      (List.prefix_append_right_inj _).mpr ih
    rw [List.take_append_drop] at hfront
    exact List.cons_prefix_cons.mpr ⟨rfl, hfront⟩

/-- A write comes to its end without a failure exactly if the stream took the whole record. -/
theorem failure?_writeAll (write : Stream σ) (state : σ) (bytes : Bytes) :
    (writeAll write state bytes).failure? = none ↔ (writeAll write state bytes).taken = bytes := by
  fun_induction writeAll write state bytes with
  | case1 | case2 | case3 => simp
  | case4 state b rest n next heq result ih =>
    calc result.failure? = none
      _ ↔ result.taken = rest.drop n := ih
      _ ↔ rest.take n ++ result.taken = rest.take n ++ rest.drop n := List.append_right_inj _ |>.symm
      _ ↔ b :: rest.take n ++ result.taken = b :: rest := by
        rw [List.take_append_drop, List.cons_append, List.cons.injEq, and_iff_right rfl]

theorem writeAll_logged (write : Stream σ) (state : σ) (got bytes : Bytes) :
    writeAll (logged write) (state, got) bytes =
      { failure? := (writeAll write state bytes).failure?
        taken := (writeAll write state bytes).taken
        stream :=
          ((writeAll write state bytes).stream, got ++ (writeAll write state bytes).taken) } := by
  fun_induction writeAll write state bytes generalizing got with
  | case1 => rw [writeAll, List.append_nil]
  | case2 state b rest error next heq =>
    have hlogged : logged write (state, got) (b :: rest) = (.failed error, next, got) := by
      simp only [logged, heq]
    rw [writeAll_of_failed hlogged, List.append_nil]
  | case3 state b rest next heq =>
    have hlogged : logged write (state, got) (b :: rest) = (.took 0, next, got) := by
      simp only [logged, heq, List.take_zero, List.append_nil]
    rw [writeAll_of_zero hlogged, List.append_nil]
  | case4 state b rest n next heq result ih =>
    have hlogged : logged write (state, got) (b :: rest) =
        (.took (n + 1), next, got ++ b :: rest.take n) := by
      simp only [logged, heq, List.take_succ_cons]
    rw [writeAll_of_took hlogged, ih, List.append_assoc]

theorem isAllOrCounted_writeAll (write : Stream σ) (state : σ) (record : Bytes) :
    (writeAll write state record).IsAllOrCounted record := by
  have hwhole := failure?_writeAll write state record
  have hfront := taken_writeAll write state record
  generalize writeAll write state record = w at hwhole hfront
  obtain ⟨failure?, taken, stream⟩ := w
  cases failure? with
  | none =>
    obtain rfl : taken = record := hwhole.mp rfl
    exact ⟨hfront, by simp [Written.outcome], by simp [Written.outcome],
      by simp [Written.outcome, Outcome.failure?]⟩
  | some error =>
    have hless : taken ≠ record := fun h => Option.some_ne_none error (hwhole.mpr h)
    exact ⟨hfront, by simp [Written.outcome, hless], by simp [Written.outcome, hless], rfl⟩

/-! ## Many records -/

/-- A stream that keeps a log behaves like one that keeps none, and its log is what it took. -/
theorem stateAfter_logged (write : Stream σ) (state : σ) (got : Bytes) (records : List Bytes) :
    stateAfter (logged write) (state, got) records =
      (stateAfter write state records, got ++ contents (writeEach write state records)) := by
  induction records generalizing state got with
  | nil => exact congrArg (Prod.mk state) (List.append_nil got).symm
  | cons record rest ih =>
    have hlogged :=
      ih (writeAll write state record).stream (got ++ (writeAll write state record).taken)
    rw [List.append_assoc] at hlogged
    simp only [stateAfter, List.foldl_cons, writeAll_logged] at hlogged ⊢
    exact hlogged

theorem received_eq (write : Stream σ) (state : σ) (records : List Bytes) :
    received write state records = contents (writeEach write state records) := by
  rw [received, stateAfter_logged, List.nil_append]

theorem length_writeEach (write : Stream σ) (state : σ) (records : List Bytes) :
    (writeEach write state records).length = records.length := by
  induction records generalizing state with
  | nil => rfl
  | cons record rest ih => exact congrArg (· + 1) (ih _)

/-- Each record is whole in the stream or is answered with an error, whatever came of those before
it. -/
theorem isAllOrCounted_of_getElem? {write : Stream σ} {state : σ} {records : List Bytes} {i : Nat}
    {record : Bytes} {w : Written σ} (hrecord : records[i]? = some record)
    (hw : (writeEach write state records)[i]? = some w) : w.IsAllOrCounted record := by
  induction records generalizing state i with
  | nil => cases hrecord
  | cons first rest ih =>
    cases i with
    | zero =>
      cases hrecord
      cases hw
      exact isAllOrCounted_writeAll write state record
    | succ i => exact ih hrecord hw

/-- The records whose writes did not fail are those that the stream has whole. -/
theorem succeeded_writeEach (write : Stream σ) (state : σ) (records : List Bytes) :
    (writeEach write state records).map (·.failure?.isNone) =
      List.zipWith (· == ·) ((writeEach write state records).map (·.taken)) records := by
  induction records generalizing state with
  | nil => rfl
  | cons record rest ih =>
    have hwhole := failure?_writeAll write state record
    have hfirst : (writeAll write state record).failure?.isNone =
        ((writeAll write state record).taken == record) := by
      rw [Bool.eq_iff_iff, Option.isNone_iff_eq_none, beq_iff_eq, hwhole]
    rw [writeEach, List.map_cons, List.map_cons, List.zipWith_cons_cons, ih, hfirst]

/-! ## Streams of a certain size -/

/-- A stream that takes something of every offer until it has so many bytes in all, but no more
than so many of one offer, and nothing more then. -/
structure Capped (write : Stream σ) (total : σ → Nat) (chunk limit : Nat) : Prop where
  /-- While there is room for a byte it takes at least one. -/
  room : ∀ {state bytes}, total state < limit → bytes ≠ [] →
    ∃ n next, write state bytes = (.took (n + 1), next) ∧ n + 1 ≤ min chunk bytes.length ∧
      total next = total state + (n + 1) ∧ total next ≤ limit
  /-- Where there is none it takes nothing, and may say so with an error. -/
  full : ∀ {state bytes}, limit ≤ total state → bytes ≠ [] →
    ∃ answer next, write state bytes = (answer, next) ∧
      (answer = .took 0 ∨ ∃ error, answer = .failed error) ∧ total next = total state

namespace Capped

variable {write : Stream σ} {other : Stream τ} {total : σ → Nat} {size : τ → Nat}
  {chunk pieces limit : Nat}

/-- A stream that takes nothing is full. -/
theorem limit_le_of_stopped (h : Capped write total chunk limit) {state next : σ} {bytes : Bytes}
    {answer : Response} (hwrite : write state bytes = (answer, next)) (hbytes : bytes ≠ [])
    (hstopped : ∀ n, answer ≠ .took (n + 1)) :
    limit ≤ total state ∧ total next = total state := by
  rcases Nat.lt_or_ge (total state) limit with hroom | hfull
  · obtain ⟨n, _, htook, -⟩ := h.room hroom hbytes
    cases hwrite.symm.trans htook
    exact absurd rfl (hstopped n)
  · obtain ⟨_, _, hanswer, -, htotal⟩ := h.full hfull hbytes
    cases hwrite.symm.trans hanswer
    exact ⟨hfull, htotal⟩

theorem room_of_took (h : Capped write total chunk limit) {state next : σ} {bytes : Bytes} {n : Nat}
    (hwrite : write state bytes = (.took (n + 1), next)) (hbytes : bytes ≠ []) :
    n + 1 ≤ bytes.length ∧ total next = total state + (n + 1) ∧ total next ≤ limit := by
  rcases Nat.lt_or_ge (total state) limit with hroom | hfull
  · obtain ⟨_, _, htook, hmost, htotal, hless⟩ := h.room hroom hbytes
    cases hwrite.symm.trans htook
    exact ⟨Nat.le_trans hmost (Nat.min_le_right _ _), htotal, hless⟩
  · obtain ⟨_, _, hanswer, hstopped, -⟩ := h.full hfull hbytes
    cases hwrite.symm.trans hanswer
    rcases hstopped with hzero | ⟨error, hfailed⟩
    · cases hzero
    · cases hfailed

/-- Of a record the stream takes what there is room for. -/
theorem writeAll_eq (h : Capped write total chunk limit) {state : σ} (hlimit : total state ≤ limit)
    (record : Bytes) :
    (writeAll write state record).taken = record.take (limit - total state) ∧
      total (writeAll write state record).stream =
        total state + (writeAll write state record).taken.length := by
  fun_induction writeAll write state record with
  | case1 => simp
  | case2 state b rest error next hwrite =>
    obtain ⟨hfull, htotal⟩ := h.limit_le_of_stopped hwrite (List.cons_ne_nil b rest) nofun
    rw [Nat.sub_eq_zero_of_le hfull]
    exact ⟨rfl, htotal⟩
  | case3 state b rest next hwrite =>
    obtain ⟨hfull, htotal⟩ := h.limit_le_of_stopped hwrite (List.cons_ne_nil b rest) nofun
    rw [Nat.sub_eq_zero_of_le hfull]
    exact ⟨rfl, htotal⟩
  | case4 state b rest n next hwrite result ih =>
    obtain ⟨hmost, hnext, hless⟩ := h.room_of_took hwrite (List.cons_ne_nil b rest)
    obtain ⟨htaken, htotal⟩ : result.taken = (rest.drop n).take (limit - total next) ∧
      total result.stream = total next + result.taken.length := ih hless
    have hn : n ≤ rest.length := Nat.le_of_succ_le_succ hmost
    have hroom : limit - total state = n + (limit - total next) + 1 := by omega
    refine ⟨?_, ?_⟩
    · rw [hroom, List.take_succ_cons, List.take_add, List.cons_append, htaken]
    · change total result.stream = total state + (b :: (rest.take n ++ result.taken)).length
      rw [List.length_cons, List.length_append, List.length_take_of_le hn, htotal]
      omega

/-- Of all records together the stream takes what there is room for. -/
theorem contents_eq (h : Capped write total chunk limit) {state : σ} (hlimit : total state ≤ limit)
    (records : List Bytes) :
    contents (writeEach write state records) = records.flatten.take (limit - total state) := by
  induction records generalizing state with
  | nil => simp [writeEach, contents]
  | cons record rest ih =>
    obtain ⟨htaken, htotal⟩ := h.writeAll_eq hlimit record
    have hlength : (writeAll write state record).taken.length =
        min (limit - total state) record.length := by
      rw [htaken, List.length_take]
    have hleft : total (writeAll write state record).stream ≤ limit := by omega
    have hrest := ih hleft
    have hroom : limit - total (writeAll write state record).stream =
        limit - total state - record.length := by omega
    rw [List.flatten_cons, List.take_append, ← htaken, ← hroom, ← hrest]
    rfl

/-- In which pieces two streams take what they have room for makes no difference to what they take
of each record. -/
theorem taken_eq (h : Capped write total chunk limit) (h' : Capped other size pieces limit) {s : σ}
    {t : τ} (heq : total s = size t) (hlimit : total s ≤ limit) (records : List Bytes) :
    (writeEach write s records).map (·.taken) = (writeEach other t records).map (·.taken) := by
  induction records generalizing s t with
  | nil => rfl
  | cons record rest ih =>
    obtain ⟨htaken, htotal⟩ := h.writeAll_eq hlimit record
    obtain ⟨htaken', hsize⟩ := h'.writeAll_eq (heq ▸ hlimit) record
    have hsame : (writeAll write s record).taken = (writeAll other t record).taken := by
      rw [htaken, htaken', heq]
    have hlength := congrArg List.length htaken
    rw [List.length_take] at hlength
    rw [writeEach, writeEach, List.map_cons, List.map_cons, hsame,
      ih (by rw [htotal, hsize, hsame, heq]) (by omega)]

end Capped

/-- A throttled stream with a bound on what it takes of one offer, and another on what it takes in
all. -/
theorem capped_throttle {t : Throttle} {chunk limit : Nat} (hchunk : t.chunk = some chunk)
    (hlimit : t.limit = some limit) (hone : 1 ≤ chunk) :
    Capped t.write (·.total) chunk limit := by
  have hroom : ∀ total offered, t.room total offered = min (min offered chunk) (limit - total) := by
    intro total offered
    rw [Throttle.room, hchunk, hlimit]
    rfl
  refine ⟨fun {state bytes} hless hbytes => ?_, fun {state bytes} hfull hbytes => ?_⟩
  · have hlength := List.length_pos_iff.mpr hbytes
    obtain ⟨n, hn⟩ : ∃ n, t.room state.total bytes.length = n + 1 :=
      Nat.exists_eq_succ_of_ne_zero (by rw [hroom]; omega)
    refine ⟨n, { state with total := state.total + (n + 1), writes := state.writes + 1 },
      ?_, ?_, rfl, ?_⟩
    · simp only [Throttle.write, hn]
    · rw [← hn, hroom]; omega
    · rw [hroom] at hn
      dsimp only
      omega
  · have hzero : t.room state.total bytes.length = 0 := by
      rw [hroom]
      omega
    simp only [Throttle.write, hzero]
    cases t.writeError with
    | none => exact ⟨_, _, rfl, .inl rfl, rfl⟩
    | some error => exact ⟨_, _, rfl, .inr ⟨error, rfl⟩, rfl⟩

end Stream

/-! ## The sinks of a session -/

namespace Session

open LogSpool.Stream (writeEach answers contents)

theorem acceptRecord_of_stream {s : Session} {j : Nat} {sink : SinkState} {throttle : Throttle}
    (hsink : s.sinks[j]? = some sink) (hkind : sink.kind = .stream throttle) (record : Bytes) :
    ∃ t, s.acceptRecord j record =
        (t, (Stream.writeAll throttle.write sink.throttle record).outcome record) ∧
      t.sinks[j]? = some { sink with
        kept := sink.kept.push
          (Stream.writeAll throttle.write sink.throttle record).taken
        throttle := (Stream.writeAll throttle.write sink.throttle record).stream } := by
  simp only [acceptRecord, hsink, hkind]
  refine ⟨_, rfl, ?_⟩
  rw [getElem?_modifySink, getElem?_modifySink, hsink, Option.map_some, Option.map_some, hkind]

/-- A sink over a stream writes one record after another as its stream does. -/
theorem endWriteCalls_of_stream {s : Session} {j : Nat} {sink : SinkState} {throttle : Throttle}
    (hsink : s.sinks[j]? = some sink) (hkind : sink.kind = .stream throttle) (records : List Bytes) :
    ∃ t next, s.endWriteCalls j (records.map (·, .forward)) =
        (t, answers throttle.write sink.throttle records) ∧
      t.sinks[j]? = some next ∧
      next.kept.toList.flatten =
        sink.kept.toList.flatten ++ contents (writeEach throttle.write sink.throttle records) := by
  induction records generalizing s sink with
  | nil => exact ⟨s, sink, rfl, hsink, (List.append_nil _).symm⟩
  | cons record rest ih =>
    obtain ⟨t, hfirst, ht⟩ := acceptRecord_of_stream hsink hkind record
    obtain ⟨u, next, hrest, hu, hkept⟩ := ih ht hkind
    refine ⟨u, next, ?_, hu, ?_⟩
    · simp only [List.map_cons, endWriteCalls, endWriteCall, hfirst, hrest]
      rfl
    · rw [hkept, Array.toList_push, List.flatten_concat, List.append_assoc]
      rfl

end Session

namespace Spool

open LogSpool.Stream (writeEach answers contents received Capped)

variable {σ τ : Type} {write : Stream σ} {state : σ} {capacity : Nat} {s : Spool}
  {actions : List Action} {effects : List Effect}

/-- How the write of a record to a stream ended in a run that has the answers of the stream. -/
theorem written_of_outcome (hanswers : outcomes actions <+: answers write state (attempts effects))
    {i : Nat} {record : Bytes} {outcome : Outcome} (hrecord : (attempts effects)[i]? = some record)
    (houtcome : (outcomes actions)[i]? = some outcome) :
    ∃ w, (writeEach write state (attempts effects))[i]? = some w ∧ w.IsAllOrCounted record ∧
      outcome.failure? record.length = w.failure? := by
  obtain ⟨more, hmore⟩ := hanswers
  have hanswer : (answers write state (attempts effects))[i]? = some outcome := by
    rw [← hmore, List.getElem?_append_left (List.getElem?_eq_some_iff.mp houtcome).1, houtcome]
  obtain ⟨w, other, hw, hother, rfl⟩ := List.getElem?_zipWith_eq_some.mp hanswer
  cases hrecord.symm.trans hother
  have hcounted := Stream.isAllOrCounted_of_getElem? hrecord hw
  exact ⟨w, hw, hcounted, hcounted.reason⟩

theorem written_of_verdict (hcapacity : 0 < capacity)
    (h : (start capacity).run actions = some (s, effects))
    (hanswers : outcomes actions <+: answers write state (attempts effects)) {i : Nat}
    {record : Bytes} {fate : Fate}
    (hverdict : (verdicts effects ++ s.worker.judgment)[i]? = some (record, fate)) :
    ∃ w, (writeEach write state (attempts effects))[i]? = some w ∧ w.IsAllOrCounted record ∧
      (fate = .written ↔ w.taken = record) := by
  rw [(trail_of_run hcapacity h).judged] at hverdict
  obtain ⟨_, outcome, hrecord, houtcome, heq⟩ := List.getElem?_zipWith_eq_some.mp hverdict
  cases heq
  obtain ⟨w, hw, hcounted, hreason⟩ := written_of_outcome hanswers hrecord houtcome
  refine ⟨w, hw, hcounted, ?_⟩
  rw [Outcome.fate, Outcome.succeeds, hreason, ← hcounted.failure?_eq_none_iff]
  cases w.failure? <;> simp

/-- The failures that a worker reports of its writes to a stream are those of the stream. -/
theorem failure_of_report (hcapacity : 0 < capacity)
    (h : (start capacity).run actions = some (s, effects))
    (hanswers : outcomes actions <+: answers write state (attempts effects)) {error : String}
    (hreport : .failing error ∈ writeReports effects) :
    ∃ w ∈ writeEach write state (attempts effects), w.failure? = some error := by
  rw [(chronicle_of_run hcapacity h).reported] at hreport
  obtain ⟨a, hmem, hfailed⟩ := Attempt.failure?_of_mem_notices hreport
  obtain ⟨i, hi⟩ := List.mem_iff_getElem?.mp (List.mem_of_mem_take hmem)
  obtain ⟨record, outcome, hrecord, houtcome, rfl⟩ := List.getElem?_zipWith_eq_some.mp hi
  obtain ⟨w, hw, -, hreason⟩ := written_of_outcome hanswers hrecord houtcome
  exact ⟨w, List.mem_of_getElem? hw, hreason.symm.trans hfailed⟩

/-- Whatever a stream does with what it is offered, and whatever records are written to it:

* the bytes that it receives are what it took of each record, in order; it took the front of each,
  the whole record exactly if the write was answered with the record's length and less exactly if the
  write failed;
* in a run whose worker writes to the stream, a record counts as written exactly if it is whole in
  the stream, and every failure that is reported is one of the stream itself;
* a stream that takes up to some number of bytes of each offer, and so many in all, has the first
  bytes of all records together; another one with the same size, which may take them in other
  pieces, takes as much of each record and fails with the same ones;
* a sink of a session over a stream that does so answers as the stream does and keeps what it
  receives. -/
theorem records_whole_or_counted (write : Stream σ) (state : σ) :
    (∀ records, received write state records = contents (writeEach write state records) ∧
        (writeEach write state records).length = records.length ∧
        ∀ (i : Nat) (record : Bytes) (w : Written σ), records[i]? = some record →
          (writeEach write state records)[i]? = some w → w.IsAllOrCounted record) ∧
      (∀ (settings : SpoolSettings) (actions : List Action) (s : Spool) (effects : List Effect),
        (start settings.slots).run actions = some (s, effects) →
        outcomes actions <+: answers write state (attempts effects) →
        (∀ (i : Nat) (record : Bytes) (fate : Fate),
          (verdicts effects ++ s.worker.judgment)[i]? = some (record, fate) →
          ∃ w : Written σ, (writeEach write state (attempts effects))[i]? = some w ∧
            w.IsAllOrCounted record ∧ (fate = .written ↔ w.taken = record)) ∧
        ∀ error, .failing error ∈ writeReports effects →
          ∃ w ∈ writeEach write state (attempts effects), w.failure? = some error) ∧
      (∀ {total : σ → Nat} {chunk limit : Nat}, Capped write total chunk limit → total state = 0 →
        ∀ records, received write state records = records.flatten.take limit ∧
          ∀ {τ : Type} (other : Stream τ) (fresh : τ) (size : τ → Nat) (pieces : Nat),
            Capped other size pieces limit → size fresh = 0 →
            received other fresh records = records.flatten.take limit ∧
            (writeEach other fresh records).map (·.taken) =
              (writeEach write state records).map (·.taken) ∧
            (writeEach other fresh records).map (·.failure?.isNone) =
              (writeEach write state records).map (·.failure?.isNone)) ∧
      (∀ (world : Session) (j : Nat) (sink : SinkState) (throttle : Throttle) (records : List Bytes),
        world.sinks[j]? = some sink → sink.kind = .stream throttle →
        ∃ after next, world.endWriteCalls j (records.map (·, .forward)) =
            (after, answers throttle.write sink.throttle records) ∧
          after.sinks[j]? = some next ∧
          next.kept.toList.flatten =
            sink.kept.toList.flatten ++ received throttle.write sink.throttle records) := by
  refine ⟨fun records => ⟨Stream.received_eq .., Stream.length_writeEach .., fun i record w =>
      Stream.isAllOrCounted_of_getElem?⟩, fun settings actions s effects h hanswers => ?_,
    fun {total chunk limit} hcapped hfresh records => ?_,
    fun world j sink throttle records hsink hkind => ?_⟩
  · have hone := (slots_bounds settings).1
    exact ⟨fun i record fate => written_of_verdict hone h hanswers,
      fun error => failure_of_report hone h hanswers⟩
  · have hcontents : received write state records = records.flatten.take limit := by
      rw [Stream.received_eq, hcapped.contents_eq (by omega), hfresh, Nat.sub_zero]
    refine ⟨hcontents, fun {τ} other fresh size pieces hother hsize => ?_⟩
    have htaken := hother.taken_eq hcapped (hsize.trans hfresh.symm) (by omega) records
    refine ⟨?_, htaken, ?_⟩
    · rw [← hcontents, Stream.received_eq, Stream.received_eq, contents, contents, htaken]
    · rw [Stream.succeeded_writeEach, Stream.succeeded_writeEach, htaken]
  · rw [Stream.received_eq]
    exact Session.endWriteCalls_of_stream hsink hkind records

/-- A stream with room for four bytes that takes two at a time. -/
def narrow : Throttle := { chunk := some 2, limit := some 4 }

/-- A stream with as much room that takes five at a time, and fails when it is full. -/
def wide : Throttle := { chunk := some 5, limit := some 4, writeError := some "full" }

/-- Two records of three bytes are written to a stream with room for the first and a part of the
second. -/
def spilling : List Action :=
  [.enter 0 [1, 2, 3], .advance 0, .advance 0, .enter 1 [4, 5, 6], .advance 1, .advance 1,
    .receive, .await, .finish (.returned 3), .judge, .release,
    .receive, .await, .finish (.failed Stream.writeZero), .judge]

/-- Both streams have the first record and the front of the second, which counts as dropped. -/
theorem records_whole_or_counted_spilling :
    ∃ s effects, (start ({} : SpoolSettings).slots).run spilling = some (s, effects) ∧
      attempts effects = [[1, 2, 3], [4, 5, 6]] ∧
      outcomes spilling <+: answers narrow.write {} (attempts effects) ∧
      (verdicts effects)[1]? = some ([4, 5, 6], .dropped) ∧
      (∃ w : Written ThrottleState, (writeEach narrow.write {} (attempts effects))[1]? = some w ∧
        w.taken ≠ [4, 5, 6]) ∧
      (∃ w ∈ writeEach narrow.write {} (attempts effects), w.failure? = some "write zero") ∧
      received narrow.write {} (attempts effects) = [1, 2, 3, 4] ∧
      received wide.write {} (attempts effects) = [1, 2, 3, 4] ∧
      (writeEach wide.write {} (attempts effects)).map (·.failure?.isNone) =
        (writeEach narrow.write {} (attempts effects)).map (·.failure?.isNone) := by
  obtain ⟨-, hruns, hsizes, -⟩ := @records_whole_or_counted _ narrow.write {}
  have hanswers : answers narrow.write {} [[1, 2, 3], [4, 5, 6]] =
      [.returned 3, .failed Stream.writeZero] := by
    simp [answers, writeEach, Stream.writeAll, narrow, Throttle.write, Throttle.room, atMost,
      Written.outcome]
  have hprefix : outcomes spilling <+: answers narrow.write {} [[1, 2, 3], [4, 5, 6]] := by
    rw [hanswers]
    exact List.prefix_refl _
  obtain ⟨hcounted, hreported⟩ := hruns {} spilling _ _ rfl hprefix
  obtain ⟨w, hw, -, hwhole⟩ := hcounted 1 [4, 5, 6] .dropped rfl
  obtain ⟨hfirst, hother⟩ := hsizes (Stream.capped_throttle rfl rfl (by decide)) rfl
    [[1, 2, 3], [4, 5, 6]]
  obtain ⟨hsame, -, hsucceeded⟩ :=
    hother wide.write {} _ _ (Stream.capped_throttle rfl rfl (by decide)) rfl
  have hless : w.taken ≠ [4, 5, 6] := by
    intro h
    cases hwhole.mpr h
  exact ⟨_, _, rfl, rfl, hprefix, rfl, ⟨w, hw, hless⟩, hreported _ (.head _), hfirst, hsame,
    hsucceeded⟩

end Spool

end LogSpool
