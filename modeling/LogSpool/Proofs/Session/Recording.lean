import LogSpool.Proofs.Feed.Handing
import LogSpool.Proofs.Session.Handles
set_option autoImplicit false

/-!
# Sessions: recording an event

What a session does when it writes a record, in terms of the spool of the station: `write_eq`.
A session that records an event is a feed with one recorder and one thread, which takes the
steps of that thread without a break: `record_run`.
-/

namespace LogSpool

/-- The counters of a session after effects at a station. -/
def Station.post (station : Station) (registry : Registry) (es : List Effect) : Registry :=
  es.foldl (fun registry effect => match effect with
    | .counted _ _ .written => registry.increment station.writtenCounter 1
    | .counted _ _ .dropped => registry.increment station.droppedCounter 1
    | _ => registry) registry

namespace Session

variable {s : Session} {i : Nat} {station : Station} {next : Spool} {a : Action} {es : List Effect}

theorem station_putSpool (hstation : s.stations[i]? = some station) (spool : Spool) :
    (s.putSpool i spool).stations[i]? = some { station with spool } := by
  simp [putSpool, modifyStation, Array.getElem?_modify, hstation]

theorem putSpool_putSpool (s : Session) (i : Nat) (first second : Spool) :
    (s.putSpool i first).putSpool i second = s.putSpool i second := by
  simp only [putSpool, modifyStation]
  congr 1
  refine Array.ext_getElem? fun k => ?_
  simp only [Array.getElem?_modify]
  split
  · cases s.stations[k]? <;> rfl
  · rfl

theorem putSpool_self (hstation : s.stations[i]? = some station) :
    s.putSpool i station.spool = s := by
  have hsame : (s.stations.modify i fun other => { other with spool := station.spool }) = s.stations := by
    refine Array.ext_getElem? fun k => ?_
    rw [Array.getElem?_modify]
    split
    · next heq =>
      rw [← heq, hstation]
      rfl
    · rfl
  rw [putSpool, modifyStation, hsame]

theorem stepSpool_eq (hstation : s.stations[i]? = some station)
    (step : Spool.Transition station.spool a next es) : s.stepSpool i a = (s.putSpool i next, es) := by
  simp [stepSpool, hstation, step.step_eq, putSpool, modifyStation]

theorem stepSpool_of_none {a : Action}
    (h : ∀ station, s.stations[i]? = some station → station.spool.step a = none) :
    s.stepSpool i a = (s, []) := by
  unfold stepSpool
  cases hi : s.stations[i]? with
  | none => rfl
  | some station => simp [h station hi]

/-- What effects count changes nothing but the counters. -/
theorem countAll_eq (hstation : s.stations[i]? = some station) (es : List Effect) :
    s.countAll i es = { s with registry := station.post s.registry es } := by
  induction es generalizing s with
  | nil => rfl
  | cons e rest ih =>
    rw [countAll, List.foldl_cons]
    cases e with
    | counted call record fate =>
      have hcount : s.count i fate = { s with registry := (station.post s.registry [.counted call record fate]) } := by
        cases fate <;> simp [count, hstation, Station.post]
      have hrest := ih (s := s.count i fate) (by rw [hcount]; exact hstation)
      rw [countAll] at hrest
      rw [hrest, hcount]
      rfl
    | _ => exact ih hstation

theorem reply?_eq (es : List Effect) : reply? es = (Spool.replies es).head?.map (·.2) := by
  induction es with
  | nil => rfl
  | cons e rest ih =>
    cases e with
    | answered => rfl
    | _ => exact ih

/-- A call that goes on until it is answered takes its station's spool along, and counts what it
counts. -/
theorem finishWrite_eq {n fuel : Nat} {spool : Spool} {reply : Reply}
    (h : Spool.GoesOn writeCall n spool next es reply) (hfuel : n ≤ fuel)
    (hstation : s.stations[i]? = some station) (hspool : station.spool = spool) :
    finishWrite i fuel s =
      ({ s.putSpool i next with registry := station.post s.registry es }, reply) := by
  induction h generalizing s station fuel with
  | @answered first last es reply step hreplies =>
    subst hspool
    obtain ⟨fuel, rfl⟩ := Nat.exists_eq_add_of_le hfuel
    rw [Nat.add_comm, finishWrite, stepSpool_eq hstation step]
    simp only [countAll_eq (station_putSpool hstation last), reply?_eq, hreplies]
    rfl
  | @next n first mid last es more reply step hreplies rest ih =>
    subst hspool
    obtain ⟨fuel, rfl⟩ := Nat.exists_eq_add_of_le hfuel
    rw [Nat.add_right_comm, finishWrite, stepSpool_eq hstation step]
    simp only [countAll_eq (station_putSpool hstation mid), reply?_eq, hreplies]
    have hrest := ih (Nat.le_add_right n fuel)
      (s := { s.putSpool i mid with registry := station.post s.registry es })
      (station_putSpool hstation mid) rfl
    have hpost : station.post s.registry (es ++ more) =
        station.post (station.post s.registry es) more := List.foldl_append
    have hput := putSpool_putSpool s i mid last
    rw [hpost, ← hput]
    exact hrest

theorem write_of_closed (hstation : s.stations[i]? = some station)
    (hhandles : 0 < station.spool.handles) (hquiet : station.spool.writes.isEmpty = true)
    (hclosed : station.spool.closed = true) (record : Bytes) :
    s.write i record = (s, .closed) := by
  have hnew := Calls.isEmpty_iff.mp hquiet writeCall
  have step : Spool.Transition station.spool (.enter writeCall record) station.spool
    [.answered writeCall .closed] := .enterClosed hhandles hnew hclosed
  simp [write, stepSpool_eq hstation step, reply?_eq, Spool.replies, putSpool_self hstation]

/-- A record that is written to an open spool: its call goes on until it is answered that the
record is taken care of, and then the worker may have a turn. -/
theorem write_of_open (hstation : s.stations[i]? = some station)
    (hhandles : 0 < station.spool.handles) (hquiet : station.spool.writes.isEmpty = true)
    (hopen : station.spool.closed = false) {record : Bytes} (hrecord : record ≠ []) {n : Nat}
    (hn : n ≤ 5)
    (hgoes : Spool.GoesOn writeCall n
      { station.spool with writes := station.spool.writes.add writeCall ⟨record, .entered⟩ }
      next es (.accepted record.length)) :
    s.write i record =
      (({ s.putSpool i next with registry := station.post s.registry es } : Session).wakeWorker i,
        .accepted record.length) := by
  have hnew := Calls.isEmpty_iff.mp hquiet writeCall
  have step := Spool.Transition.enter hhandles hnew hopen hrecord
  have hfinish : finishWrite i writeSteps _ = _ :=
    finishWrite_eq hgoes hn (station_putSpool hstation _) rfl
  rw [putSpool_putSpool] at hfinish
  have hnone : reply? [] = none := rfl
  rw [write, stepSpool_eq hstation step]
  dsimp only
  rw [hnone]
  dsimp only
  rw [hfinish]
  rfl

/-! ## A session as a feed -/

/-- The spools of a session and its recorder, with the one thread that runs everything. -/
def feed (s : Session) : Feed where
  spools := s.stations.toList.map (·.spool)
  sources := s.observers.recorder.toList.map fun (i, recorder) => ⟨i, recorder⟩
  buffers := ({} : Calls LineBuffer).add writeCall s.buffer

theorem getElem?_spools_feed (s : Session) (k : Nat) :
    s.feed.spools[k]? = (s.stations[k]?).map (·.spool) := by
  simp [feed]

theorem spools_feed_putSpool (hstation : s.stations[i]? = some station) (spool : Spool) :
    (s.putSpool i spool).feed.spools = s.feed.spools.set i spool := by
  obtain ⟨hlt, -⟩ := Array.getElem?_eq_some_iff.mp hstation
  refine List.ext_getElem? fun k => ?_
  rw [getElem?_spools_feed, putSpool, modifyStation, Array.getElem?_modify]
  by_cases heq : i = k
  · rw [← heq, List.getElem?_set_self (by simpa [feed] using hlt), hstation]
    simp
  · rw [if_neg heq, List.getElem?_set_ne heq, getElem?_spools_feed]

/-- Letting a worker have a turn changes only whose turn it is. -/
theorem wakeWorker_eq (s : Session) (i : Nat) : ∃ ready, s.wakeWorker i = { s with ready } := by
  unfold wakeWorker
  split
  · exact ⟨_, rfl⟩
  · exact ⟨s.ready, rfl⟩

theorem record_of_ignored {recorder : Recorder} (hrecorder : s.observers.recorder = some (i, recorder))
    {e : Event} (hignores : recorder.ignores e = true) :
    s.record e = { s with observers := { s.observers with recorder := some (i, recorder.see) } } := by
  have hsee : recorder.see.ignores e = true := hignores
  simp [record, hrecorder, hsee]

theorem record_of_passing {recorder : Recorder} (hrecorder : s.observers.recorder = some (i, recorder))
    {e : Event} (hpasses : recorder.ignores e = false) {t : Session} {reply : Reply}
    (hwrite : ({ s with buffer := ⟨(e.record s.stamp recorder.serviceName).encode⟩ } : Session).write i
      (e.record s.stamp recorder.serviceName).encode = (t, reply)) :
    s.record e = { t with
      observers := { t.observers with
        recorder := some (i, recorder.see.offer (reply != .closed)) } } := by
  have hsee : recorder.see.ignores e = false := hpasses
  have hname : recorder.see.serviceName = recorder.serviceName := rfl
  simp [record, hrecorder, hsee, LineBuffer.fill_eq, hname, hwrite]

theorem feed_of_recorder (t : Session) (i : Nat) (recorder : Recorder) :
    ({ t with observers := { t.observers with recorder := some (i, recorder) } } : Session).feed =
      { spools := t.feed.spools
        sources := [⟨i, recorder⟩]
        buffers := ({} : Calls LineBuffer).add writeCall t.buffer } :=
  rfl

/-- A session that records an event through a station whose spool nobody is writing to is a feed:
the event is shown to the recorder, and the thread that built a line for it takes its steps until
the answer is counted.  What that counts at the station is in the counters. -/
theorem record_run {recorder : Recorder} (hrecorder : s.observers.recorder = some (i, recorder))
    (hstation : s.stations[i]? = some station) (hhandles : 0 < station.spool.handles)
    (hquiet : station.spool.writes.isEmpty = true) (e : Event) :
    ∃ actions effects,
      s.feed.run (.event writeCall 0 e s.stamp :: actions) = some ((s.record e).feed, effects) ∧
        (s.record e).registry = station.post s.registry (Feed.effectsOf i effects) := by
  have hsources : s.feed.sources = [⟨i, recorder⟩] := by simp [feed, hrecorder]
  have hsource : s.feed.sources[0]? = some ⟨i, recorder⟩ := by rw [hsources]; rfl
  have hfree : s.feed.handovers.find? writeCall = none := rfl
  have hspool : s.feed.spools[i]? = some station.spool := by
    rw [getElem?_spools_feed, hstation, Option.map_some]
  have hnew := Calls.isEmpty_iff.mp hquiet writeCall
  cases hignores : recorder.ignores e with
  | true =>
    have hrun := Feed.run_of_step (Feed.step_event_of_ignored hsource hfree hignores s.stamp)
    refine ⟨[], [.shown 0 e s.stamp], ?_, ?_⟩
    · rw [hrun, record_of_ignored hrecorder hignores, feed_of_recorder, hsources]
      rfl
    · rw [record_of_ignored hrecorder hignores]
      rfl
  | false =>
    cases hclosed : station.spool.closed with
    | true =>
      have hwrite := write_of_closed
        (s := { s with buffer := ⟨(e.record s.stamp recorder.serviceName).encode⟩ })
        hstation hhandles hquiet hclosed (e.record s.stamp recorder.serviceName).encode
      have hrun := Feed.run_event_refused hsource hfree hignores s.stamp hspool hhandles hnew hclosed
      rw [record_of_passing hrecorder hignores hwrite, feed_of_recorder]
      refine ⟨_, _, hrun.trans (congrArg (fun f => some (f, _)) ?_), ?_⟩
      · rw [hsources]
        rfl
      · simp [Feed.effectsOf, Station.post]
    | false =>
      obtain ⟨n, next, own, hn, hrun, hgoes⟩ :=
        Feed.run_event_admitted hsource hfree hignores s.stamp hspool hhandles hnew hclosed
      have hwrite := write_of_open
        (s := { s with buffer := ⟨(e.record s.stamp recorder.serviceName).encode⟩ })
        hstation hhandles hquiet hclosed (Record.encode_ne_nil _) hn hgoes
      obtain ⟨ready, hready⟩ := wakeWorker_eq _ i
      rw [hready] at hwrite
      rw [record_of_passing hrecorder hignores hwrite, feed_of_recorder]
      refine ⟨_, _, hrun.trans (congrArg (fun f => some (f, _)) ?_), ?_⟩
      · rw [← spools_feed_putSpool hstation next, hsources]
        rfl
      · have howned : Feed.effectsOf i (own.map (.spool i) ++ [.tallied 0 true]) = own := by
          rw [Feed.effectsOf_frame rfl, Feed.effectsOf_self]
        exact congrArg (station.post s.registry) howned.symm

end Session

end LogSpool
