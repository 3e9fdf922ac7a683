import LogSpool.Proofs.Session.Calm
import LogSpool.Proofs.Spool.Bystanders
set_option autoImplicit false

/-!
# Sessions: who waits is not noticed

The tasks of a session take no notice of who waits at a station: as long as somebody has a handle to
it who does not give it back, all their turns are the same in the session where nobody waits there.
`Unattended` ties the two sessions together, and has a lemma for everything that tasks do.
-/

namespace LogSpool

/-- Handles are only given back where somebody does so. -/
theorem Spool.handles_le_of_transition {s t : Spool} {a : Action} {es : List Effect}
    (step : Transition s a t es) : s.handles ≤ t.handles + if a = .drop then 1 else 0 := by
  cases step with
  | drop => exact Nat.le_add_of_sub_le (Nat.le_refl _)
  | clone => exact Nat.le_succ _
  | _ => exact Nat.le_add_right _ _

/-- A station, and whether nobody waits there. -/
def Station.without (station : Station) (nobody : Bool) : Station :=
  { station with spool := if nobody then station.spool.work else station.spool }

namespace Station

variable (station : Station) (nobody : Bool)

theorem spool_without : (station.without true).spool = station.spool.work := rfl

@[simp] theorem sink_without : (station.without nobody).sink = station.sink := rfl

@[simp] theorem droppedCounter_without :
    (station.without nobody).droppedCounter = station.droppedCounter := rfl

@[simp] theorem writtenCounter_without :
    (station.without nobody).writtenCounter = station.writtenCounter := rfl

@[simp] theorem boxed_without : (station.without nobody).boxed = station.boxed := rfl

@[simp] theorem progress_without : (station.without nobody).progress = station.progress := rfl

@[simp] theorem worker_without :
    (station.without nobody).spool.worker = station.spool.worker := by
  cases nobody <;> rfl

@[simp] theorem channel_without :
    (station.without nobody).spool.channel = station.spool.channel := by
  cases nobody <;> rfl

@[simp] theorem isSealed_without :
    (station.without nobody).spool.isSealed = station.spool.isSealed := by
  cases nobody <;> rfl

/-- A step of its spool can be taken in the same way where nobody waits. -/
theorem step_without {a : Action} (hother : a.waiting? = none)
    (hspare : nobody = true → a = .drop → 1 < station.spool.handles) :
    (station.without nobody).spool.step a = (station.spool.step a).map fun r =>
      (({ station with spool := r.1 } : Station).without nobody |>.spool, r.2) := by
  cases nobody with
  | false =>
    cases hstep : station.spool.step a <;> simp [without, hstep]
  | true => exact Spool.step_work hother (hspare rfl)

end Station

namespace Session

variable {s t : Session} {i k : Nat} {D : List (Nat × Deferred)}

/-- The deferred actions that hold a handle to a station. -/
def holding (i : Nat) (D : List (Nat × Deferred)) : Nat :=
  D.countP (·.2.action.station? == some i)

/-- The second session is the first where nobody waits at a station; and besides the deferred actions
somebody has a handle to it. -/
structure Unattended (i : Nat) (D : List (Nat × Deferred)) (s t : Session) : Prop where
  rest : t = s.modifyStation i (·.without true)
  deferred : s.deferred = D
  spare : ∀ station, s.stations[i]? = some station → holding i D < station.spool.handles

namespace Unattended

theorem station (h : Unattended i D s t) (k : Nat) :
    t.stations[k]? = (s.stations[k]?).map (·.without (i == k)) := by
  obtain ⟨rfl, -, -⟩ := h
  rw [modifyStation, Array.getElem?_modify]
  by_cases heq : i = k
  · simp [heq]
  · cases s.stations[k]? <;> simp [heq, Station.without]

theorem putSpool (h : Unattended i D s t) {station : Station} (hk : s.stations[k]? = some station)
    {next : Spool} (hspare : i = k → holding i D < next.handles) :
    Unattended i D (s.putSpool k next)
      (t.putSpool k (({ station with spool := next } : Station).without (i == k)).spool) := by
  obtain ⟨rfl, rfl, hall⟩ := h
  refine ⟨?_, rfl, fun other hother => ?_⟩
  · simp only [Session.putSpool, modifyStation]
    congr 1
    refine Array.ext_getElem? fun j => ?_
    simp only [Array.getElem?_modify]
    by_cases hj : k = j
    · subst hj
      by_cases heq : i = k <;> simp [heq, hk, Station.without]
    · by_cases heq : i = j <;> simp [hj, heq]
  · by_cases heq : i = k
    · subst heq
      rw [station_putSpool hk] at hother
      cases hother
      exact hspare rfl
    · rw [station_putSpool_of_ne s (Ne.symm heq)] at hother
      exact hall other hother

theorem frame (h : Unattended i D s t) {s' t' : Session} (hstations : s'.stations = s.stations)
    (hdeferred : s'.deferred = s.deferred) (hrest : t' = s'.modifyStation i (·.without true)) :
    Unattended i D s' t' :=
  ⟨hrest, hdeferred.trans h.deferred, by rw [hstations]; exact h.spare⟩

theorem now_eq (h : Unattended i D s t) : t.now = s.now := by
  rw [h.rest]
  rfl

theorem sinks_eq (h : Unattended i D s t) : t.sinks = s.sinks := by
  rw [h.rest]
  rfl

theorem observers_eq (h : Unattended i D s t) : t.observers = s.observers := by
  rw [h.rest]
  rfl

theorem deferred_eq (h : Unattended i D s t) : t.deferred = s.deferred := by
  rw [h.rest]
  rfl

/-! ## Steps, counts and events -/

/-- A step of a spool is taken by both, or by none. -/
theorem stepSpool (h : Unattended i D s t) (k : Nat) {a : Action} (hother : a.waiting? = none)
    (hspare : a = .drop → i = k → ∀ station, s.stations[k]? = some station →
      holding i D + 1 < station.spool.handles) :
    (t.stepSpool k a).2 = (s.stepSpool k a).2 ∧
      Unattended i D (s.stepSpool k a).1 (t.stepSpool k a).1 := by
  unfold Session.stepSpool
  rw [h.station k]
  cases hk : s.stations[k]? with
  | none => exact ⟨rfl, h⟩
  | some station =>
    have hsame := station.step_without (i == k) hother fun hhere hdrop =>
      Nat.lt_of_le_of_lt (Nat.le_add_left 1 _) (hspare hdrop (eq_of_beq hhere) station hk)
    cases hstep : station.spool.step a with
    | none => simpa [hsame, hstep] using h
    | some r =>
      simp only [Option.map_some, hsame, hstep]
      refine ⟨trivial, h.putSpool hk fun heq => ?_⟩
      have hhandles := Spool.handles_le_of_transition (.of_step hstep)
      have hstill := h.spare station (heq ▸ hk)
      by_cases hdrop : a = .drop
      · have hmore := hspare hdrop heq station hk
        simp only [hdrop, if_true] at hhandles
        omega
      · simp only [hdrop, if_false] at hhandles
        omega

theorem count (h : Unattended i D s t) (k : Nat) (fate : Fate) :
    Unattended i D (s.count k fate) (t.count k fate) := by
  unfold Session.count
  rw [h.station k]
  cases s.stations[k]? with
  | none => exact h
  | some station => exact h.frame rfl rfl (by rw [h.rest]; rfl)

theorem countAll (h : Unattended i D s t) (k : Nat) (es : List Effect) :
    Unattended i D (s.countAll k es) (t.countAll k es) := by
  refine List.foldl_rel (r := Unattended i D) h fun effect _ s t h => ?_
  cases effect with
  | counted call record fate => exact h.count k fate
  | _ => exact h

theorem enqueue (h : Unattended i D s t) (task : Task) :
    Unattended i D (s.enqueue task) (t.enqueue task) :=
  h.frame rfl rfl (by rw [h.rest]; rfl)

theorem wakeWorker (h : Unattended i D s t) (k : Nat) :
    Unattended i D (s.wakeWorker k) (t.wakeWorker k) := by
  have hwork : t.hasWork k = s.hasWork k := by
    unfold hasWork
    rw [h.station k]
    cases s.stations[k]? with
    | none => rfl
    | some station => simp
  unfold Session.wakeWorker
  rw [hwork]
  split
  · exact h.enqueue _
  · exact h

theorem finishWrite (h : Unattended i D s t) (k fuel : Nat) :
    (finishWrite k fuel t).2 = (finishWrite k fuel s).2 ∧
      Unattended i D (finishWrite k fuel s).1 (finishWrite k fuel t).1 := by
  induction fuel generalizing s t with
  | zero => exact ⟨rfl, h⟩
  | succ fuel ih =>
    obtain ⟨heffects, hstepped⟩ := h.stepSpool k (a := .advance writeCall) rfl (by simp)
    rw [Session.finishWrite, Session.finishWrite]
    generalize s.stepSpool k (.advance writeCall) = r at heffects hstepped
    generalize t.stepSpool k (.advance writeCall) = q at heffects hstepped
    obtain ⟨s, es⟩ := r
    obtain ⟨t, es⟩ := q
    obtain rfl := heffects
    have hcounted := hstepped.countAll k es
    dsimp only
    cases reply? es with
    | some reply => exact ⟨rfl, hcounted⟩
    | none => exact ih hcounted

/-- Both write a record, and are answered the same. -/
theorem write (h : Unattended i D s t) (k : Nat) (record : Bytes) :
    (t.write k record).2 = (s.write k record).2 ∧
      Unattended i D (s.write k record).1 (t.write k record).1 := by
  obtain ⟨heffects, hentered⟩ := h.stepSpool k (a := .enter writeCall record) rfl (by simp)
  unfold Session.write
  generalize s.stepSpool k (.enter writeCall record) = r at heffects hentered
  generalize t.stepSpool k (.enter writeCall record) = q at heffects hentered
  obtain ⟨s, es⟩ := r
  obtain ⟨t, es⟩ := q
  obtain rfl := heffects
  dsimp only
  cases reply? es with
  | some reply => exact ⟨rfl, hentered⟩
  | none =>
    obtain ⟨hanswer, hfinished⟩ := hentered.finishWrite k writeSteps
    exact ⟨hanswer, hfinished.wakeWorker k⟩

theorem record (h : Unattended i D s t) (e : Event) : Unattended i D (s.record e) (t.record e) := by
  have hobservers := h.observers_eq
  have hstamp : t.stamp = s.stamp := by rw [stamp, h.now_eq, stamp]
  have hbuffer : t.buffer = s.buffer := by
    rw [h.rest]
    rfl
  unfold Session.record
  rcases hrecorder : s.observers.recorder with _ | ⟨k, recorder⟩
  · simpa only [hobservers, hrecorder] using h
  · simp only [show t.observers.recorder = some (k, recorder) by rw [hobservers, hrecorder]]
    split
    · exact h.frame rfl rfl (by rw [h.rest]; rfl)
    · rw [hstamp, hbuffer]
      generalize s.buffer.fill (e.record s.stamp recorder.see.serviceName) = buffer
      have hbuilt : Unattended i D { s with buffer } { t with buffer } :=
        h.frame rfl rfl (by rw [h.rest]; rfl)
      obtain ⟨hreply, hwritten⟩ := hbuilt.write k buffer.bytes
      rw [hreply]
      exact hwritten.frame rfl rfl (by rw [hwritten.rest]; rfl)

theorem print (h : Unattended i D s t) (e : Event) : Unattended i D (s.print e) (t.print e) := by
  have hconsole : ∀ {v w : Session}, Unattended i D v w → Unattended i D
      (if v.observers.console then
        { v with stdout := v.stdout.push (Utf8.encode (v.stamp.text ++ [' ']) ++ plainBytes e) }
      else v)
      (if w.observers.console then
        { w with stdout := w.stdout.push (Utf8.encode (w.stamp.text ++ [' ']) ++ plainBytes e) }
      else w) := by
    intro v w hvw
    rw [hvw.observers_eq]
    split
    · exact hvw.frame rfl rfl (by rw [hvw.rest]; rfl)
    · exact hvw
  unfold Session.print
  rw [h.observers_eq]
  cases s.observers.plain with
  | none => exact hconsole h
  | some k => exact hconsole (h.write k (plainBytes e)).2

theorem report (h : Unattended i D s t) (d : Diagnostic) :
    Unattended i D (s.report d) (t.report d) := by
  have hnoted : Unattended i D { s with diagnostics := d :: s.diagnostics }
      { t with diagnostics := d :: t.diagnostics } := h.frame rfl rfl (by rw [h.rest]; rfl)
  exact (hnoted.record d.event).print d.event

theorem modifySink (h : Unattended i D s t) (j : Nat) (f : SinkState → SinkState) :
    Unattended i D (s.modifySink j f) (t.modifySink j f) :=
  h.frame rfl rfl (by rw [h.rest]; rfl)

theorem progress (h : Unattended i D s t) (k : Nat) (progress : Progress) :
    Unattended i D (s.modifyStation k fun station => { station with progress })
      (t.modifyStation k fun station => { station with progress }) := by
  obtain ⟨rfl, hdeferred, hspare⟩ := h
  refine ⟨?_, hdeferred, fun station hi => ?_⟩
  · simp only [modifyStation]
    congr 1
    refine Array.ext_getElem? fun j => ?_
    simp only [Array.getElem?_modify]
    by_cases hj : k = j <;> by_cases heq : i = j <;> cases s.stations[j]? <;>
      simp [hj, heq, Station.without]
  · rw [modifyStation, Array.getElem?_modify] at hi
    split at hi
    · obtain ⟨other, hother, rfl⟩ := Option.map_eq_some_iff.mp hi
      exact hspare other hother
    · exact hspare station hi

theorem applyEffect (h : Unattended i D s t) (k : Nat) (effect : Effect) :
    Unattended i D (applyEffect k s effect) (applyEffect k t effect) := by
  have hsinks := h.sinks_eq
  cases effect with
  | counted call record fate => exact h.count k fate
  | reported d => exact h.report d
  | attempted | flushed =>
    unfold Session.applyEffect
    dsimp only
    rw [h.station k]
    cases s.stations[k]? with
    | none => exact h
    | some station =>
      dsimp only [Option.map_some, Station.sink_without]
      rw [hsinks]
      cases s.sinks[station.sink]? with
      | none => exact h
      | some sink => exact (h.modifySink _ _).progress k _
  | released =>
    unfold Session.applyEffect
    dsimp only
    rw [h.station k]
    cases s.stations[k]? with
    | none => exact h
    | some station => exact (h.modifySink _ _).progress k _
  | _ => exact h

theorem applyEffects (h : Unattended i D s t) (k : Nat) (es : List Effect) :
    Unattended i D (es.foldl (Session.applyEffect k) s) (es.foldl (Session.applyEffect k) t) :=
  List.foldl_rel (r := Unattended i D) h fun effect _ _ _ h => h.applyEffect k effect

theorem take (h : Unattended i D s t) (k : Nat) {a : Action} (hother : a.waiting? = none)
    (hkept : a ≠ .drop) : Unattended i D (s.take k a) (t.take k a) := by
  obtain ⟨heffects, hstepped⟩ := h.stepSpool k hother fun hdrop => absurd hdrop hkept
  unfold Session.take takeSeeing
  dsimp only
  rw [heffects]
  exact hstepped.applyEffects k _

theorem close (h : Unattended i D s t) (k : Nat) : Unattended i D (s.close k) (t.close k) :=
  ((h.take k (a := .close) rfl (by simp)).take k (a := .announce) rfl (by simp)).wakeWorker k

/-- A handle is given back that is not the last, if it is one to the station. -/
theorem release (h : Unattended i D s t) (k : Nat)
    (hspare : i = k → ∀ station, s.stations[k]? = some station →
      holding i D + 1 < station.spool.handles) :
    Unattended i D (s.release k) (t.release k) := by
  obtain ⟨heffects, hstepped⟩ := h.stepSpool k (a := .drop) rfl fun _ => hspare
  unfold Session.release Session.take takeSeeing
  dsimp only
  rw [heffects]
  exact (hstepped.applyEffects k _).wakeWorker k

/-! ## The work of the tasks -/

theorem acceptRecord (h : Unattended i D s t) (j : Nat) (record : Bytes) :
    (t.acceptRecord j record).2 = (s.acceptRecord j record).2 ∧
      Unattended i D (s.acceptRecord j record).1 (t.acceptRecord j record).1 := by
  have hsinks := h.sinks_eq
  unfold Session.acceptRecord
  dsimp only
  rw [hsinks]
  cases s.sinks[j]? with
  | none => exact ⟨rfl, h⟩
  | some sink =>
    dsimp only
    cases sink.kind with
    | scripted script =>
      dsimp only
      split
      · exact ⟨rfl, h.modifySink j _⟩
      · exact ⟨rfl, h⟩
    | memory => exact ⟨rfl, h.modifySink j _⟩
    | noop => exact ⟨rfl, h⟩
    | stream throttle => exact ⟨rfl, (h.modifySink j _).modifySink j _⟩
    | _ => exact ⟨rfl, h.frame rfl rfl (by rw [h.rest]; rfl)⟩

theorem flushSink (h : Unattended i D s t) (j : Nat) :
    (t.flushSink j).2 = (s.flushSink j).2 ∧
      Unattended i D (s.flushSink j).1 (t.flushSink j).1 := by
  have hsinks := h.sinks_eq
  unfold Session.flushSink
  rw [hsinks]
  cases s.sinks[j]? with
  | none => exact ⟨rfl, h⟩
  | some sink =>
    dsimp only
    cases sink.kind with
    | stream throttle => exact ⟨rfl, h.modifySink j _⟩
    | _ => exact ⟨rfl, h⟩

theorem endWriteCall (h : Unattended i D s t) (j : Nat) (record : Bytes) (ending : Ending) :
    (t.endWriteCall j record ending).2 = (s.endWriteCall j record ending).2 ∧
      Unattended i D (s.endWriteCall j record ending).1 (t.endWriteCall j record ending).1 := by
  cases ending with
  | forward => exact h.acceptRecord j record
  | _ => exact ⟨rfl, h⟩

theorem endFlushCall (h : Unattended i D s t) (j : Nat) (ending : Ending) :
    (t.endFlushCall j ending).2 = (s.endFlushCall j ending).2 ∧
      Unattended i D (s.endFlushCall j ending).1 (t.endFlushCall j ending).1 := by
  cases ending with
  | forward => exact h.flushSink j
  | _ => exact ⟨rfl, h⟩

theorem runCall (h : Unattended i D s t) (j : Nat) (progress : Progress) :
    (t.runCall j progress).2 = (s.runCall j progress).2 ∧
      Unattended i D (s.runCall j progress).1 (t.runCall j progress).1 := by
  unfold Session.runCall
  rw [h.sinks_eq, h.now_eq]
  cases s.sinks[j]? with
  | none => exact ⟨rfl, h⟩
  | some sink => exact ⟨rfl, h.modifySink j _⟩

theorem makeCall (h : Unattended i D s t) (k : Nat) :
    Unattended i D (s.makeCall k) (t.makeCall k) := by
  have hawaits := h.take k (a := .await) rfl (by simp)
  unfold Session.makeCall
  rw [h.station k]
  rcases s.stations[k]? with _ | ⟨spool, sink, dropped, written, boxed, progress⟩
  · exact hawaits
  · cases boxed with
    | true => exact hawaits
    | false =>
      cases progress with
      | ready behaviour =>
        cases behaviour with
        | panicAtOnce payload => exact h.take k (a := .lose (.panicked payload)) rfl (by simp)
        | _ => exact hawaits
      | _ => exact hawaits

theorem beginWrite (h : Unattended i D s t) (k : Nat) :
    Unattended i D (s.beginWrite k) (t.beginWrite k) :=
  (h.take k (a := .receive) rfl (by simp)).makeCall k

theorem beginFlush (h : Unattended i D s t) (k : Nat) :
    Unattended i D (s.beginFlush k) (t.beginFlush k) :=
  (h.take k (a := .flush) rfl (by simp)).makeCall k

theorem continueCall (h : Unattended i D s t) (k : Nat) (station : Station) (nobody : Bool) :
    (t.continueCall k (station.without nobody)).2 = (s.continueCall k station).2 ∧
      Unattended i D (s.continueCall k station).1
        (t.continueCall k (station.without nobody)).1 := by
  obtain ⟨hresult, hrun⟩ := h.runCall station.sink station.progress
  unfold Session.continueCall
  simp only [Station.sink_without, Station.progress_without]
  generalize s.runCall station.sink station.progress = r at hresult hrun
  generalize t.runCall station.sink station.progress = q at hresult hrun
  obtain ⟨s, ending | progress⟩ := r
  · obtain ⟨t, _⟩ := q
    cases hresult
    exact ⟨rfl, hrun.progress k _⟩
  · obtain ⟨t, _⟩ := q
    cases hresult
    exact ⟨rfl, hrun.progress k _⟩

theorem move (h : Unattended i D s t) (k : Nat) :
    (t.move k).2 = (s.move k).2 ∧ Unattended i D (s.move k).1 (t.move k).1 := by
  unfold Session.move
  rw [h.station k]
  cases hk : s.stations[k]? with
  | none => exact ⟨rfl, h⟩
  | some station =>
    obtain ⟨hending, hcontinued⟩ := h.continueCall k station (i == k)
    dsimp only [Option.map_some, Station.sink_without]
    rw [Station.worker_without, Station.channel_without, Station.isSealed_without]
    generalize s.continueCall k station = r at hending hcontinued
    generalize t.continueCall k (station.without (i == k)) = q at hending hcontinued
    obtain ⟨u, ending⟩ := r
    obtain ⟨v, other⟩ := q
    obtain rfl : other = ending := hending
    cases station.spool.worker with
    | idle =>
      dsimp only
      split
      · exact ⟨rfl, h.beginWrite k⟩
      · split
        · exact ⟨rfl, h.beginFlush k⟩
        · exact ⟨rfl, h⟩
    | attempting record =>
      cases other with
      | none => exact ⟨rfl, hcontinued⟩
      | some ending =>
        obtain ⟨houtcome, hended⟩ := hcontinued.endWriteCall station.sink record ending
        dsimp only
        rw [houtcome]
        exact ⟨rfl, hended.take k rfl (by simp)⟩
    | calling record => exact ⟨rfl, h.makeCall k⟩
    | callingFlush => exact ⟨rfl, h.makeCall k⟩
    | judging record outcome => exact ⟨rfl, h.take k rfl (by simp)⟩
    | releasing =>
      exact ⟨rfl, (h.take k (a := .release) rfl (by simp)).take k (a := .wake) rfl (by simp)⟩
    | waking => exact ⟨rfl, h.take k rfl (by simp)⟩
    | flushing =>
      cases other with
      | none => exact ⟨rfl, hcontinued⟩
      | some ending =>
        obtain ⟨houtcome, hended⟩ := hcontinued.endFlushCall station.sink ending
        dsimp only
        rw [houtcome]
        exact ⟨rfl, hended.take k rfl (by simp)⟩
    | done => exact ⟨rfl, h⟩
    | lost loss => exact ⟨rfl, h⟩

theorem workerTurn (h : Unattended i D s t) (k fuel : Nat) :
    Unattended i D (workerTurn k fuel s) (workerTurn k fuel t) := by
  induction fuel generalizing s t with
  | zero => exact h.enqueue _
  | succ fuel ih =>
    obtain ⟨hmore, hmoved⟩ := h.move k
    unfold Session.workerTurn
    generalize s.move k = r at hmore hmoved
    generalize t.move k = q at hmore hmoved
    obtain ⟨s, more⟩ := r
    obtain ⟨t, other⟩ := q
    obtain rfl : other = more := hmore
    cases other with
    | false => exact hmoved
    | true => exact ih hmoved

theorem size_stations (h : Unattended i D s t) : t.stations.size = s.stations.size := by
  rw [h.rest, modifyStation, Array.size_modify]

theorem wakeAtGate (h : Unattended i D s t) (j : Nat) :
    Unattended i D (s.wakeAtGate j) (t.wakeAtGate j) := by
  unfold Session.wakeAtGate
  rw [h.size_stations]
  refine List.foldl_rel (r := Unattended i D) h fun k _ s t h => ?_
  rw [h.station k]
  cases s.stations[k]? with
  | none => exact h
  | some station =>
    have hsame : waitsAtGate (station.without (i == k)) j = waitsAtGate station j := rfl
    dsimp only [Option.map_some]
    rw [hsame]
    split
    · exact h.enqueue _
    · exact h

theorem addPermits (h : Unattended i D s t) (j n : Nat) :
    Unattended i D (s.addPermits j n) (t.addPermits j n) := by
  unfold Session.addPermits
  exact (h.modifySink j _).wakeAtGate j

theorem perform (h : Unattended i D s t) (action : DeferredAction) :
    (t.perform action).2 = (s.perform action).2 ∧
      Unattended i D (s.perform action).1 (t.perform action).1 := by
  cases action with
  | write k record =>
    obtain ⟨hreply, hwritten⟩ := h.write k record
    unfold Session.perform
    dsimp only
    generalize s.write k record = r at hreply hwritten
    generalize t.write k record = q at hreply hwritten
    obtain ⟨s, reply⟩ := r
    obtain ⟨t, other⟩ := q
    obtain rfl : other = reply := hreply
    cases other <;> exact ⟨rfl, hwritten⟩
  | close k =>
    dsimp only [Session.perform]
    exact ⟨rfl, h.close k⟩
  | permits j n => exact ⟨rfl, h.addPermits j n⟩
  | impossible => exact ⟨rfl, h⟩

/-- A deferred action that is done holds its handle no more. -/
theorem holding_done {number : Nat} {d : Deferred} (hd : D.lookup number = some d) (k : Nat) :
    holding k (D.filter (·.1 != number)) + (if d.action.station? = some k then 1 else 0) ≤
      holding k D := by
  obtain ⟨before, after, rfl, -⟩ := List.lookup_eq_some_iff.mp hd
  have hbefore : holding k (before.filter (·.1 != number)) ≤ holding k before :=
    List.filter_sublist.countP_le
  have hafter : holding k (after.filter (·.1 != number)) ≤ holding k after :=
    List.filter_sublist.countP_le
  have hcount : holding k (before ++ (number, d) :: after) = holding k before +
      (holding k after + if d.action.station? = some k then 1 else 0) := by
    simp [holding, List.countP_append, List.countP_cons]
  have hfiltered : holding k ((before ++ (number, d) :: after).filter (·.1 != number)) =
      holding k (before.filter (·.1 != number)) + holding k (after.filter (·.1 != number)) := by
    simp [holding, List.countP_append]
  omega

theorem deferredTurn (h : Unattended i D s t) (number : Nat) :
    ∃ D', Unattended i D' (s.deferredTurn number) (t.deferredTurn number) := by
  unfold Session.deferredTurn
  rw [h.deferred_eq, h.now_eq, h.deferred]
  cases hlookup : D.lookup number with
  | none => exact ⟨D, h⟩
  | some d =>
    dsimp only
    split
    · exact ⟨D, h⟩
    · obtain ⟨hresult, hperformed⟩ := h.perform d.action
      generalize s.perform d.action = r at hresult hperformed
      generalize t.perform d.action = q at hresult hperformed
      obtain ⟨s, result⟩ := r
      obtain ⟨t, other⟩ := q
      obtain rfl : other = result := hresult
      dsimp only at hperformed ⊢
      have hfewer := holding_done hlookup i
      have hnoted : Unattended i (D.filter (·.1 != number))
          { s with late := other :: s.late, deferred := s.deferred.filter (·.1 != number) }
          { t with late := other :: t.late, deferred := t.deferred.filter (·.1 != number) } := by
        refine ⟨by rw [hperformed.rest]; rfl, by rw [hperformed.deferred], fun station hi => ?_⟩
        have hspare := hperformed.spare station hi
        omega
      refine ⟨D.filter (·.1 != number), ?_⟩
      cases hholds : d.action.station? with
      | none => exact hnoted
      | some k =>
        refine hnoted.release k fun heq station hk => ?_
        have hspare := hperformed.spare station (heq ▸ hk)
        rw [hholds, heq, if_pos rfl] at hfewer
        rw [heq] at hspare ⊢
        omega

theorem turn (h : Unattended i D s t) (task : Task) :
    ∃ D', Unattended i D' (s.turn task) (t.turn task) := by
  cases task with
  | worker k => exact ⟨D, h.workerTurn k turnLength⟩
  | deferred number => exact h.deferredTurn number

theorem turns (h : Unattended i D s t) (fuel : Nat) :
    ∃ D', Unattended i D' (turns fuel s) (turns fuel t) := by
  induction fuel generalizing s t D with
  | zero => exact ⟨D, h⟩
  | succ fuel ih =>
    have hready : t.ready = s.ready := by
      rw [h.rest]
      rfl
    unfold Session.turns
    rw [hready]
    cases s.ready.next? with
    | none => exact ⟨D, h⟩
    | some next =>
      have htaken : Unattended i D { s with ready := next.2 } { t with ready := next.2 } :=
        h.frame rfl rfl (by rw [h.rest]; rfl)
      obtain ⟨D', hturned⟩ := htaken.turn next.1
      exact ih hturned

/-- What does not depend on who waits is the same of all stations. -/
theorem map_stations {α : Type} (h : Unattended i D s t) {f : Station → α}
    (hf : ∀ station nobody, f (Station.without station nobody) = f station) :
    t.stations.map f = s.stations.map f := by
  refine Array.ext_getElem? fun k => ?_
  simp [h.station k, hf, Function.comp_def]

theorem settle (h : Unattended i D s t) : ∃ D', Unattended i D' s.settle t.settle := by
  have hsizes := congrArg (·.toList.foldl (· + ·) 0)
    (h.map_stations (f := (·.spool.channel.size)) fun station nobody => by simp)
  simp only [Array.toList_map, List.foldl_map, Array.foldl_toList] at hsizes
  have hmany : t.manyTurns = s.manyTurns := by
    unfold manyTurns
    rw [hsizes, h.size_stations, h.rest]
    rfl
  unfold Session.settle
  rw [hmany]
  exact h.turns _

/-! ## Time -/

/-- Nothing is due at another time. -/
theorem nextTime (h : Unattended i D s t) (alarms : List Nat) (limit : Nat) :
    t.nextTime alarms limit = s.nextTime alarms limit := by
  have hprogress := congrArg (·.toList.filterMap Progress.wake?)
    (h.map_stations (f := (·.progress)) fun station nobody => rfl)
  simp only [Array.toList_map, List.filterMap_map] at hprogress
  have hdue : t.dueTimes = s.dueTimes := by
    unfold dueTimes
    rw [h.rest] at hprogress ⊢
    exact congrArg (· ++ s.deferred.map (·.2.due)) hprogress
  unfold Session.nextTime
  rw [hdue, h.now_eq]

theorem wakeDue (h : Unattended i D s t) : Unattended i D s.wakeDue t.wakeDue := by
  have hdeferred : ∀ {v w : Session}, Unattended i D v w → Unattended i D
      (v.deferred.reverse.foldl (fun s d =>
        if d.2.due ≤ s.now then s.enqueue (.deferred d.1) else s) v)
      (w.deferred.reverse.foldl (fun s d =>
        if d.2.due ≤ s.now then s.enqueue (.deferred d.1) else s) w) := by
    intro v w hvw
    rw [hvw.deferred_eq]
    refine List.foldl_rel (r := Unattended i D) hvw fun d _ s t h => ?_
    rw [h.now_eq]
    split
    · exact h.enqueue _
    · exact h
  unfold Session.wakeDue
  refine hdeferred ?_
  rw [h.size_stations]
  refine List.foldl_rel (r := Unattended i D) h fun k _ s t h => ?_
  have hwake : (t.stations[k]?).bind (·.progress.wake?) =
      (s.stations[k]?).bind (·.progress.wake?) := by
    rw [h.station k]
    cases s.stations[k]? <;> rfl
  rw [hwake, h.now_eq]
  split
  · split
    · exact h.enqueue _
    · exact h
  · exact h

theorem setClock (h : Unattended i D s t) (now : Nat) :
    Unattended i D (s.setClock now) (t.setClock now) :=
  wakeDue (h.frame rfl rfl (by rw [h.rest]; rfl))

end Unattended

end Session

end LogSpool
