import LogSpool.Proofs.Counter.Registry
import LogSpool.Proofs.Session.Lasting
import LogSpool.Proofs.Spool.Unused
set_option autoImplicit false

/-!
# Sessions: a station that nobody can use

A session with one more station, which nobody can use, deals with every event as it would without
that station: `Beside.emit`.  Neither that station nor any sink has a part in it (`Spares.emit`).
-/

namespace LogSpool.Session

variable {s t u : Session} {extra : Station} {i n : Nat}

/-! ## Writing to nobody -/

/-- There is no such station, or nobody can use its spool. -/
def IsDeserted (s : Session) (i : Nat) : Prop :=
  ∀ station, s.stations[i]? = some station → station.spool.Deserted

theorem step_enter_of_deserted {spool : Spool} (h : spool.Deserted) (call : Nat) (record : Bytes) :
    spool.step (.enter call record) = none := by
  simp [Spool.step, h.handles]

theorem step_advance_of_deserted {spool : Spool} (h : spool.Deserted) (call : Nat) :
    spool.step (.advance call) = none := by
  simp [Spool.step, h.writes]

theorem countAll_frame (s : Session) (i : Nat) (es : List Effect) :
    ∃ registry, s.countAll i es = { s with registry } := by
  have hstart : ∃ registry, s = { s with registry } := ⟨s.registry, rfl⟩
  refine foldl_keeps (P := fun t => ∃ registry, t = { s with registry }) ?_ es hstart
  rintro _ e ⟨registry, rfl⟩
  cases e with
  | counted call record fate =>
    dsimp only
    unfold count
    split <;> exact ⟨_, rfl⟩
  | _ => exact ⟨registry, rfl⟩

/-- A record that is written to a deserted station reaches nobody. -/
theorem write_of_deserted (h : s.IsDeserted i) (record : Bytes) :
    ∃ ready, s.write i record = ({ s with ready }, .closed) := by
  have henter : s.stepSpool i (.enter writeCall record) = (s, []) :=
    stepSpool_of_none fun station hi => step_enter_of_deserted (h station hi) _ _
  have hadvance : s.stepSpool i (.advance writeCall) = (s, []) :=
    stepSpool_of_none fun station hi => step_advance_of_deserted (h station hi) _
  have hfinish : ∀ fuel, finishWrite i fuel s = (s, .closed) := by
    intro fuel
    induction fuel with
    | zero => rfl
    | succ fuel ih => simpa [finishWrite, hadvance, countAll, reply?] using ih
  obtain ⟨ready, hready⟩ := wakeWorker_eq s i
  exact ⟨ready, by simp [write, henter, reply?, hfinish, hready]⟩

/-! ## What events leave alone -/

/-- From one session to another a station and all sinks are left alone. -/
structure Spares (n : Nat) (s t : Session) : Prop where
  station : t.stations[n]? = s.stations[n]?
  sinks : t.sinks = s.sinks

namespace Spares

theorem trans (h : Spares n s t) (hnext : Spares n t u) : Spares n s u :=
  ⟨hnext.station.trans h.station, hnext.sinks.trans h.sinks⟩

theorem of_eq (hstations : t.stations = s.stations) (hsinks : t.sinks = s.sinks) : Spares n s t :=
  ⟨by rw [hstations], hsinks⟩

theorem stepSpool (hne : i ≠ n) (s : Session) (a : Action) : Spares n s (s.stepSpool i a).1 := by
  unfold Session.stepSpool
  split
  · exact .of_eq rfl rfl
  · split
    · exact .of_eq rfl rfl
    · exact ⟨by simp [Array.getElem?_modify, hne], rfl⟩

theorem countAll (s : Session) (i : Nat) (es : List Effect) : Spares n s (s.countAll i es) := by
  obtain ⟨registry, hregistry⟩ := countAll_frame s i es
  rw [hregistry]
  exact .of_eq rfl rfl

theorem wakeWorker (s : Session) (i : Nat) : Spares n s (s.wakeWorker i) := by
  obtain ⟨ready, hready⟩ := wakeWorker_eq s i
  rw [hready]
  exact .of_eq rfl rfl

theorem finishWrite (hne : i ≠ n) (s : Session) (fuel : Nat) :
    Spares n s (finishWrite i fuel s).1 := by
  induction fuel generalizing s with
  | zero => exact .of_eq rfl rfl
  | succ fuel ih =>
    have hnext := (stepSpool hne s (.advance writeCall)).trans
      (countAll (s.stepSpool i (.advance writeCall)).1 i (s.stepSpool i (.advance writeCall)).2)
    rw [Session.finishWrite]
    cases hreply : reply? (s.stepSpool i (.advance writeCall)).2 with
    | some reply => simpa [hreply] using hnext
    | none => simpa [hreply] using hnext.trans (ih _)

/-- A record that is written to any station spares one that is deserted. -/
theorem write (h : s.IsDeserted n) (i : Nat) (record : Bytes) :
    Spares n s (s.write i record).1 := by
  by_cases heq : i = n
  · obtain ⟨ready, hready⟩ := write_of_deserted (heq ▸ h) record
    rw [hready]
    exact .of_eq rfl rfl
  · have hentered := stepSpool heq s (.enter writeCall record)
    unfold Session.write
    cases hreply : reply? (s.stepSpool i (.enter writeCall record)).2 with
    | some reply => simpa [hreply] using hentered
    | none =>
      have hall := (hentered.trans (finishWrite heq _ writeSteps)).trans (wakeWorker _ i)
      simpa [hreply] using hall

/-- A station that was spared is as deserted as it was. -/
theorem isDeserted (h : Spares n s t) (hs : s.IsDeserted n) : t.IsDeserted n :=
  fun station ht => hs station (h.station ▸ ht)

theorem record (h : s.IsDeserted n) (e : Event) : Spares n s (s.record e) := by
  unfold Session.record
  split
  · exact .of_eq rfl rfl
  · next i recorder _ =>
    let buffer := s.buffer.fill (e.record s.stamp recorder.see.serviceName)
    have hwritten := write (s := { s with buffer }) h i buffer.bytes
    dsimp only
    split
    · exact .of_eq rfl rfl
    · exact ⟨hwritten.station, hwritten.sinks⟩

theorem print (h : s.IsDeserted n) (e : Event) : Spares n s (s.print e) := by
  unfold Session.print
  cases s.observers.plain with
  | none =>
    dsimp only
    split <;> exact .of_eq rfl rfl
  | some i =>
    have hwritten := write h i (plainBytes e)
    dsimp only
    split
    · exact ⟨hwritten.station, hwritten.sinks⟩
    · exact hwritten

/-- An event spares every deserted station, and all sinks. -/
theorem emit (h : s.IsDeserted n) (e : Event) : Spares n s (s.emit e) := by
  have hrecorded := record h e
  exact hrecorded.trans (print (hrecorded.isDeserted h) e)

theorem report (h : s.IsDeserted n) (d : Diagnostic) : Spares n s (s.report d) := by
  have hemitted := emit (s := { s with diagnostics := d :: s.diagnostics }) h d.event
  exact ⟨hemitted.station, hemitted.sinks⟩

theorem reports (h : s.IsDeserted n) {es : List Effect} (hes : ∀ e ∈ es, ∃ d, e = .reported d)
    (i : Nat) : Spares n s (es.foldl (applyEffect i) s) := by
  induction es generalizing s with
  | nil => exact .of_eq rfl rfl
  | cons e rest ih =>
    obtain ⟨d, rfl⟩ := hes e List.mem_cons_self
    have hreported := report h d
    exact hreported.trans (ih (hreported.isDeserted h) fun e he => hes e (List.mem_cons_of_mem _ he))

end Spares

/-! ## Two sessions side by side -/

/-- The second session is the first with one more station, and perhaps with counters, sinks and
files that the first does not know of. -/
structure Beside (extra : Station) (s t : Session) : Prop where
  rest : ∃ registry sinks ready files,
    t = { s with stations := s.stations.push extra, registry, sinks, ready, files }
  names : s.registry.names <+: t.registry.names
  counters : ∀ id < s.registry.entries.size, t.registry.value id = s.registry.value id
  sinks : ∀ (j : Nat) sink, s.sinks[j]? = some sink → t.sinks[j]? = some sink

namespace Beside

theorem stations (h : Beside extra s t) : t.stations = s.stations.push extra := by
  obtain ⟨⟨_, _, _, _, rfl⟩, -, -, -⟩ := h
  rfl

theorem station_eq (h : Beside extra s t) (hi : i < s.stations.size) :
    t.stations[i]? = s.stations[i]? := by
  rw [h.stations, Array.getElem?_push_lt hi, Array.getElem?_eq_getElem hi]

theorem putSpool (h : Beside extra s t) (hi : i < s.stations.size) (spool : Spool) :
    Beside extra (s.putSpool i spool) (t.putSpool i spool) := by
  obtain ⟨⟨registry, sinks, ready, files, rfl⟩, hnames, hcounters, hsinks⟩ := h
  refine ⟨⟨registry, sinks, ready, files, ?_⟩, hnames, hcounters, hsinks⟩
  have hpush : ((s.stations.push extra).modify i fun station => { station with spool }) =
      (s.stations.modify i fun station => { station with spool }).push extra := by
    refine Array.ext_getElem? fun k => ?_
    simp only [Array.getElem?_modify, Array.getElem?_push, Array.size_modify]
    by_cases hk : k = s.stations.size
    · have hne : i ≠ k := by omega
      simp [hk, hk ▸ hne]
    · simp [hk]
  simp only [Session.putSpool, modifyStation, hpush]

theorem stepSpool (h : Beside extra s t) (hi : i < s.stations.size) (a : Action) :
    (t.stepSpool i a).2 = (s.stepSpool i a).2 ∧
      Beside extra (s.stepSpool i a).1 (t.stepSpool i a).1 := by
  unfold Session.stepSpool
  rw [h.station_eq hi]
  rcases s.stations[i]? with _ | station
  · exact ⟨rfl, h⟩
  · rcases hstep : station.spool.step a with _ | r
    · simpa [hstep] using h
    · simp only [hstep]
      exact ⟨trivial, h.putSpool hi r.1⟩

theorem count (h : Beside extra s t) (hi : i < s.stations.size) (fate : Fate) :
    Beside extra (s.count i fate) (t.count i fate) := by
  unfold Session.count
  rw [h.station_eq hi]
  rcases s.stations[i]? with _ | station
  · exact h
  · obtain ⟨⟨registry, sinks, ready, files, rfl⟩, hnames, hcounters, hsinks⟩ := h
    have hsize : s.registry.entries.size ≤ registry.entries.size := by
      simpa [Registry.names] using hnames.length_le
    refine ⟨⟨_, sinks, ready, files, rfl⟩, by simpa using hnames, fun id hid => ?_, hsinks⟩
    have hid : id < s.registry.entries.size := by simpa [Registry.increment] using hid
    simp only [Registry.value_increment _ hid, Registry.value_increment registry (Nat.lt_of_lt_of_le hid hsize),
      hcounters id hid]

theorem countAll (h : Beside extra s t) (hi : i < s.stations.size) (es : List Effect) :
    Beside extra (s.countAll i es) (t.countAll i es) := by
  induction es generalizing s t with
  | nil => exact h
  | cons e rest ih =>
    cases e with
    | counted call record fate =>
      have hstations : (s.count i fate).stations = s.stations := by
        unfold Session.count
        split <;> rfl
      exact ih (h.count hi fate) (hstations ▸ hi)
    | _ => exact ih h hi

theorem wakeWorker (h : Beside extra s t) (i j : Nat) :
    Beside extra (s.wakeWorker i) (t.wakeWorker j) := by
  obtain ⟨ready, hready⟩ := wakeWorker_eq s i
  obtain ⟨other, hother⟩ := wakeWorker_eq t j
  obtain ⟨⟨registry, sinks, _, files, rfl⟩, hnames, hcounters, hsinks⟩ := h
  rw [hready, hother]
  exact ⟨⟨registry, sinks, other, files, rfl⟩, hnames, hcounters, hsinks⟩

theorem size_stepSpool (s : Session) (i : Nat) (a : Action) :
    (s.stepSpool i a).1.stations.size = s.stations.size := by
  unfold Session.stepSpool
  split
  · rfl
  · split
    · rfl
    · exact Array.size_modify

theorem finishWrite (h : Beside extra s t) (hi : i < s.stations.size) (fuel : Nat) :
    (finishWrite i fuel t).2 = (finishWrite i fuel s).2 ∧
      Beside extra (finishWrite i fuel s).1 (finishWrite i fuel t).1 := by
  induction fuel generalizing s t with
  | zero => exact ⟨rfl, h⟩
  | succ fuel ih =>
    obtain ⟨heffects, hstepped⟩ := h.stepSpool hi (.advance writeCall)
    have hsize := size_stepSpool s i (.advance writeCall)
    rw [Session.finishWrite, Session.finishWrite]
    generalize s.stepSpool i (.advance writeCall) = r at heffects hstepped hsize
    generalize t.stepSpool i (.advance writeCall) = q at heffects hstepped
    obtain ⟨s, es⟩ := r
    obtain ⟨t, es⟩ := q
    obtain rfl := heffects
    have hstill := hsize ▸ hi
    have hcounted := hstepped.countAll hstill es
    obtain ⟨registry, hregistry⟩ := countAll_frame s i es
    dsimp only
    cases reply? es with
    | some reply => exact ⟨rfl, hcounted⟩
    | none => exact ih hcounted (by rw [hregistry]; exact hstill)

/-- Both write a record to the same station, or to none, and are answered the same. -/
theorem write (h : Beside extra s t) (hextra : extra.spool.Deserted) (i : Nat) (record : Bytes) :
    (t.write i record).2 = (s.write i record).2 ∧
      Beside extra (s.write i record).1 (t.write i record).1 := by
  by_cases hi : i < s.stations.size
  · obtain ⟨heffects, hentered⟩ := h.stepSpool hi (.enter writeCall record)
    have hsize := size_stepSpool s i (.enter writeCall record)
    unfold Session.write
    generalize s.stepSpool i (.enter writeCall record) = r at heffects hentered hsize
    generalize t.stepSpool i (.enter writeCall record) = q at heffects hentered
    obtain ⟨s, es⟩ := r
    obtain ⟨t, es⟩ := q
    obtain rfl := heffects
    dsimp only
    cases reply? es with
    | some reply => exact ⟨rfl, hentered⟩
    | none =>
      obtain ⟨hanswer, hfinished⟩ := hentered.finishWrite (hsize ▸ hi) writeSteps
      exact ⟨hanswer, hfinished.wakeWorker i i⟩
  · have hs : s.IsDeserted i := by
      intro station hstation
      rw [Array.getElem?_eq_none (by omega)] at hstation
      cases hstation
    have ht : t.IsDeserted i := by
      intro station hstation
      rw [h.stations, Array.getElem?_push] at hstation
      split at hstation
      · cases hstation
        exact hextra
      · rw [Array.getElem?_eq_none (by omega)] at hstation
        cases hstation
    obtain ⟨ready, hready⟩ := write_of_deserted hs record
    obtain ⟨other, hother⟩ := write_of_deserted ht record
    obtain ⟨⟨registry, sinks, _, files, rfl⟩, hnames, hcounters, hsinks⟩ := h
    rw [hready, hother]
    exact ⟨rfl, ⟨registry, sinks, other, files, rfl⟩, hnames, hcounters, hsinks⟩

theorem shared (h : Beside extra s t) : t.observers = s.observers ∧ t.stamp = s.stamp ∧
    t.buffer = s.buffer ∧ t.stdout = s.stdout := by
  obtain ⟨⟨_, _, _, _, rfl⟩, -, -, -⟩ := h
  exact ⟨rfl, rfl, rfl, rfl⟩

theorem withObservers (h : Beside extra s t) (observers : Observers) :
    Beside extra { s with observers } { t with observers } := by
  obtain ⟨⟨registry, sinks, ready, files, rfl⟩, hnames, hcounters, hsinks⟩ := h
  exact ⟨⟨registry, sinks, ready, files, rfl⟩, hnames, hcounters, hsinks⟩

theorem withBuffer (h : Beside extra s t) (buffer : LineBuffer) :
    Beside extra { s with buffer } { t with buffer } := by
  obtain ⟨⟨registry, sinks, ready, files, rfl⟩, hnames, hcounters, hsinks⟩ := h
  exact ⟨⟨registry, sinks, ready, files, rfl⟩, hnames, hcounters, hsinks⟩

theorem withStdout (h : Beside extra s t) (stdout : Array Bytes) :
    Beside extra { s with stdout } { t with stdout } := by
  obtain ⟨⟨registry, sinks, ready, files, rfl⟩, hnames, hcounters, hsinks⟩ := h
  exact ⟨⟨registry, sinks, ready, files, rfl⟩, hnames, hcounters, hsinks⟩

/-- The recorder of both sees the same event, and hands on the same line. -/
theorem record (h : Beside extra s t) (hextra : extra.spool.Deserted) (e : Event) :
    Beside extra (s.record e) (t.record e) := by
  obtain ⟨hobservers, hstamp, hbuffer, -⟩ := h.shared
  unfold Session.record
  rcases hrecorder : s.observers.recorder with _ | ⟨i, recorder⟩
  · simpa only [hobservers, hrecorder] using h
  · simp only [show t.observers.recorder = some (i, recorder) by rw [hobservers, hrecorder]]
    split
    · rw [hobservers]
      exact h.withObservers { s.observers with recorder := some (i, recorder.see) }
    · rw [hstamp, hbuffer]
      generalize s.buffer.fill (e.record s.stamp recorder.see.serviceName) = buffer
      obtain ⟨hreply, hwritten⟩ := (h.withBuffer buffer).write hextra i buffer.bytes
      rw [hreply, hwritten.shared.1]
      exact hwritten.withObservers _

theorem print (h : Beside extra s t) (hextra : extra.spool.Deserted) (e : Event) :
    Beside extra (s.print e) (t.print e) := by
  have hconsole : ∀ {v w : Session}, Beside extra v w → Beside extra
      (if v.observers.console then
        { v with stdout := v.stdout.push (Utf8.encode (v.stamp.text ++ [' ']) ++ plainBytes e) }
      else v)
      (if w.observers.console then
        { w with stdout := w.stdout.push (Utf8.encode (w.stamp.text ++ [' ']) ++ plainBytes e) }
      else w) := by
    intro v w hvw
    obtain ⟨hobservers, hstamp, -, hstdout⟩ := hvw.shared
    have hswitch : w.observers.console = v.observers.console := by rw [hobservers]
    rw [hswitch, hstamp, hstdout]
    split
    · exact hvw.withStdout _
    · exact hvw
  unfold Session.print
  rw [h.shared.1]
  cases s.observers.plain with
  | none => exact hconsole h
  | some i => exact hconsole (h.write hextra i (plainBytes e)).2

theorem emit (h : Beside extra s t) (hextra : extra.spool.Deserted) (e : Event) :
    Beside extra (s.emit e) (t.emit e) :=
  (h.record hextra e).print hextra e

end Beside

end LogSpool.Session
