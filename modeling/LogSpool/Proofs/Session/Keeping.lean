import LogSpool.Proofs.Session.Recording
import LogSpool.Session.Play
set_option autoImplicit false

/-!
# Sessions: what is kept while no time passes

While the clock stands still the stations of a session are only ever changed by steps of their
spools, by the progress of their workers' calls, and by new stations that come after them.  A
property of the stations and the time that these keep is `Keeps`, and it is kept by whatever the
tasks do when they have a turn.  A record is written in one go there, and whoever gives the last
slot back wakes who waits in the same go, so that a property may speak of a spool where nobody is
half done with that.  `Stepwise` is a property that every single step keeps.
-/

namespace LogSpool

/-- What a fold keeps in each step it keeps altogether. -/
theorem foldl_keeps {σ α : Type} {P : σ → Prop} {f : σ → α → σ} (hf : ∀ s a, P s → P (f s a))
    (as : List α) {s : σ} (h : P s) : P (as.foldl f s) := by
  induction as generalizing s with
  | nil => exact h
  | cons a rest ih => exact ih (hf s a h)

/-- Nobody is half done after the action who was not before: no record is being written, and nobody
has still to wake who waits. -/
def Action.isBrief : Action → Bool
  | .enter _ _ | .advance _ | .release => false
  | _ => true

/-- The action is nobody's who waits, and nobody is half done after it who was not before. -/
def Action.isWhole (a : Action) : Bool := a.isBrief && a.waiting?.isNone

theorem Action.isBrief_of_isWhole {a : Action} (h : a.isWhole = true) : a.isBrief = true :=
  (Bool.and_eq_true_iff.mp h).1

theorem Action.isBrief_of_isSome {a : Action} (h : a.waiting?.isSome = true) : a.isBrief = true := by
  cases a <;> first | rfl | cases h

namespace Session

/-- A property of sessions that is about their stations and the time only, and that is kept when a
record is written. -/
structure KeptByWrites (P : Session → Prop) : Prop where
  frame : ∀ {s t : Session}, P s → t.stations = s.stations → t.now = s.now → P t
  write : ∀ {s : Session} (i : Nat) (record : Bytes), P s → P (s.write i record).1

/-- A property of sessions that is kept by everything that is done in one go while no time
passes. -/
structure Keeps (P : Session → Prop) : Prop extends KeptByWrites P where
  step : ∀ {s : Session} {i : Nat} {station : Station} {a : Action} {next : Spool}
    {es : List Effect}, P s → s.stations[i]? = some station → a.isWhole = true →
      Spool.Transition station.spool a next es → P (s.putSpool i next)
  giveBack : ∀ {s : Session} (i : Nat), P s →
    P ((s.stepSpool i .release).1.stepSpool i .wake).1
  progress : ∀ {s : Session} (i : Nat) (progress : Progress), P s →
    P (s.modifyStation i fun station => { station with progress })
  push : ∀ {s : Session} {station : Station} {settings : SpoolSettings}, P s →
    station.spool = .start settings.slots → P { s with stations := s.stations.push station }

/-- A property of sessions that is kept by every step of a spool that is nobody's who waits. -/
structure Stepwise (P : Session → Prop) : Prop where
  frame : ∀ {s t : Session}, P s → t.stations = s.stations → t.now = s.now → P t
  step : ∀ {s : Session} {i : Nat} {station : Station} {a : Action} {next : Spool}
    {es : List Effect}, P s → s.stations[i]? = some station → a.waiting? = none →
      Spool.Transition station.spool a next es → P (s.putSpool i next)
  progress : ∀ {s : Session} (i : Nat) (progress : Progress), P s →
    P (s.modifyStation i fun station => { station with progress })
  push : ∀ {s : Session} {station : Station} {settings : SpoolSettings}, P s →
    station.spool = .start settings.slots → P { s with stations := s.stations.push station }

/-! ## What a write and a report keep -/

/-- Counting changes no station, and takes no time. -/
theorem frame_count (s : Session) (i : Nat) (fate : Fate) :
    (s.count i fate).stations = s.stations ∧ (s.count i fate).now = s.now := by
  unfold Session.count
  split <;> exact ⟨rfl, rfl⟩

/-- Letting a worker have a turn changes no station, and takes no time. -/
theorem frame_wakeWorker (s : Session) (i : Nat) :
    (s.wakeWorker i).stations = s.stations ∧ (s.wakeWorker i).now = s.now := by
  obtain ⟨ready, heq⟩ := wakeWorker_eq s i
  rw [heq]
  exact ⟨rfl, rfl⟩

namespace KeptByWrites

variable {P : Session → Prop} {s : Session} (hP : KeptByWrites P)
include hP

theorem record (h : P s) (e : Event) : P (s.record e) := by
  unfold Session.record
  split
  · exact h
  · next i recorder _ =>
    let buffer := s.buffer.fill (e.record s.stamp recorder.see.serviceName)
    have hbuilt : P { s with buffer } := hP.frame h rfl rfl
    dsimp only
    split
    · exact hP.frame h rfl rfl
    · exact hP.frame (hP.write i _ hbuilt) rfl rfl

theorem print (h : P s) (e : Event) : P (s.print e) := by
  unfold Session.print
  cases s.observers.plain with
  | none =>
    dsimp only
    split
    · exact hP.frame h rfl rfl
    · exact h
  | some i =>
    dsimp only
    split
    · exact hP.frame (hP.write i _ h) rfl rfl
    · exact hP.write i _ h

theorem emit (h : P s) (e : Event) : P (s.emit e) := hP.print (hP.record h e) e

theorem report (h : P s) (d : Diagnostic) : P (s.report d) := by
  have hnoted : P { s with diagnostics := d :: s.diagnostics } := hP.frame h rfl rfl
  exact hP.emit hnoted d.event

end KeptByWrites

namespace Stepwise

variable {P : Session → Prop} {s : Session} (hP : Stepwise P)
include hP

theorem stepSpool (h : P s) (i : Nat) {a : Action} (ha : a.waiting? = none) :
    P (s.stepSpool i a).1 := by
  unfold Session.stepSpool
  cases hi : s.stations[i]? with
  | none => exact h
  | some station =>
    cases hstep : station.spool.step a with
    | none => simpa [hstep] using h
    | some r =>
      simp only [hstep]
      exact hP.step h hi ha (.of_step hstep)

theorem countAll (h : P s) (i : Nat) (es : List Effect) : P (s.countAll i es) := by
  refine foldl_keeps (P := P) (fun s effect hs => ?_) es h
  cases effect with
  | counted call record fate =>
    obtain ⟨hstations, hnow⟩ := frame_count s i fate
    exact hP.frame hs hstations hnow
  | _ => exact hs

theorem finishWrite (h : P s) (i fuel : Nat) : P (finishWrite i fuel s).1 := by
  induction fuel generalizing s with
  | zero => exact h
  | succ fuel ih =>
    rw [Session.finishWrite]
    have hnext := hP.countAll (hP.stepSpool h i (a := .advance writeCall) rfl) i
      (s.stepSpool i (.advance writeCall)).2
    cases hreply : reply? (s.stepSpool i (.advance writeCall)).2 with
    | some reply => simpa [hreply] using hnext
    | none => simpa [hreply] using ih hnext

theorem write (h : P s) (i : Nat) (record : Bytes) : P (s.write i record).1 := by
  have hentered := hP.stepSpool h i (a := .enter writeCall record) rfl
  unfold Session.write
  cases hreply : reply? (s.stepSpool i (.enter writeCall record)).2 with
  | some reply => simpa [hreply] using hentered
  | none =>
    have hfinished := hP.finishWrite hentered i writeSteps
    obtain ⟨hstations, hnow⟩ := frame_wakeWorker
      (Session.finishWrite i writeSteps (s.stepSpool i (.enter writeCall record)).1).1 i
    simpa [hreply] using hP.frame hfinished hstations hnow

/-- What every step keeps is kept by what is done in one go. -/
theorem keeps : Keeps P where
  frame := hP.frame
  write i record h := hP.write h i record
  step {s i station a next es} h hi ha step := by
    refine hP.step h hi ?_ step
    cases a <;> first | rfl | cases ha
  giveBack i h := hP.stepSpool (hP.stepSpool h i (a := .release) rfl) i (a := .wake) rfl
  progress := hP.progress
  push := hP.push

end Stepwise

/-! ## Steps with all their effects -/

/-- A step without effects changes its spool and nothing else. -/
theorem take_of_silent {a : Action}
    (hsilent : ∀ {t u : Spool} {es : List Effect}, Spool.Transition t a u es → es = [])
    (s : Session) (i : Nat) : s.take i a = (s.stepSpool i a).1 := by
  have hnone : (s.stepSpool i a).2 = [] := by
    unfold Session.stepSpool
    split
    · rfl
    · next station _ =>
      split
      · rfl
      · next spool es hstep => exact hsilent (.of_step hstep)
  unfold Session.take takeSeeing
  simp only [hnone, List.foldl_nil]

namespace Keeps

variable {P : Session → Prop} {s : Session} (hP : Keeps P)
include hP

theorem stepSpool (h : P s) (i : Nat) {a : Action} (ha : a.isWhole = true) :
    P (s.stepSpool i a).1 := by
  unfold Session.stepSpool
  cases hi : s.stations[i]? with
  | none => exact h
  | some station =>
    cases hstep : station.spool.step a with
    | none => simpa [hstep] using h
    | some r =>
      simp only [hstep]
      exact hP.step h hi ha (.of_step hstep)

theorem count (h : P s) (i : Nat) (fate : Fate) : P (s.count i fate) := by
  obtain ⟨hstations, hnow⟩ := frame_count s i fate
  exact hP.frame h hstations hnow

theorem wakeWorker (h : P s) (i : Nat) : P (s.wakeWorker i) := by
  obtain ⟨hstations, hnow⟩ := frame_wakeWorker s i
  exact hP.frame h hstations hnow

theorem modifySink (h : P s) (j : Nat) (f : SinkState → SinkState) : P (s.modifySink j f) :=
  hP.frame h rfl rfl

theorem applyEffect (h : P s) (i : Nat) (effect : Effect) : P (applyEffect i s effect) := by
  cases effect with
  | counted call record fate => exact hP.count h i fate
  | reported d => exact hP.report h d
  | attempted | flushed =>
    unfold Session.applyEffect
    simp only
    split
    · exact h
    · split
      · exact h
      · exact hP.progress i _ (hP.modifySink h _ _)
  | released =>
    unfold Session.applyEffect
    simp only
    split
    · exact h
    · exact hP.progress i _ (hP.modifySink h _ _)
  | _ => exact h

theorem applyEffects (h : P s) (i : Nat) (es : List Effect) :
    P (es.foldl (Session.applyEffect i) s) :=
  foldl_keeps (P := P) (fun _ effect hs => hP.applyEffect hs i effect) es h

theorem take (h : P s) (i : Nat) {a : Action} (ha : a.isWhole = true) : P (s.take i a) :=
  hP.applyEffects (hP.stepSpool h i ha) i _

theorem close (h : P s) (i : Nat) : P (s.close i) :=
  hP.wakeWorker (hP.take (hP.take h i (a := .close) rfl) i (a := .announce) rfl) i

theorem retain (h : P s) (i : Nat) : P (s.retain i) := hP.take h i (a := .clone) rfl

theorem release (h : P s) (i : Nat) : P (s.release i) :=
  hP.wakeWorker (hP.take h i (a := .drop) rfl) i

/-! ## Opening and installing -/

theorem openBackend (h : P s) (backend : Backend) : P (s.openBackend backend).1 := by
  unfold Session.openBackend
  cases backend.kind with
  | tcp => cases Address.connect backend.target <;> exact h
  | file =>
    cases s.files.openAppend backend.target with
    | ok r => exact hP.frame h rfl rfl
    | error e => exact h
  | _ => exact h

theorem openSpec (h : P s) (spec : SinkSpec) : P (s.openSpec spec).1 := by
  cases spec with
  | dsn dsn =>
    unfold Session.openSpec
    simp only
    cases Backend.parse dsn with
    | error e => exact h
    | ok backend =>
      have hopened := hP.openBackend h backend
      simp only
      revert hopened
      rcases s.openBackend backend with ⟨t, _ | _⟩ <;> exact id
  | _ => exact h

theorem openNumbered (h : P s) (spec : SinkSpec) : P (s.openNumbered spec).1 :=
  hP.frame (hP.openSpec h spec) rfl rfl

theorem startStation (h : P s) (j : Nat) (settings : SpoolSettings) (boxed : Bool) :
    P (s.startStation j settings boxed).1 :=
  hP.frame (hP.push (hP.frame h rfl rfl) rfl) rfl rfl

theorem releaseObservers (h : P s) : P s.releaseObservers := by
  unfold Session.releaseObservers
  refine foldl_keeps (P := P) (fun s i hs => hP.release hs i) _ ?_
  exact hP.frame h rfl rfl

theorem observe (h : P s) (i : Nat) (recorder : Recorder) : P (s.observe i recorder) :=
  hP.frame (hP.releaseObservers (hP.retain h i)) rfl rfl

theorem observePlainly (h : P s) (i : Nat) : P (s.observePlainly i) :=
  hP.frame (hP.releaseObservers (hP.retain h i)) rfl rfl

theorem install (h : P s) (j : Nat) (settings : Settings) : P (s.install j settings).1 := by
  have hstarted := hP.startStation h j settings.spool true
  unfold Session.install
  generalize s.startStation j settings.spool true = r at hstarted
  obtain ⟨t, i⟩ := r
  dsimp only at hstarted ⊢
  split
  · exact hP.release hstarted i
  · exact hP.frame (hP.retain hstarted i) rfl rfl

theorem installFromEnvironment (h : P s) : P s.installFromEnvironment.1 := by
  unfold Session.installFromEnvironment
  cases Backend.parse (s.environment.textOr Settings.dsnKey Settings.defaultDsn) with
  | error e => exact h
  | ok backend =>
    have hopened := hP.openBackend h backend
    dsimp only
    generalize s.openBackend backend = r at hopened
    obtain ⟨t, e | kind⟩ := r
    · exact hopened
    · have hadded : P (t.addSink kind).1 := hP.frame hopened rfl rfl
      exact hP.install hadded (t.addSink kind).2 _

/-! ## The work of the tasks -/

theorem acceptRecord (h : P s) (j : Nat) (record : Bytes) : P (s.acceptRecord j record).1 := by
  obtain ⟨hstations, hnow⟩ : (s.acceptRecord j record).1.stations = s.stations ∧
      (s.acceptRecord j record).1.now = s.now := by
    unfold Session.acceptRecord
    dsimp only
    split
    · exact ⟨rfl, rfl⟩
    · split
      · split <;> exact ⟨rfl, rfl⟩
      all_goals exact ⟨rfl, rfl⟩
  exact hP.frame h hstations hnow

theorem flushSink (h : P s) (j : Nat) : P (s.flushSink j).1 := by
  obtain ⟨hstations, hnow⟩ : (s.flushSink j).1.stations = s.stations ∧
      (s.flushSink j).1.now = s.now := by
    unfold Session.flushSink
    split
    · exact ⟨rfl, rfl⟩
    · split <;> exact ⟨rfl, rfl⟩
  exact hP.frame h hstations hnow

theorem endWriteCall (h : P s) (j : Nat) (record : Bytes) (ending : Ending) :
    P (s.endWriteCall j record ending).1 := by
  cases ending with
  | forward => exact hP.acceptRecord h j record
  | _ => exact h

theorem endFlushCall (h : P s) (j : Nat) (ending : Ending) : P (s.endFlushCall j ending).1 := by
  cases ending with
  | forward => exact hP.flushSink h j
  | _ => exact h

theorem runCall (h : P s) (j : Nat) (progress : Progress) : P (s.runCall j progress).1 := by
  obtain ⟨hstations, hnow⟩ : (s.runCall j progress).1.stations = s.stations ∧
      (s.runCall j progress).1.now = s.now := by
    unfold Session.runCall
    split <;> exact ⟨rfl, rfl⟩
  exact hP.frame h hstations hnow

theorem makeCall (h : P s) (i : Nat) : P (s.makeCall i) := by
  unfold Session.makeCall
  split
  · exact hP.take h i rfl
  · exact hP.take h i rfl

theorem beginWrite (h : P s) (i : Nat) : P (s.beginWrite i) := hP.makeCall (hP.take h i rfl) i

theorem beginFlush (h : P s) (i : Nat) : P (s.beginFlush i) := hP.makeCall (hP.take h i rfl) i

theorem continueCall (h : P s) (i : Nat) (station : Station) : P (s.continueCall i station).1 := by
  have hrun := hP.runCall h station.sink station.progress
  unfold Session.continueCall
  generalize s.runCall station.sink station.progress = r at hrun
  obtain ⟨t, ending | progress⟩ := r
  · exact hP.progress i _ hrun
  · exact hP.progress i _ hrun

theorem move (h : P s) (i : Nat) : P (s.move i).1 := by
  unfold Session.move
  split
  · exact h
  · next station _ =>
    have hcontinued := hP.continueCall h i station
    split
    · split
      · exact hP.beginWrite h i
      · split
        · exact hP.beginFlush h i
        · exact h
    · generalize s.continueCall i station = r at hcontinued
      obtain ⟨t, _ | ending⟩ := r
      · exact hcontinued
      · exact hP.take (hP.endWriteCall hcontinued _ _ ending) i rfl
    · exact hP.makeCall h i
    · exact hP.makeCall h i
    · exact hP.take h i rfl
    · rw [take_of_silent (fun step => by cases step; rfl), take_of_silent (fun step => by cases step; rfl)]
      exact hP.giveBack i h
    · exact hP.take h i rfl
    · generalize s.continueCall i station = r at hcontinued
      obtain ⟨t, _ | ending⟩ := r
      · exact hcontinued
      · exact hP.take (hP.endFlushCall hcontinued _ ending) i rfl
    · exact h
    · exact h

theorem enqueue (h : P s) (task : Task) : P (s.enqueue task) := hP.frame h rfl rfl

theorem workerTurn (h : P s) (i fuel : Nat) : P (workerTurn i fuel s) := by
  induction fuel generalizing s with
  | zero => exact hP.enqueue h _
  | succ fuel ih =>
    have hmoved := hP.move h i
    unfold Session.workerTurn
    generalize s.move i = r at hmoved
    obtain ⟨t, _ | _⟩ := r
    · exact hmoved
    · exact ih hmoved

theorem wakeAtGate (h : P s) (j : Nat) : P (s.wakeAtGate j) := by
  refine foldl_keeps (P := P) (fun s i hs => ?_) _ h
  split
  · split
    · exact hP.enqueue hs _
    · exact hs
  · exact hs

theorem addPermits (h : P s) (j n : Nat) : P (s.addPermits j n) :=
  hP.wakeAtGate (hP.modifySink h j _) j

theorem closeGate (h : P s) (j : Nat) : P (s.closeGate j) :=
  hP.wakeAtGate (hP.modifySink h j _) j

theorem perform (h : P s) (action : DeferredAction) : P (s.perform action).1 := by
  cases action with
  | write i record =>
    have hwritten := hP.write i record h
    unfold Session.perform
    dsimp only
    generalize s.write i record = r at hwritten
    obtain ⟨t, _ | _⟩ := r <;> exact hwritten
  | close i => exact hP.close h i
  | permits j n => exact hP.addPermits h j n
  | impossible => exact h

theorem deferredTurn (h : P s) (number : Nat) : P (s.deferredTurn number) := by
  unfold Session.deferredTurn
  split
  · exact h
  · next d _ =>
    split
    · exact h
    · have hperformed := hP.perform h d.action
      generalize s.perform d.action = r at hperformed
      obtain ⟨t, result⟩ := r
      have hnoted : P { t with
          late := result :: t.late
          deferred := t.deferred.filter (·.1 != number) } := hP.frame hperformed rfl rfl
      dsimp only
      split
      · exact hP.release hnoted _
      · exact hnoted

theorem turn (h : P s) (task : Task) : P (s.turn task) := by
  cases task with
  | worker i => exact hP.workerTurn h i turnLength
  | deferred number => exact hP.deferredTurn h number

theorem turns (h : P s) (fuel : Nat) : P (turns fuel s) := by
  induction fuel generalizing s with
  | zero => exact h
  | succ fuel ih =>
    unfold Session.turns
    split
    · exact h
    · next task ready _ =>
      have htaken : P { s with ready } := hP.frame h rfl rfl
      exact ih (hP.turn htaken task)

theorem settle (h : P s) : P s.settle := hP.turns h _

theorem wakeDue (h : P s) : P s.wakeDue := by
  unfold Session.wakeDue
  refine foldl_keeps (P := P) (fun s d hs => ?_) _ (foldl_keeps (P := P) (fun s i hs => ?_) _ h)
  · split
    · exact hP.enqueue hs _
    · exact hs
  · split
    · split
      · exact hP.enqueue hs _
      · exact hs
    · exact hs

end Keeps

end Session

end LogSpool
