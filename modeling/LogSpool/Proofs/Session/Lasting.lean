import LogSpool.Proofs.Session.Keeping
import LogSpool.Proofs.Spool.Polling
set_option autoImplicit false

/-!
# Sessions: what lasts

A property of the stations that is also kept when time passes, and by the calls that wait, is
`Lasting`, and `Lasting.follow` says that it lasts whatever the session goes on to do.
-/

namespace LogSpool

namespace Session

/-- A session that is asked to take steps, one after another. -/
def goOn (s : Session) (steps : List Step) : Session :=
  steps.foldl (fun s step => (s.answer step).1) s

/-- A property of sessions that is kept while no time passes, when time passes, and by every step of
a call that waits. -/
structure Lasting (P : Session → Prop) : Prop extends Keeps P where
  clock : ∀ {s : Session} (now : Nat), P s → P { s with now }
  waitingStep : ∀ {s : Session} {i : Nat} {station : Station} {a : Action} {next : Spool}
    {es : List Effect}, P s → s.stations[i]? = some station → a.waiting?.isSome = true →
      Spool.Transition station.spool a next es → P (s.putSpool i next)

/-- A property of the stations that every step of a spool keeps, the progress of calls, and new
stations is lasting. -/
theorem Lasting.of_steps {P : Session → Prop}
    (frame : ∀ {s t : Session}, P s → t.stations = s.stations → P t)
    (step : ∀ {s : Session} {i : Nat} {station : Station} {a : Action} {next : Spool}
      {es : List Effect}, P s → s.stations[i]? = some station →
        Spool.Transition station.spool a next es → P (s.putSpool i next))
    (progress : ∀ {s : Session} (i : Nat) (progress : Progress), P s →
      P (s.modifyStation i fun station => { station with progress }))
    (push : ∀ {s : Session} {station : Station} {settings : SpoolSettings}, P s →
      station.spool = .start settings.slots → P { s with stations := s.stations.push station }) :
    Lasting P :=
  have hstepwise : Stepwise P :=
    { frame := fun h heq _ => frame h heq
      step := fun h hi _ hstep => step h hi hstep
      progress := progress
      push := push }
  { hstepwise.keeps with
    clock := fun _ h => frame h rfl
    waitingStep := fun h hi _ hstep => step h hi hstep }

namespace Lasting

variable {P : Session → Prop} {s : Session} (hP : Lasting P)
include hP

/-! ## Waiting -/

theorem setClock (h : P s) (now : Nat) : P (s.setClock now) := hP.wakeDue (hP.clock now h)

theorem waitUntil {σ α : Type} {look : Look σ α} (hlook : ∀ wait s, P s → P (look wait s).1)
    (alarms : σ → List Nat) (limit now : Nat) (wait : σ) (h : P s) :
    P (waitUntil look alarms limit now wait s).1 := by
  fun_induction Session.waitUntil look alarms limit now wait s with
  | case1 now wait s t a heq => simpa [heq] using hlook wait _ (hP.settle h)
  | case2 now wait s t later heq next hnext u a hagain =>
    have hlooked : P t := by simpa [heq] using hlook wait _ (hP.settle h)
    simpa [hagain] using hlook later _ (hP.setClock hlooked next)
  | case3 now wait s t later heq next hnext u last hagain ih =>
    have hlooked : P t := by simpa [heq] using hlook wait _ (hP.settle h)
    exact ih (by simpa [hagain] using hlook later _ (hP.setClock hlooked next))
  | case4 now wait s t later heq next hnext => simpa [heq] using hlook wait _ (hP.settle h)

theorem await {σ α : Type} {look : Look σ α} (hlook : ∀ wait s, P s → P (look wait s).1)
    (limit : Nat) (wait : σ) (alarms : σ → List Nat) (h : P s) :
    P (await look limit wait s alarms).1 := by
  have hlooked := hlook wait s h
  unfold Session.await
  generalize look wait s = r at hlooked
  obtain ⟨t, wait | a⟩ := r
  · exact hP.waitUntil hlook alarms limit t.now wait hlooked
  · exact hlooked

theorem advance (h : P s) (ms : Nat) : P (s.advance ms) := by
  unfold Session.advance
  exact hP.settle (hP.await (fun _ _ hs => hs) _ _ _ h)

/-! ## Draining and shutting down -/

theorem briefStep (h : P s) {i : Nat} {station : Station} (hstation : s.stations[i]? = some station)
    {a : Action} {next : Spool} {es : List Effect} (ha : a.isBrief = true)
    (step : Spool.Transition station.spool a next es) : P (s.putSpool i next) := by
  by_cases hwaiting : a.waiting?.isSome = true
  · exact hP.waitingStep h hstation hwaiting step
  · refine hP.step h hstation ?_ step
    rw [Action.isWhole, ha, Bool.true_and]
    simpa using hwaiting

theorem run (h : P s) {i : Nat} {station : Station} (hstation : s.stations[i]? = some station)
    {actions : List Action} {next : Spool} {es : List Effect}
    (hbrief : ∀ a ∈ actions, a.isBrief = true)
    (hrun : station.spool.run actions = some (next, es)) : P (s.putSpool i next) := by
  induction actions generalizing s station es with
  | nil =>
    cases hrun
    rwa [putSpool_self hstation]
  | cons a rest ih =>
    rw [Spool.run_cons] at hrun
    obtain ⟨⟨mid, fs⟩, hstep, hrest⟩ := Option.bind_eq_some_iff.mp hrun
    obtain ⟨⟨last, gs⟩, hlast, heq⟩ := Option.map_eq_some_iff.mp hrest
    cases heq
    have hmid := hP.briefStep h hstation (hbrief a List.mem_cons_self) (.of_step hstep)
    have hfinal := ih hmid (station_putSpool hstation mid)
      (fun b hb => hbrief b (List.mem_cons_of_mem a hb)) hlast
    rwa [putSpool_putSpool] at hfinal

theorem takeBrief (h : P s) (i : Nat) {a : Action} (ha : a.isBrief = true) : P (s.take i a) := by
  have hstepped : P (s.stepSpool i a).1 := by
    unfold Session.stepSpool
    split
    · exact h
    · next station hstation =>
      split
      · exact h
      · next spool es hstep => exact hP.briefStep h hstation ha (.of_step hstep)
  exact hP.applyEffects hstepped i _

theorem takeAll (h : P s) (i : Nat) {actions : List Action}
    (hbrief : ∀ a ∈ actions, a.isBrief = true) : P (s.takeAll i actions) := by
  unfold Session.takeAll
  split
  · exact h
  · next station hstation =>
    obtain ⟨taken, hsub, hrun⟩ := Spool.run_tryAll station.spool actions
    have htaken := hP.run h hstation (fun a ha => hbrief a (hsub.subset ha)) hrun
    exact hP.applyEffects htaken i _

theorem poll (h : P s) (call : WaitingCall) : P (poll call s).1 := by
  unfold Session.poll
  split
  · exact h
  · next station hstation =>
    obtain ⟨steps, hsteps, hrun⟩ :=
      Spool.takes_poll station.spool call.number (call.deadline ≤ s.now)
    have hpolled := hP.run h hstation
      (fun a ha => Action.isBrief_of_isSome (by rw [hsteps a ha]; rfl)) hrun
    exact hP.applyEffects hpolled call.station _

theorem awaitCall (h : P s) (call : WaitingCall) : P (s.awaitCall call).1 := by
  unfold Session.awaitCall
  refine hP.settle (hP.await (fun _ s hs => ?_) _ _ _ h)
  have hpolled := hP.poll hs call
  generalize Session.poll call s = r at hpolled
  obtain ⟨v, _ | _⟩ := r <;> exact hpolled

theorem startDrain (h : P s) (i deadline : Nat) : P (s.startDrain i deadline).1 :=
  hP.takeBrief h i (a := .arm _) rfl

theorem drain (h : P s) (i : Nat) (timeout : Timeout) : P (s.drain i timeout).1 :=
  hP.awaitCall (hP.startDrain h i (s.deadline timeout)) _

theorem drainOrGiveUp (h : P s) (i : Nat) (timeout : Timeout) (after : Nat) :
    P (s.drainOrGiveUp i timeout after).1 := by
  have hstarted := hP.startDrain h i (s.deadline timeout)
  unfold Session.drainOrGiveUp
  dsimp only
  generalize s.startDrain i (s.deadline timeout) = r at hstarted
  obtain ⟨t, call⟩ := r
  dsimp only
  refine hP.settle (hP.await (fun _ s hs => ?_) _ _ _ hstarted)
  have hpolled := hP.poll hs call
  generalize Session.poll call s = r at hpolled
  obtain ⟨v, _ | _⟩ := r
  · dsimp only
    split
    · exact hP.takeBrief hpolled _ (a := .abandon _) rfl
    · exact hpolled
  · exact hpolled

theorem pollEach (h : P s) (calls : List (WaitingCall × Option WaitResult)) :
    P (pollEach calls s).1 := by
  induction calls generalizing s with
  | nil => exact h
  | cons call rest ih =>
    obtain ⟨call, _ | result⟩ := call
    · exact ih (hP.poll h call)
    · exact ih h

theorem drainMany (h : P s) (i : Nat) (timeouts : List Timeout) : P (s.drainMany i timeouts).1 := by
  unfold Session.drainMany
  dsimp only
  refine hP.settle (hP.await (fun calls s hs => ?_) _ _ _ ?_)
  · have hpolled := hP.pollEach hs calls
    generalize Session.pollEach calls s = r at hpolled
    split <;> exact hpolled
  · exact foldl_keeps (P := fun r : Session × List (WaitingCall × Option WaitResult) => P r.1)
      (fun r timeout hr => hP.startDrain hr i (r.1.deadline timeout)) timeouts h

theorem startShutdown (h : P s) (i deadline : Nat) : P (s.startShutdown i deadline).1 :=
  hP.wakeWorker (hP.takeAll h i (by simp [Spool.shutdownSteps, Action.isBrief])) i

theorem shutdown (h : P s) (i ms : Nat) : P (s.shutdown i ms).1 :=
  hP.awaitCall (hP.startShutdown h i (s.now + ms)) _

theorem stopTasks (h : P s) : P s.stopTasks := by
  have hlost := foldl_keeps (P := P) (fun _ i hs => hP.take hs i (a := .lose .cancelled) rfl)
    (List.range s.stations.size) h
  unfold Session.stopTasks
  generalize (List.range s.stations.size).foldl (fun s i => s.take i (.lose .cancelled)) s = t
    at hlost
  have hgiven := foldl_keeps (P := P) (fun _ i hs => hP.take hs i (a := .drop) rfl)
    (t.deferred.filterMap (·.2.action.station?)) hlost
  exact hP.frame hgiven rfl rfl

/-! ## The output interface, and sinks used directly -/

theorem writeAll (h : P s) (i : Nat) (bytes : Bytes) : P (s.writeAll i bytes).1 := by
  fun_induction Session.writeAll s i bytes with
  | case1 s => exact h
  | case2 s b rest t heq | case3 s b rest t heq =>
    have hwritten := hP.write i (b :: rest) h
    rwa [heq] at hwritten
  | case4 s b rest t n heq ih =>
    have hwritten := hP.write i (b :: rest) h
    rw [heq] at hwritten
    exact ih hwritten

theorem writePieces (h : P s) (i : Nat) (pieces : List Bytes) : P (writePieces i pieces s).1 := by
  induction pieces generalizing s with
  | nil => exact h
  | cons piece rest ih =>
    have hwritten := hP.writeAll h i piece
    unfold Session.writePieces
    generalize s.writeAll i piece = r at hwritten
    obtain ⟨t, _ | _⟩ := r
    · exact hwritten
    · exact ih hwritten

theorem output (h : P s) (i : Nat) (method : OutputMethod) (bytes : Bytes) :
    P (s.output i method bytes).1 := by
  cases method with
  | write =>
    have hwritten := hP.write i bytes h
    unfold Session.output
    dsimp only
    generalize s.write i bytes = r at hwritten
    obtain ⟨t, _ | _⟩ := r <;> exact hwritten
  | writeAll => exact hP.writeAll h i bytes
  | flush => exact h
  | format number =>
    unfold Session.output
    exact hP.writePieces h i _

theorem callDirect (h : P s) (j : Nat) (behaviour : Behaviour) : P (s.callDirect j behaviour).1 := by
  unfold Session.callDirect
  refine hP.await (fun progress s hs => ?_) _ _ _ h
  have hrun := hP.runCall hs j progress
  generalize s.runCall j progress = r at hrun
  obtain ⟨t, _ | _⟩ := r <;> exact hrun

theorem writeDirect (h : P s) (j : Nat) (record : Bytes) : P (s.writeDirect j record).1 := by
  unfold Session.writeDirect
  dsimp only
  split
  · next t heq =>
    have hfst := congrArg Prod.fst heq
    dsimp only at hfst
    rw [← hfst]
    exact hP.callDirect (hP.modifySink h j _) j _
  · next t ending heq =>
    have hended : P t := by
      have hfst := congrArg Prod.fst heq
      dsimp only at hfst
      rw [← hfst]
      exact hP.callDirect (hP.modifySink h j _) j _
    have hwritten := hP.endWriteCall hended j record ending
    generalize t.endWriteCall j record ending = r at hwritten
    obtain ⟨u, _ | _ | _⟩ := r <;> exact hwritten

theorem flushDirect (h : P s) (j : Nat) : P (s.flushDirect j).1 := by
  unfold Session.flushDirect
  dsimp only
  split
  · next t heq =>
    have hfst := congrArg Prod.fst heq
    dsimp only at hfst
    rw [← hfst]
    exact hP.callDirect (hP.modifySink h j _) j _
  · next t ending heq =>
    have hended : P t := by
      have hfst := congrArg Prod.fst heq
      dsimp only at hfst
      rw [← hfst]
      exact hP.callDirect (hP.modifySink h j _) j _
    have hflushed := hP.endFlushCall hended j ending
    generalize t.endFlushCall j ending = r at hflushed
    obtain ⟨u, _ | _ | _⟩ := r <;> exact hflushed

theorem useUpDirect (h : P s) (direct j : Nat) : P (s.useUpDirect direct j) := hP.frame h rfl rfl

/-! ## Whatever a session is asked to do -/

omit hP in
theorem withStation (h : P s) (handle : Nat) {f : Nat → Session × Result}
    (hf : ∀ i, P (f i).1) : P (s.withStation handle f).1 := by
  unfold Session.withStation
  split
  · exact hf _
  · exact h

omit hP in
theorem withDirect (h : P s) (direct : Nat) {f : Nat → Session × Result}
    (hf : ∀ j, P (f j).1) : P (s.withDirect direct f).1 := by
  unfold Session.withDirect
  split
  · exact hf _
  · exact h

theorem writeEach (h : P s) (i : Nat) (records : List Bytes) : P (s.writeEach i records).1 := by
  refine foldl_keeps (P := fun r : Session × Nat × Nat => P r.1) (fun r record hr => ?_) records h
  obtain ⟨s, bytes, errors⟩ := r
  have hwritten := hP.write i record hr
  dsimp only at hwritten ⊢
  generalize s.write i record = r at hwritten
  obtain ⟨t, _ | _⟩ := r <;> exact hwritten

theorem addHandle (h : P s) (i : Nat) : P (s.addHandle i).1 := hP.frame h rfl rfl

theorem start (h : P s) (spec : SinkSpec) (settings : SpoolSettings) (boxed runtime : Bool) :
    P (s.start spec settings boxed runtime).1 := by
  have hopened := hP.openNumbered h spec
  unfold Session.start
  generalize s.openNumbered spec = r at hopened
  obtain ⟨t, number, e | j⟩ := r
  · exact hopened
  · dsimp only
    split
    · exact hP.addHandle (hP.startStation hopened j settings boxed) _
    · exact hP.frame hopened rfl rfl

theorem installResult (h : P s) (result : Except InitError Nat) : P (s.installResult result).1 := by
  cases result with
  | ok i => exact hP.addHandle h i
  | error e => exact h

theorem defer (h : P s) (ms : Nat) (spec : DeferredSpec) : P (s.defer ms spec) := by
  unfold Session.defer
  dsimp only
  split
  · exact hP.frame (hP.retain h _) rfl rfl
  · exact hP.frame h rfl rfl

/-- A lasting property lasts, whatever a session is asked to do next. -/
theorem follow (h : P s) (step : Step) : P (s.follow step).1 := by
  cases step with
  | start spec settings boxed runtime => exact hP.start h spec settings boxed runtime
  | write handle record =>
    refine withStation h handle fun i => ?_
    dsimp only
    exact hP.write i record h
  | writeNumbers handle first last =>
    refine withStation h handle fun i => ?_
    dsimp only
    exact hP.writeEach h i _
  | writeRepeated handle threads each record =>
    refine withStation h handle fun i => ?_
    dsimp only
    exact hP.writeEach h i _
  | output handle method bytes => exact withStation h handle fun i => hP.output h i method bytes
  | close handle =>
    refine withStation h handle fun i => ?_
    dsimp only
    exact hP.close h i
  | drain handle timeout =>
    refine withStation h handle fun i => ?_
    dsimp only
    exact hP.drain h i timeout
  | drainMany handle timeouts =>
    refine withStation h handle fun i => ?_
    dsimp only
    exact hP.drainMany h i timeouts
  | drainOrGiveUp handle timeout after =>
    refine withStation h handle fun i => ?_
    have hdrained := hP.drainOrGiveUp h i timeout after
    generalize s.drainOrGiveUp i timeout after = r at hdrained
    obtain ⟨t, _ | _⟩ := r <;> exact hdrained
  | shutdown handle timeout =>
    refine withStation h handle fun i => ?_
    cases timeout with
    | ms ms =>
      dsimp only
      exact hP.shutdown h i ms
    | forever => exact h
  | settle => exact hP.settle h
  | advance ms => exact hP.advance h ms
  | clone handle =>
    refine withStation h handle fun i => ?_
    dsimp only
    exact hP.addHandle (hP.retain h i) i
  | drop handle =>
    refine withStation h handle fun i => ?_
    have hgiven : P { s with handles := s.handles.set! handle none } := hP.frame h rfl rfl
    dsimp only
    exact hP.release hgiven i
  | permits number count => exact hP.addPermits h _ _
  | closeGate number => exact hP.closeGate h _
  | defer ms action => exact hP.defer h ms action
  | stopTasks => exact hP.stopTasks h
  | openDirect spec =>
    have hopened := hP.openNumbered h spec
    unfold Session.follow
    dsimp only
    generalize s.openNumbered spec = r at hopened
    obtain ⟨t, number, e | j⟩ := r
    · exact hopened
    · exact hP.frame hopened rfl rfl
  | writeDirect direct record =>
    exact withDirect h direct fun j => hP.writeDirect h j record
  | flushDirect direct => exact withDirect h direct fun j => hP.flushDirect h j
  | unwrapDirect direct =>
    refine withDirect h direct fun j => ?_
    have hused := hP.useUpDirect h direct j
    dsimp only
    split <;> exact hused
  | dropDirect direct => exact withDirect h direct fun j => hP.useUpDirect h direct j
  | observe handle threshold serviceName =>
    exact withStation h handle fun i => hP.observe h i _
  | observePlainly handle => exact withStation h handle fun i => hP.observePlainly h i
  | unobserve => exact hP.releaseObservers h
  | event e => exact hP.emit h e
  | install spec settings =>
    have hopened := hP.openNumbered h spec
    unfold Session.follow
    dsimp only
    generalize s.openNumbered spec = r at hopened
    obtain ⟨t, number, e | j⟩ := r
    · exact hopened
    · exact hP.installResult (hP.install hopened j settings) _
  | installFromEnvironment =>
    have hinstalled := hP.installFromEnvironment h
    unfold Session.follow
    dsimp only
    generalize s.installFromEnvironment = r at hinstalled
    exact hP.installResult hinstalled _
  | state handle | inspect handle spread => exact withStation h handle fun i => h
  | tally =>
    unfold Session.follow
    dsimp only
    split <;> exact h
  | makeDirectory path | putFile path content | fetchFile path masked =>
    unfold Session.follow
    dsimp only
    split
    · exact hP.frame h rfl rfl
    · exact h
  | counterAdd | counterValue | counterSame | setEnvironment | console => exact hP.frame h rfl rfl
  | sink | contents | lines | stream | counterRun | snapshot => exact h

theorem answer (h : P s) (step : Step) : P (s.answer step).1 := by
  have hready : P { s with inside := step.waits, diagnostics := [], late := [] } := hP.frame h rfl rfl
  unfold Session.answer
  dsimp only
  exact hP.follow hready step

/-- A lasting property lasts, whatever a session is asked to do from now on. -/
theorem goOn (h : P s) (steps : List Step) : P (s.goOn steps) :=
  foldl_keeps (P := P) (fun _ step hs => hP.answer hs step) steps h

end Lasting

/-! ## Spools that run on -/

/-- From one session to another every station is what it was, but that its spool has run on and
that its worker's call has got somewhere. -/
def RunsOn (s t : Session) : Prop :=
  ∀ (k : Nat) (station : Station), s.stations[k]? = some station →
    ∃ (actions : List Action) (spool : Spool) (effects : List Effect) (progress : Progress),
      t.stations[k]? = some { station with spool, progress } ∧
        station.spool.run actions = some (spool, effects)

/-- The spools of a session run on with every step. -/
theorem RunsOn.step {s t : Session} {i : Nat} {other : Station} {a : Action} {next : Spool}
    {es : List Effect} (h : RunsOn s t) (hi : t.stations[i]? = some other)
    (step : Spool.Transition other.spool a next es) : RunsOn s (t.putSpool i next) := by
  intro k station hk
  obtain ⟨actions, spool, effects, progress, ht, hrun⟩ := h k station hk
  by_cases heq : i = k
  · subst heq
    rw [ht] at hi
    cases hi
    refine ⟨actions ++ [a], next, effects ++ es, progress, ?_, ?_⟩
    · rw [station_putSpool ht]
    · simpa using Spool.run_join hrun step (Spool.run_nil next)
  · refine ⟨actions, spool, effects, progress, ?_, hrun⟩
    simp [putSpool, modifyStation, Array.getElem?_modify, heq, ht]

/-- Nothing has happened. -/
theorem RunsOn.refl (s : Session) : RunsOn s s :=
  fun _ station hk => ⟨[], station.spool, [], station.progress, hk, rfl⟩

end Session

end LogSpool
