import LogSpool.Proofs.Session.Memory
import LogSpool.Proofs.Spool.Overflow
import LogSpool.Proofs.Spool.Survival
import Mathlib.Data.List.Basic
set_option autoImplicit false

/-!
# Spools: scheduling

Nobody but the sink can tell when the worker takes a record off the channel.  Two spools are
`Alike` that differ in this alone: the same records are out of the sink's hands, one of them
perhaps still in the channel here and already with the worker there.  A pickup leads from a
spool to one like it, and every other step does to spools that are alike the same.

* `overflow_is_exact` : a full spool drops the records that found no slot and no other, and
  how the pickups of the worker fall between the steps of all others changes nothing.
-/

namespace LogSpool

/-- The step brings the worker on its way to the sink: it takes a record off the channel, or
makes its call. -/
def Action.isPickup : Action → Bool
  | receive | await => true
  | _ => false

/-- The sink is asked to write a record. -/
def Effect.isAttempt : Effect → Bool
  | attempted _ => true
  | _ => false

/-- Where the worker stands for all who do not see its pickups. -/
def Worker.standing : Worker → Worker
  | calling _ | attempting _ => idle
  | flushing => callingFlush
  | worker => worker

theorem Worker.isAlive_standing (worker : Worker) : worker.standing.isAlive = worker.isAlive := by
  cases worker <;> rfl

theorem Worker.judgment_standing (worker : Worker) :
    worker.standing.judgment = worker.judgment := by
  cases worker <;> rfl

/-- The worker stands where it is, unless that is on its way to the sink. -/
theorem Worker.eq_of_standing {worker other : Worker} (h : worker.standing = other.standing)
    (hstands : other.standing = other) (hidle : other ≠ .idle) (hflush : other ≠ .callingFlush) :
    worker = other := by
  rw [hstands] at h
  cases worker with
  | calling | attempting => exact absurd h.symm hidle
  | flushing => exact absurd h.symm hflush
  | _ => exact h

namespace Spool

variable {s t u s₁ s₂ t₁ t₂ : Spool} {a : Action} {actions actions₁ actions₂ : List Action}
  {es effects effects₁ effects₂ : List Effect}

/-! ## Spools that are alike -/

/-- The spools differ only in how far the worker is on its way to the sink. -/
structure Alike (s t : Spool) : Prop where
  rest : { s with worker := s.worker.standing, channel := .empty } =
    { t with worker := t.worker.standing, channel := .empty }
  records : s.worker.unfinished ++ s.channel.toList = t.worker.unfinished ++ t.channel.toList

namespace Alike

theorem refl (s : Spool) : Alike s s := ⟨rfl, rfl⟩

theorem symm (h : Alike s t) : Alike t s := ⟨h.rest.symm, h.records.symm⟩

theorem trans (h : Alike s t) (hnext : Alike t u) : Alike s u :=
  ⟨h.rest.trans hnext.rest, h.records.trans hnext.records⟩

/-- Another worker and another channel, with the same records in the same order. -/
theorem of_worker (s : Spool) {worker : Worker} {channel : Channel}
    (hworker : s.worker.standing = worker.standing)
    (hrecords : s.worker.unfinished ++ s.channel.toList = worker.unfinished ++ channel.toList) :
    Alike s { s with worker := worker, channel := channel } where
  rest := by rw [hworker]
  records := hrecords

theorem standing (h : Alike s t) : s.worker.standing = t.worker.standing :=
  congrArg Spool.worker h.rest

theorem pending (h : Alike s t) : s.pending = t.pending := by
  simpa using congrArg Spool.pending h.rest

theorem closed (h : Alike s t) : s.closed = t.closed := by
  simpa using congrArg Spool.closed h.rest

theorem healthy (h : Alike s t) : s.healthy = t.healthy := by
  simpa using congrArg Spool.healthy h.rest

theorem writes (h : Alike s t) : s.writes = t.writes := by
  simpa using congrArg Spool.writes h.rest

/-- The other spool has a worker and a channel of its own, and nothing else. -/
theorem eq_with (h : Alike s t) : t = { s with worker := t.worker, channel := t.channel } := by
  have hrest := h.rest
  cases s
  cases t
  simp only [Spool.mk.injEq, true_and] at hrest ⊢
  simp only [hrest, and_self]

/-- A pickup leads from a spool to one like it, and nobody but the sink can tell. -/
theorem of_pickup (step : Transition s a t es) (ha : a.isPickup = true) :
    Alike s t ∧ es.filter (!·.isAttempt) = [] := by
  cases step with
  | receive hworker hpop =>
    refine ⟨.of_worker s ?_ ?_, rfl⟩
    · rw [hworker]
      rfl
    · rw [hworker, Channel.toList_of_pop? hpop]
      rfl
  | awaitWrite hworker =>
    refine ⟨.of_worker s ?_ ?_, rfl⟩
    · rw [hworker]
      rfl
    · rw [hworker]
      rfl
  | awaitFlush hworker =>
    refine ⟨.of_worker s ?_ ?_, rfl⟩
    · rw [hworker]
      rfl
    · rw [hworker]
      rfl
  | _ => cases ha

/-- Any other step does the same to spools that are alike. -/
theorem preserve (h : Alike s₁ s₂) (haccounted₁ : Accounted s₁) (haccounted₂ : Accounted s₂)
    (ha : a.isPickup = false) {es₁ es₂ : List Effect} (step₁ : Transition s₁ a t₁ es₁)
    (step₂ : Transition s₂ a t₂ es₂) : es₁ = es₂ ∧ Alike t₁ t₂ := by
  -- It is enough that the second spool can do what the first does: it can do nothing else.
  suffices hsame : ∃ t, Transition s₂ a t es₁ ∧ Alike t₁ t by
    obtain ⟨t, step, halike⟩ := hsame
    have heq := step.step_eq.symm.trans step₂.step_eq
    cases heq
    exact ⟨rfl, halike⟩
  have hstanding := h.standing
  have hrecords := h.records
  have hother := h.eq_with
  generalize s₂.worker = worker at hstanding hrecords hother
  generalize s₂.channel = channel at hstanding hrecords hother
  subst hother
  have halive : s₁.worker.isAlive = worker.isAlive := by
    rw [← s₁.worker.isAlive_standing, hstanding, worker.isAlive_standing]
  cases step₁ with
  | clone hhandles => exact ⟨_, .clone hhandles, .of_worker _ hstanding hrecords⟩
  | drop hspare => exact ⟨_, .drop hspare, .of_worker _ hstanding hrecords⟩
  | enterClosed hhandles hnew hclosed =>
    exact ⟨_, .enterClosed hhandles hnew hclosed, .of_worker _ hstanding hrecords⟩
  | enterEmpty hhandles hnew hopen =>
    exact ⟨_, .enterEmpty hhandles hnew hopen, .of_worker _ hstanding hrecords⟩
  | enter hhandles hnew hopen hrecord =>
    exact ⟨_, .enter hhandles hnew hopen hrecord, .of_worker _ hstanding hrecords⟩
  | reserve hw hroom => exact ⟨_, .reserve hw hroom, .of_worker _ hstanding hrecords⟩
  | overflow hw hfull => exact ⟨_, .overflow hw hfull, .of_worker _ hstanding hrecords⟩
  | send hw hthere =>
    -- Either channel has room for the record, however many stand in it.
    refine ⟨_, .send hw (halive ▸ hthere) (haccounted₂.slots.size_lt hw rfl), .of_worker _ hstanding ?_⟩
    simp only [Channel.toList_push]
    rw [← List.append_assoc, hrecords, List.append_assoc]
  | refuse hw hgone =>
    have hroom := haccounted₁.slots.size_lt hw rfl
    refine ⟨_, .refuse hw fun hboth => hgone ⟨halive.trans hboth.1, hroom⟩, .of_worker _ hstanding hrecords⟩
  | giveBack hw => exact ⟨_, .giveBack hw, .of_worker _ hstanding hrecords⟩
  | wakeFromWrite hw => exact ⟨_, .wakeFromWrite hw, .of_worker _ hstanding hrecords⟩
  | countLost hw => exact ⟨_, .countLost hw, .of_worker _ hstanding hrecords⟩
  | close hhandles hwrites => exact ⟨_, .close hhandles hwrites, .of_worker _ hstanding hrecords⟩
  | announce hannouncing => exact ⟨_, .announce hannouncing, .of_worker _ hstanding hrecords⟩
  | arm hhandles hfresh => exact ⟨_, .arm hhandles hfresh, .of_worker _ hstanding hrecords⟩
  | lookDrained hw hparked hnone =>
    exact ⟨_, .lookDrained hw hparked hnone, .of_worker _ hstanding hrecords⟩
  | park hw hparked hsome => exact ⟨_, .park hw hparked hsome, .of_worker _ hstanding hrecords⟩
  | rearm hw hparked hnotified =>
    exact ⟨_, .rearm hw hparked hnotified, .of_worker _ hstanding hrecords⟩
  | abandonWait hw hdrain => exact ⟨_, .abandonWait hw hdrain, .of_worker _ hstanding hrecords⟩
  | abandonDraining hphase => exact ⟨_, .abandonDraining hphase, .of_worker _ hstanding hrecords⟩
  | abandonJoining hphase => exact ⟨_, .abandonJoining hphase, .of_worker _ hstanding hrecords⟩
  | shutdown hhandles hfresh => exact ⟨_, .shutdown hhandles hfresh, .of_worker _ hstanding hrecords⟩
  | pursueClosing hphase hwrites =>
    exact ⟨_, .pursueClosing hphase hwrites, .of_worker _ hstanding hrecords⟩
  | pursueArming hphase => exact ⟨_, .pursueArming hphase, .of_worker _ hstanding hrecords⟩
  | claim hphase hunclaimed => exact ⟨_, .claim hphase hunclaimed, .of_worker _ hstanding hrecords⟩
  | claimTaken hphase hclaimed => exact ⟨_, .claimTaken hphase hclaimed, .of_worker _ hstanding hrecords⟩
  | joinDone hphase hdone =>
    rw [hdone] at hstanding
    have hworker := Worker.eq_of_standing hstanding.symm rfl nofun nofun
    exact ⟨_, .joinDone hphase hworker, .of_worker _ (hdone ▸ hstanding) hrecords⟩
  | joinLost hphase hlost =>
    rw [hlost] at hstanding
    have hworker := Worker.eq_of_standing hstanding.symm rfl nofun nofun
    exact ⟨_, .joinLost hphase hworker, .of_worker _ (hlost ▸ hstanding) hrecords⟩
  | receive | awaitWrite | awaitFlush => cases ha
  | @finish record outcome hworker₁ =>
    cases step₂ with
    | finish _ hworker₂ =>
      simp only at hworker₂
      rw [hworker₁, hworker₂] at hrecords
      obtain ⟨rfl, hrest⟩ := List.cons.inj hrecords
      exact ⟨_, .finish outcome hworker₂, .of_worker _ rfl hrest⟩
  | judge hworker₁ =>
    rw [hworker₁] at hstanding hrecords
    have hworker₂ := Worker.eq_of_standing hstanding.symm rfl nofun nofun
    rw [hworker₂] at hrecords
    exact ⟨_, .judge hworker₂, .of_worker _ rfl hrecords⟩
  | release hworker₁ =>
    rw [hworker₁] at hstanding hrecords
    have hworker₂ := Worker.eq_of_standing hstanding.symm rfl nofun nofun
    rw [hworker₂] at hrecords
    exact ⟨_, .release hworker₂, .of_worker _ rfl (congrArg (_ ++ ·) hrecords)⟩
  | wake hworker₁ =>
    rw [hworker₁] at hstanding hrecords
    have hworker₂ := Worker.eq_of_standing hstanding.symm rfl nofun nofun
    rw [hworker₂] at hrecords
    exact ⟨_, .wake hworker₂, .of_worker _ rfl hrecords⟩
  | flush hworker₁ hsealed hempty₁ =>
    cases step₂ with
    | flush hworker₂ _ hempty₂ =>
      simp only at hworker₂
      rw [hworker₁, hworker₂] at hrecords
      exact ⟨_, .flush hworker₂ hsealed hempty₂, .of_worker _ rfl hrecords⟩
  | finishFlush outcome hworker₁ =>
    cases step₂ with
    | finishFlush _ hworker₂ =>
      simp only at hworker₂
      rw [hworker₁, hworker₂] at hrecords
      exact ⟨_, .finishFlush outcome hworker₂, .of_worker _ rfl hrecords⟩
  | lose loss hlose₁ =>
    cases step₂ with
    | lose _ hlose₂ => exact ⟨_, .lose loss hlose₂, .of_worker _ rfl rfl⟩

end Alike

/-! ## Runs that differ in the pickups -/

theorem alike_of_pickups (h : s.run actions = some (t, effects))
    (hpickups : ∀ a ∈ actions, a.isPickup = true) :
    Alike s t ∧ effects.filter (!·.isAttempt) = [] := by
  refine run_induction (P := fun actions t effects => (∀ a ∈ actions, a.isPickup = true) →
    Alike s t ∧ effects.filter (!·.isAttempt) = []) (fun _ => ⟨.refl s, rfl⟩) ?_ h hpickups
  intro actions t effects a u es hrun ih step hpickups
  obtain ⟨hbefore, hnothing⟩ := ih fun b hb => hpickups b (List.mem_append_left _ hb)
  obtain ⟨hnow, hmore⟩ := Alike.of_pickup step (hpickups a (by simp))
  refine ⟨hbefore.trans hnow, ?_⟩
  rw [List.filter_append, hnothing, hmore]
  rfl

/-- A run whose next step that is no pickup is known: some pickups, that step, and the rest. -/
theorem run_next (h : s.run actions = some (u, effects)) {rest : List Action}
    (hnext : actions.filter (!·.isPickup) = a :: rest) :
    ∃ mid t es more after, Alike s mid ∧ Transition mid a t es ∧ t.run after = some (u, more) ∧
      after.filter (!·.isPickup) = rest ∧ a.isPickup = false ∧
      effects.filter (!·.isAttempt) = (es ++ more).filter (!·.isAttempt) ∧
      ∃ pickups first, s.run pickups = some (mid, first) := by
  obtain ⟨pickups, after, rfl, hpickups, ha, hafter⟩ := List.filter_eq_cons_iff.mp hnext
  obtain ⟨mid, t, first, es, more, hfirst, step, hmore, rfl⟩ := run_split h
  obtain ⟨halike, hnothing⟩ := alike_of_pickups hfirst fun b hb => by simpa using hpickups b hb
  refine ⟨mid, t, es, more, after, halike, step, hmore, hafter, by simpa using ha, ?_, pickups, first,
    hfirst⟩
  rw [List.filter_append, hnothing, List.nil_append]

/-- Two runs from spools that are alike, with the same steps but for the pickups, end in spools
that are alike, and nobody but the sink can tell them apart. -/
theorem alike_of_run (halike : Alike s₁ s₂) (haccounted₁ : Accounted s₁) (haccounted₂ : Accounted s₂)
    (h₁ : s₁.run actions₁ = some (t₁, effects₁)) (h₂ : s₂.run actions₂ = some (t₂, effects₂))
    (hsame : actions₁.filter (!·.isPickup) = actions₂.filter (!·.isPickup)) :
    Alike t₁ t₂ ∧ effects₁.filter (!·.isAttempt) = effects₂.filter (!·.isAttempt) := by
  have hall : ∀ {actions : List Action}, actions.filter (!·.isPickup) = [] →
      ∀ a ∈ actions, a.isPickup = true := by
    intro actions hnone a ha
    simpa using List.filter_eq_nil_iff.mp hnone a ha
  generalize hsteps : actions₂.filter (!·.isPickup) = steps at hsame
  induction steps generalizing s₁ s₂ actions₁ actions₂ effects₁ effects₂ with
  | nil =>
    obtain ⟨hend₁, hnothing₁⟩ := alike_of_pickups h₁ (hall hsame)
    obtain ⟨hend₂, hnothing₂⟩ := alike_of_pickups h₂ (hall hsteps)
    exact ⟨hend₁.symm.trans (halike.trans hend₂), hnothing₁.trans hnothing₂.symm⟩
  | cons a rest ih =>
    obtain ⟨mid₁, u₁, es₁, more₁, after₁, hmid₁, step₁, hmore₁, hrest₁, ha, heffects₁, _, _, hrun₁⟩ :=
      run_next h₁ hsame
    obtain ⟨mid₂, u₂, es₂, more₂, after₂, hmid₂, step₂, hmore₂, hrest₂, -, heffects₂, _, _, hrun₂⟩ :=
      run_next h₂ hsteps
    have hthere₁ := run_invariant Accounted.preserve hrun₁ haccounted₁
    have hthere₂ := run_invariant Accounted.preserve hrun₂ haccounted₂
    obtain ⟨rfl, hnext⟩ :=
      (hmid₁.symm.trans (halike.trans hmid₂)).preserve hthere₁ hthere₂ ha step₁ step₂
    obtain ⟨hend, hlater⟩ := ih hnext (hthere₁.preserve step₁) (hthere₂.preserve step₂) hmore₁ hmore₂
      hrest₂ hrest₁
    refine ⟨hend, ?_⟩
    rw [heffects₁, heffects₂, List.filter_append, List.filter_append, hlater]

/-! ## What the sink is given -/

theorem fst_fates (records : List Bytes) (ends : List Outcome) :
    (fates records ends).map (·.1) = records.take ends.length := by
  induction records generalizing ends with
  | nil => simp [fates]
  | cons record rest ih =>
    cases ends with
    | nil => rfl
    | cons outcome more => exact congrArg (record :: ·) (ih more)

theorem zip_of_length {records : List Bytes} {ends : List Ending} {n : Nat}
    (hlength : ends.length = n) : records.zip ends = (records.take n).zip ends := by
  induction records generalizing ends n with
  | nil => rw [List.take_nil]
  | cons record rest ih =>
    cases ends with
    | nil => simp
    | cons ending more =>
      subst hlength
      exact congrArg ((record, ending) :: ·) (ih rfl)

theorem counts_filter (fate : Fate) (effects : List Effect) :
    counts fate (effects.filter (!·.isAttempt)) = counts fate effects := by
  unfold counts
  rw [List.countP_filter]
  refine List.countP_congr fun e _ => ?_
  cases e <;> simp [Effect.isAttempt]

theorem verdicts_filter (effects : List Effect) :
    verdicts (effects.filter (!·.isAttempt)) = verdicts effects := by
  unfold verdicts
  rw [List.filterMap_filter]
  refine List.filterMap_congr fun e _ => ?_
  cases e <;> rfl

theorem outcomes_filter (actions : List Action) :
    outcomes (actions.filter (!·.isPickup)) = outcomes actions := by
  unfold outcomes
  rw [List.filterMap_filter]
  refine List.filterMap_congr fun a _ => ?_
  cases a <;> rfl

/-- Two runs that differ in the pickups alone have given the sink the same records, but for the
one that it may not be done with. -/
theorem ended_of_run {capacity : Nat} (hcapacity : 0 < capacity)
    (h₁ : (start capacity).run actions₁ = some (t₁, effects₁))
    (h₂ : (start capacity).run actions₂ = some (t₂, effects₂))
    (hsame : actions₁.filter (!·.isPickup) = actions₂.filter (!·.isPickup)) :
    outcomes actions₁ = outcomes actions₂ ∧
      (attempts effects₁).take (outcomes actions₁).length =
        (attempts effects₂).take (outcomes actions₂).length := by
  have haccounted := accounted_start hcapacity
  obtain ⟨halike, hvisible⟩ := alike_of_run (.refl _) haccounted haccounted h₁ h₂ hsame
  refine ⟨by rw [← outcomes_filter, hsame, outcomes_filter], ?_⟩
  rw [← fst_fates, ← fst_fates, ← (trail_of_run hcapacity h₁).judged,
    ← (trail_of_run hcapacity h₂).judged, ← verdicts_filter effects₁, hvisible, verdicts_filter,
    ← t₁.worker.judgment_standing, halike.standing, t₂.worker.judgment_standing]

/-! ## Overflow -/

/-- Let `n` calls ask for a slot from some instant on, between any steps of the worker in which no
attempt ends, and let all calls be done with their records while the spool is still open.

* Every call is answered with the number of bytes of its record, in the order in which the calls
  are done.
* Each producer is done with every record, in its order, and those that were accepted come before
  those that were dropped.
* A record is either accepted or counted as dropped, once, and no more are accepted than slots
  were free.
* As many are accepted as slots were free, if the worker was not lost.
* None is accepted if the worker was lost before.

And for any two runs that differ in the pickups of the worker alone, all that is told is the same
but for the attempts, as many slots are taken, the same numbers are counted, and whatever ends the
same attempts come to, a sink is left with the same. -/
theorem overflow_is_exact (settings : SpoolSettings) :
    (∀ {before actions : List Action} {s t : Spool} {first effects : List Effect} {n : Nat},
      (start settings.slots).run before = some (s, first) →
      s.run actions = some (t, effects) →
      t.closed = false → t.writes.isEmpty = true →
      (∀ a ∈ actions, a.completes = false) →
      n = s.inPhase WritePhase.isAsking + (entered actions).length →
      ((∀ call, .answered call .closed ∉ effects) ∧
        taken effects = (dealt effects).map fun r => (r.1, r.2.length)) ∧
      (∀ mine, oneAtATime mine (start settings.slots) (before ++ actions) = true →
        ofProducer mine (dealt effects) =
            s.underWay mine (fun _ => true) ++ ofProducer mine (entered actions) ∧
          ofProducer mine (sent effects) <+:
            s.underWay mine (fun phase => !phase.isLosing) ++ ofProducer mine (entered actions)) ∧
      ((sent effects).length + counts .dropped effects =
          s.inPhase (fun _ => true) + (entered actions).length ∧
        (sent effects).length ≤ s.held + min n (settings.slots - s.pending)) ∧
      ((∀ loss, t.worker ≠ .lost loss) →
        (sent effects).length = s.held + min n (settings.slots - s.pending) ∧
          counts .dropped effects =
            s.inPhase WritePhase.isLosing + (n - min n (settings.slots - s.pending)) ∧
          t.pending = s.pending + min n (settings.slots - s.pending)) ∧
      ((∃ loss, s.worker = .lost loss) → sent effects = [])) ∧
    ∀ {actions₁ actions₂ : List Action} {t₁ t₂ : Spool} {effects₁ effects₂ : List Effect},
      (start settings.slots).run actions₁ = some (t₁, effects₁) →
      (start settings.slots).run actions₂ = some (t₂, effects₂) →
      actions₁.filter (!·.isPickup) = actions₂.filter (!·.isPickup) →
      effects₁.filter (!·.isAttempt) = effects₂.filter (!·.isAttempt) ∧
        t₁.pending = t₂.pending ∧ t₁.closed = t₂.closed ∧
        (∀ fate, counts fate effects₁ = counts fate effects₂) ∧
        outcomes actions₁ = outcomes actions₂ ∧
        ∀ (world : Session) (j : Nat) (ends : List Ending),
          ends.length = (outcomes actions₁).length →
          world.endWriteCalls j ((attempts effects₁).zip ends) =
            world.endWriteCalls j ((attempts effects₂).zip ends) := by
  have hone := (slots_bounds settings).1
  refine ⟨?_, ?_⟩
  · intro before actions s t first effects n hbefore h hopen hwrites hcalm hn
    have hnone : ∀ p, t.inPhase p = 0 := inPhase_of_isEmpty hwrites
    obtain ⟨hmost, hprefix⟩ := sent_of_run hone hbefore h hopen hcalm hn
    refine ⟨⟨fun call hanswer => ?_, taken_of_run hone hbefore h⟩, fun mine hturns => ?_, ⟨?_, hmost⟩,
      fun hkept => ?_, fun hlost => ?_⟩
    · exact (announcing_of_run (run_trans hbefore h)).open_untold hopen call
        (List.mem_append_right _ hanswer)
    · exact ⟨dealt_of_run hbefore h hopen hwrites hturns, hprefix mine hturns⟩
    · have hends := ends_of_run h hopen hcalm
      rwa [hnone, Nat.add_zero] at hends
    · obtain ⟨m, hasked, hpending, hsent, hdropped⟩ :=
        admission_of_run hone hbefore h hopen hkept hcalm
      rw [hnone, Nat.add_zero] at hasked hsent hdropped
      obtain rfl : m = n := hasked.trans hn.symm
      rw [capacity_of_run hbefore] at hpending hsent hdropped
      exact ⟨hsent, hdropped, hpending⟩
    · exact sent_of_gone hlost h
  · intro actions₁ actions₂ t₁ t₂ effects₁ effects₂ h₁ h₂ hsame
    have haccounted := accounted_start hone
    obtain ⟨halike, hvisible⟩ := alike_of_run (.refl _) haccounted haccounted h₁ h₂ hsame
    obtain ⟨houtcomes, hended⟩ := ended_of_run hone h₁ h₂ hsame
    refine ⟨hvisible, halike.pending, halike.closed, fun fate => ?_, houtcomes,
      fun world j ends hlength => ?_⟩
    · rw [← counts_filter, hvisible, counts_filter]
    · rw [zip_of_length hlength, hended, ← zip_of_length (houtcomes ▸ hlength)]

/-- One producer makes the even calls, another the odd ones.  Of two slots one is taken when the
spool is looked at, and a call is about to ask for the other. -/
def crowd : List Action :=
  [.enter 0 [1], .advance 0, .advance 0, .enter 1 [2, 2]]

/-- The worker takes the first record while three more calls ask for a slot: one of them gets
it, and the other three find none. -/
def crush : List Action :=
  [.enter 2 [3], .advance 2, .receive, .advance 1, .advance 2, .enter 4 [], .await, .advance 1,
    .enter 2 [4], .enter 3 [5, 5], .advance 2, .advance 3, .advance 2, .advance 3]

/-- The same with a worker that takes the record after all calls. -/
def crushLate : List Action := crush.filter (!·.isPickup) ++ [.receive]

/-- Of four calls one gets the last slot, the even producer's first record of the three; and no
call can tell when the worker took the first record. -/
theorem overflow_is_exact_crush :
    ∃ s t u first effects all late, (start ({ capacity := 2 } : SpoolSettings).slots).run crowd =
        some (s, first) ∧
      s.pending = 1 ∧ s.inPhase WritePhase.isAsking = 1 ∧ s.run crush = some (t, effects) ∧
      (sent effects).length = 0 + min 4 (2 - 1) ∧
      counts .dropped effects = 0 + (4 - min 4 (2 - 1)) ∧
      ofProducer (· % 2 == 0) (sent effects) <+: [(2, [3]), (2, [4])] ∧
      ofProducer (· % 2 == 1) (dealt effects) = [(1, [2, 2]), (3, [5, 5])] ∧
      (start ({ capacity := 2 } : SpoolSettings).slots).run (crowd ++ crush) = some (t, all) ∧
      (start ({ capacity := 2 } : SpoolSettings).slots).run (crowd ++ crushLate) = some (u, late) ∧
      t.worker = .attempting [1] ∧ u.worker = .calling [1] ∧
      all.filter (!·.isAttempt) = late.filter (!·.isAttempt) ∧ t.pending = u.pending := by
  obtain ⟨hcalm, hpairs⟩ := overflow_is_exact { capacity := 2 }
  obtain ⟨-, hturns, -, hexact, -⟩ := @hcalm crowd crush _ _ _ _ 4 rfl rfl rfl rfl (by decide) rfl
  obtain ⟨hsent, hdropped, -⟩ := hexact nofun
  obtain ⟨hvisible, hpending, -⟩ := @hpairs (crowd ++ crush) (crowd ++ crushLate) _ _ _ _ rfl rfl rfl
  exact ⟨_, _, _, _, _, _, _, rfl, rfl, rfl, rfl, hsent, hdropped, (hturns (· % 2 == 0) rfl).2,
    (hturns (· % 2 == 1) rfl).1, rfl, rfl, rfl, rfl, hvisible, hpending⟩

/-- A lost worker takes no record: with every slot free, the only call counts its own as dropped. -/
theorem not_exact_of_lost :
    ¬ ∀ (settings : SpoolSettings) (before actions : List Action) (s t : Spool)
      (first effects : List Effect),
      (start settings.slots).run before = some (s, first) → s.closed = false →
      s.writes.isEmpty = true → s.run actions = some (t, effects) → t.writes.isEmpty = true →
      (∀ a ∈ actions, a.completes = false) →
      (sent effects).length = min (entered actions).length (settings.slots - s.pending) := by
  intro hexact
  have hnone := hexact { capacity := 3 } [.lose .cancelled]
    [.enter 0 [97], .advance 0, .advance 0, .advance 0, .advance 0, .advance 0] _ _ _ _ rfl rfl rfl rfl
    rfl (by decide)
  cases hnone

end Spool

end LogSpool
