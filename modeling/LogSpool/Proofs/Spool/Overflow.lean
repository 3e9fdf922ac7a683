import LogSpool.Proofs.Spool.Closing
set_option autoImplicit false

/-!
# Spools: overflow

While no attempt ends, no slot is given back, and the calls that ask for one get the free
slots in the order in which they ask.  `Admission` counts them: of the calls that asked, as
many got a slot as were free at first, and the others count their record as dropped.
`Orderly` follows one producer: once one of its records found no slot, none of its later
records finds one.

Neither looks at the channel.  What the worker has taken from it makes room there, but no
slot is free for that.
-/

namespace LogSpool

/-- The step belongs to the end of an attempt: the sink is done with a record, the record is
counted, or its slot is given back. -/
def Action.completes : Action → Bool
  | finish _ | judge | release => true
  | _ => false

namespace WritePhase

/-- A call in this phase has yet to ask for a slot. -/
def isAsking : WritePhase → Bool
  | entered => true
  | _ => false

/-- A call in this phase is about to count its record as lost. -/
def isLosing : WritePhase → Bool
  | losing => true
  | _ => false

/-- A call in this phase found nobody to take its record. -/
def isRefused : WritePhase → Bool
  | refused | waking => true
  | _ => false

end WritePhase

namespace Spool

variable {s t u : Spool} {a : Action} {actions : List Action} {effects es : List Effect}

/-! ## Calls by their phases -/

/-- The number of calls that write and have come to certain phases. -/
def inPhase (s : Spool) (p : WritePhase → Bool) : Nat := s.writes.count (p ·.phase)

theorem inPhase_of_isEmpty (h : s.writes.isEmpty = true) (p : WritePhase → Bool) :
    s.inPhase p = 0 :=
  Calls.count_eq_zero_of_isEmpty h _

theorem inPhase_add {call : Nat} (hnew : s.writes.find? call = none) (record : Bytes)
    (hwrites : t.writes = s.writes.add call ⟨record, .entered⟩) (p : WritePhase → Bool) :
    t.inPhase p = s.inPhase p + (p .entered).toNat := by
  unfold inPhase
  rw [hwrites]
  exact Calls.count_add hnew ⟨record, .entered⟩ (p ·.phase)

theorem inPhase_put {call : Nat} {record : Bytes} {phase next : WritePhase}
    (hw : s.writes.find? call = some ⟨record, phase⟩)
    (hwrites : t.writes = s.writes.put call ⟨record, next⟩) (p : WritePhase → Bool) :
    t.inPhase p + (p phase).toNat = s.inPhase p + (p next).toNat := by
  unfold inPhase
  rw [hwrites]
  exact Calls.count_put hw ⟨record, next⟩ (p ·.phase)

theorem inPhase_remove {call : Nat} {record : Bytes} {phase : WritePhase}
    (hw : s.writes.find? call = some ⟨record, phase⟩)
    (hwrites : t.writes = s.writes.remove call) (p : WritePhase → Bool) :
    t.inPhase p + (p phase).toNat = s.inPhase p := by
  unfold inPhase
  rw [hwrites]
  exact Calls.count_remove hw (p ·.phase)

theorem inPhase_eq (hwrites : t.writes = s.writes) (p : WritePhase → Bool) :
    t.inPhase p = s.inPhase p := by
  unfold inPhase
  rw [hwrites]

/-! ## Records that find nobody to take them -/

/-- A record finds nobody to take it only where the worker was lost. -/
def Refusing (s : Spool) : Prop :=
  ∀ call w, s.writes.find? call = some w → w.phase.isRefused = true →
    ∃ loss, s.worker = .lost loss

theorem lost_of_transition (step : Transition s a t es) (h : ∃ loss, s.worker = .lost loss) :
    ∃ loss, t.worker = .lost loss := by
  obtain ⟨loss, hlost⟩ := h
  refine ⟨loss, ?_⟩
  rw [worker_eq_of_gone step (by rw [hlost]; rfl), hlost]

/-- Only a lost worker leaves a call with a slot to find nobody: as long as the worker is
there the channel has room, and when its work is done nobody writes. -/
theorem lost_of_refuse (h : Accounted s) {call : Nat} {record : Bytes}
    (hw : s.writes.find? call = some ⟨record, .reserved⟩)
    (hgone : ¬ (s.worker.isAlive = true ∧ s.channel.size < s.capacity)) :
    ∃ loss, s.worker = .lost loss := by
  have hroom := h.slots.size_lt hw rfl
  cases hworker : s.worker with
  | lost loss => exact ⟨loss, rfl⟩
  | done =>
    have hrest := h.exhausted (by rw [hworker]; rfl)
    exact absurd hw (hrest.find?_writes h.sealing _ _)
  | _ => exact absurd ⟨by rw [hworker]; rfl, hroom⟩ hgone

theorem Refusing.preserve (h : Refusing s) (haccounted : Accounted s)
    (step : Transition s a t es) : Refusing t := by
  intro call w hw hrefused
  -- A call that is there now was there before, in a phase that tells of the worker then.
  have hstays : ∀ {before : WriteCall}, s.writes.find? call = some before →
      before.phase.isRefused = true → ∃ loss, t.worker = .lost loss :=
    fun hbefore hphase => lost_of_transition step (h call _ hbefore hphase)
  cases step with
  | enter =>
    rcases Calls.find?_of_add hw with ⟨-, rfl⟩ | ⟨-, hbefore⟩
    · cases hrefused
    · exact hstays hbefore hrefused
  | reserve | overflow | wakeFromWrite =>
    rcases Calls.find?_of_put hw with ⟨-, rfl⟩ | ⟨-, hbefore⟩
    · cases hrefused
    · exact hstays hbefore hrefused
  | refuse hreserved hgone =>
    have hlost := lost_of_refuse haccounted hreserved hgone
    rcases Calls.find?_of_put hw with ⟨-, rfl⟩ | ⟨-, hbefore⟩
    · exact hlost
    · exact hstays hbefore hrefused
  | giveBack hbefore =>
    rcases Calls.find?_of_put hw with ⟨rfl, -⟩ | ⟨-, hbefore⟩
    · exact hstays hbefore rfl
    · exact hstays hbefore hrefused
  | send | countLost => exact hstays (Calls.find?_of_remove hw).2 hrefused
  | _ => exact hstays hw hrefused

theorem refusing_of_run {capacity : Nat} (hcapacity : 0 < capacity)
    (h : (start capacity).run actions = some (s, effects)) : Refusing s :=
  run_induction (P := fun _ s _ => Refusing s) (fun _ _ hw => (by cases hw))
    (fun hrun ih step => ih.preserve (accounted_of_run hcapacity hrun) step) h

/-! ## How many records are admitted -/

theorem sent_append (before after : List Effect) :
    sent (before ++ after) = sent before ++ sent after :=
  List.filterMap_append

theorem sent_of_isSilent {es : List Effect} (h : ∀ e ∈ es, e.isSilent = true) : sent es = [] := by
  have hdealt := sent_sublist_dealt es
  rw [dealt_of_isSilent h] at hdealt
  exact List.sublist_nil.mp hdealt

/-- From one instant to another, some more calls have asked for a slot, and no attempt has
ended in between.  The calls that asked got the free slots, one each, and those that found
none are about to count their record, or have done so. -/
structure Admission (s t : Spool) (actions : List Action) (effects : List Effect) (n : Nat) :
    Prop where
  asked : n + t.inPhase WritePhase.isAsking =
    s.inPhase WritePhase.isAsking + (entered actions).length
  pending : t.pending = s.pending + min n (s.capacity - s.pending)
  sent : (sent effects).length + t.inPhase WritePhase.holdsSlot =
    s.inPhase WritePhase.holdsSlot + min n (s.capacity - s.pending)
  lost : counts .dropped effects + t.inPhase WritePhase.isLosing =
    s.inPhase WritePhase.isLosing + (n - min n (s.capacity - s.pending))

namespace Admission

variable {n : Nat}

theorem refl (s : Spool) : Admission s s [] [] 0 := by
  refine ⟨?_, ?_, ?_, ?_⟩ <;> simp [entered, Spool.sent, counts]

/-- One more step, after which so many calls have asked. -/
theorem of_step (h : Admission s t actions effects n) {now : Nat}
    (hasked : now + u.inPhase WritePhase.isAsking =
      n + t.inPhase WritePhase.isAsking + (entered [a]).length)
    (hpending : u.pending + min n (s.capacity - s.pending) =
      t.pending + min now (s.capacity - s.pending))
    (hsent : (Spool.sent es).length + u.inPhase WritePhase.holdsSlot +
        min n (s.capacity - s.pending) =
      t.inPhase WritePhase.holdsSlot + min now (s.capacity - s.pending))
    (hlost : counts .dropped es + u.inPhase WritePhase.isLosing + (n - (s.capacity - s.pending)) =
      t.inPhase WritePhase.isLosing + (now - (s.capacity - s.pending))) :
    Admission s u (actions ++ [a]) (effects ++ es) now := by
  obtain ⟨hbefore, hslots, hqueued, hcounted⟩ := h
  refine ⟨?_, ?_, ?_, ?_⟩
  · rw [entered_append, List.length_append]
    omega
  · omega
  · rw [sent_append, List.length_append]
    omega
  · rw [counts_append]
    omega

theorem of_eq (h : Admission s t actions effects n) (hentered : entered [a] = [])
    (hsilent : ∀ e ∈ es, e.isSilent = true) (hwrites : u.writes = t.writes)
    (hpending : u.pending = t.pending) : Admission s u (actions ++ [a]) (effects ++ es) n := by
  obtain ⟨-, -, hcounts⟩ := silent_effects hsilent []
  refine h.of_step ?_ ?_ ?_ ?_
  · rw [inPhase_eq hwrites, hentered]
    rfl
  · rw [hpending]
  · rw [inPhase_eq hwrites, sent_of_isSilent hsilent, List.length_nil]
    omega
  · rw [inPhase_eq hwrites, hcounts]
    omega

/-- A call that writes moves to another phase. -/
theorem of_put (h : Admission s t actions effects n) {call : Nat} {record : Bytes}
    {phase next : WritePhase} (hw : t.writes.find? call = some ⟨record, phase⟩)
    (hwrites : u.writes = t.writes.put call ⟨record, next⟩) {now : Nat}
    (hasked : now + next.isAsking.toNat = n + phase.isAsking.toNat)
    (hpending : u.pending + min n (s.capacity - s.pending) =
      t.pending + min now (s.capacity - s.pending))
    (hheld : next.holdsSlot.toNat + min n (s.capacity - s.pending) =
      phase.holdsSlot.toNat + min now (s.capacity - s.pending))
    (hlost : next.isLosing.toNat + (n - (s.capacity - s.pending)) =
      phase.isLosing.toNat + (now - (s.capacity - s.pending))) :
    Admission s u (actions ++ [.advance call]) (effects ++ []) now := by
  have hmoves := inPhase_put hw hwrites
  have hasks := hmoves WritePhase.isAsking
  have hholds := hmoves WritePhase.holdsSlot
  have hloses := hmoves WritePhase.isLosing
  refine h.of_step ?_ hpending ?_ ?_
  · change _ = _ + 0
    omega
  · change 0 + _ + _ = _
    omega
  · change 0 + _ + _ = _
    omega

/-- A call that writes ends, having sent its record or counted it as lost. -/
theorem of_remove (h : Admission s t actions effects n) {call : Nat} {record : Bytes}
    {phase : WritePhase} (hw : t.writes.find? call = some ⟨record, phase⟩)
    (hwrites : u.writes = t.writes.remove call) (hpending : u.pending = t.pending)
    (hasked : phase.isAsking.toNat = 0) (hsent : (Spool.sent es).length = phase.holdsSlot.toNat)
    (hlost : counts .dropped es = phase.isLosing.toNat) :
    Admission s u (actions ++ [.advance call]) (effects ++ es) n := by
  have hends := inPhase_remove hw hwrites
  have hasks := hends WritePhase.isAsking
  have hholds := hends WritePhase.holdsSlot
  have hloses := hends WritePhase.isLosing
  refine h.of_step ?_ (by rw [hpending]) ?_ ?_
  · change _ = _ + 0
    omega
  · omega
  · omega

/-- Every step keeps it so in which no attempt ends, as long as the worker is not lost. -/
theorem preserve (h : Admission s t actions effects n) (hcapacity : t.capacity = s.capacity)
    (haccounted : Accounted t) (hrefusing : Refusing t) (hopen : t.closed = false)
    (hkept : ∀ loss, u.worker ≠ .lost loss) (ha : a.completes = false)
    (step : Transition t a u es) :
    ∃ now, Admission s u (actions ++ [a]) (effects ++ es) now := by
  have hthere : ¬ ∃ loss, t.worker = .lost loss := by
    intro hlost
    obtain ⟨loss, hlost⟩ := lost_of_transition step hlost
    exact hkept loss hlost
  have hnone : ∀ e ∈ ([] : List Effect), e.isSilent = true := fun _ he => absurd he List.not_mem_nil
  have hle := haccounted.slots.pending_le
  have hpending := h.pending
  cases step with
  | @enter call record hhandles hnew hopen hrecord =>
    have hstarts := inPhase_add (t := { t with writes := t.writes.add call ⟨record, .entered⟩ }) hnew
      record rfl
    have hentered : entered [.enter call record] = [(call, record)] := by simp [entered, hrecord]
    refine ⟨n, h.of_step ?_ rfl ?_ ?_⟩
    · rw [hstarts, hentered]
      rfl
    · rw [hstarts]
      change 0 + (_ + 0) + _ = _
      omega
    · rw [hstarts]
      change 0 + (_ + 0) + _ = _
      omega
  | reserve hw hroom =>
    refine ⟨n + 1, h.of_put hw rfl rfl ?_ ?_ ?_⟩
    · simp only
      omega
    · change 1 + _ = 0 + _
      omega
    · change 0 + _ = 0 + _
      omega
  | overflow hw hfull =>
    refine ⟨n + 1, h.of_put hw rfl rfl ?_ ?_ ?_⟩
    · simp only
      omega
    · change 0 + _ = 0 + _
      omega
    · change 1 + _ = 0 + _
      omega
  | send hw | countLost hw => exact ⟨n, h.of_remove hw rfl rfl rfl rfl rfl⟩
  | refuse hw hgone => exact absurd (lost_of_refuse haccounted hw hgone) hthere
  | giveBack hw | wakeFromWrite hw => exact absurd (hrefusing _ _ hw rfl) hthere
  | finish | judge | release => cases ha
  | enterClosed hhandles hnew hclosed => exact absurd hclosed (by simp [hopen])
  | finishFlush outcome => exact ⟨n, h.of_eq rfl (isSilent_finishFlush outcome) rfl rfl⟩
  | _ => exact ⟨n, h.of_eq rfl (by simp [Effect.isSilent]) rfl rfl⟩

end Admission

theorem open_of_transition (step : Transition s a t es) (hopen : t.closed = false) :
    s.closed = false := by
  cases hclosed : s.closed with
  | false => rfl
  | true =>
    rw [closed_of_transition step hclosed] at hopen
    cases hopen

/-- An open spool stays open up to a later instant at which it is open. -/
theorem open_of_run (h : s.run actions = some (t, effects)) (hopen : t.closed = false) :
    s.closed = false := by
  cases hclosed : s.closed with
  | false => rfl
  | true =>
    rw [closed_of_run h hclosed] at hopen
    cases hopen

theorem kept_of_transition (step : Transition s a t es) (hkept : ∀ loss, t.worker ≠ .lost loss) :
    ∀ loss, s.worker ≠ .lost loss := by
  intro loss hlost
  obtain ⟨later, hlater⟩ := lost_of_transition step ⟨loss, hlost⟩
  exact hkept later hlater

/-- What a run keeps from one instant to a later one, at which the spool is still open and
its worker not lost, without the end of an attempt in between. -/
theorem calm_induction {P : List Action → Spool → List Effect → Prop} (base : P [] s [])
    (next : ∀ {actions t effects a u es}, s.run actions = some (t, effects) →
      P actions t effects → t.closed = false → (∀ loss, u.worker ≠ .lost loss) →
      a.completes = false → Transition t a u es → P (actions ++ [a]) u (effects ++ es))
    (h : s.run actions = some (t, effects)) (hopen : t.closed = false)
    (hkept : ∀ loss, t.worker ≠ .lost loss) (hcalm : ∀ a ∈ actions, a.completes = false) :
    P actions t effects := by
  refine run_induction (P := fun actions t effects => t.closed = false →
      (∀ loss, t.worker ≠ .lost loss) → (∀ a ∈ actions, a.completes = false) → P actions t effects)
    (fun _ _ _ => base) ?_ h hopen hkept hcalm
  intro actions t effects a u es hrun ih step hopen hkept hcalm
  have hbefore := open_of_transition step hopen
  have hearlier := fun b hb => hcalm b (List.mem_append_left _ hb)
  exact next hrun (ih hbefore (kept_of_transition step hkept) hearlier) hbefore hkept
    (hcalm a (List.mem_append_right _ List.mem_cons_self)) step

/-- How many records a calm part of a run admits. -/
theorem admission_of_run {capacity : Nat} (hcapacity : 0 < capacity) {before : List Action}
    {first : List Effect} (hbefore : (start capacity).run before = some (s, first))
    (h : s.run actions = some (t, effects)) (hopen : t.closed = false)
    (hkept : ∀ loss, t.worker ≠ .lost loss) (hcalm : ∀ a ∈ actions, a.completes = false) :
    ∃ n, Admission s t actions effects n := by
  refine calm_induction (P := fun actions t effects => ∃ n, Admission s t actions effects n)
    ⟨0, .refl s⟩ ?_ h hopen hkept hcalm
  intro actions t effects a u es hrun ih hopen hkept ha step
  obtain ⟨n, hadmission⟩ := ih
  have hwhole := run_trans hbefore hrun
  exact hadmission.preserve (capacity_of_run hrun) (accounted_of_run hcapacity hwhole)
    (refusing_of_run hcapacity hwhole) hopen hkept ha step

/-! ## Which records of a producer are admitted -/

/-- The records of the calls that a producer makes and that have come to certain phases. -/
def underWay (s : Spool) (mine : Nat → Bool) (p : WritePhase → Bool) : List (Nat × Bytes) :=
  (s.writes.entries.filter fun e => mine e.1 && p e.2.phase).map fun e => (e.1, e.2.record)

/-- A producer has one call at a time under way. -/
def AtMostOne (s : Spool) (mine : Nat → Bool) : Prop :=
  ∀ call other w v, s.writes.find? call = some w → s.writes.find? other = some v →
    mine call = true → mine other = true → call = other

/-- In a run in which a producer makes one call at a time, it has one under way at most. -/
theorem atMostOne_of_run {capacity : Nat} {mine : Nat → Bool}
    (h : (start capacity).run actions = some (s, effects))
    (hturns : oneAtATime mine (start capacity) actions = true) : AtMostOne s mine := by
  intro call other w v hw hv hcall hother
  obtain ⟨rest, haccount⟩ := account_of_run h hturns
  have hboth := (haccount.present call w hw hcall).symm.trans (haccount.present other v hv hother)
  simp only [List.cons.injEq, Prod.mk.injEq, and_true] at hboth
  exact hboth.1

/-- The one call of a producer that is under way. -/
theorem underWay_of_find? {mine : Nat → Bool} (hone : AtMostOne s mine) {call : Nat}
    {w : WriteCall} (hw : s.writes.find? call = some w) (hmine : mine call = true)
    {p : WritePhase → Bool} (hp : p w.phase = true) :
    s.underWay mine p = [(call, w.record)] := by
  obtain ⟨before, after, heq, hother⟩ := Calls.exists_split hw
  have hrest : ∀ part : List (Nat × WriteCall), (∀ e ∈ part, e ∈ before ++ after) →
      part.filter (fun e => mine e.1 && p e.2.phase) = [] := by
    intro part hpart
    refine List.filter_eq_nil_iff.mpr fun e he hboth => ?_
    have hmem : e ∈ s.writes.entries := by
      rw [heq]
      rcases List.mem_append.mp (hpart e he) with hfirst | hlast
      · exact List.mem_append_left _ hfirst
      · exact List.mem_append_right _ (List.mem_cons_of_mem _ hlast)
    have hmine' : mine e.1 = true := (Bool.and_eq_true_iff.mp hboth).1
    exact hother e (hpart e he) (hone e.1 call e.2 w (Calls.find?_of_mem hmem) hw hmine' hmine)
  have hbefore := hrest before fun e he => List.mem_append_left _ he
  have hafter := hrest after fun e he => List.mem_append_right _ he
  unfold underWay
  rw [heq, List.filter_append, List.filter_cons_of_pos (by simp [hmine, hp]), hbefore, hafter]
  rfl

theorem underWay_eq_nil {mine : Nat → Bool} {p : WritePhase → Bool}
    (h : ∀ call w, s.writes.find? call = some w → mine call = true → p w.phase = false) :
    s.underWay mine p = [] := by
  unfold underWay
  rw [List.map_eq_nil_iff, List.filter_eq_nil_iff]
  intro e he hboth
  obtain ⟨hmine, hp⟩ := Bool.and_eq_true_iff.mp hboth
  rw [h e.1 e.2 (Calls.find?_of_mem he) hmine] at hp
  cases hp

/-- How the records of a producer that joined the channel lie among those that it wrote: either
all of them joined it, but for the one that is under way, or the first of them did, and no
slot is free for any other. -/
inductive Orderly (mine : Nat → Bool) (t : Spool) (joined wrote : List (Nat × Bytes)) : Prop where
  | whole (rest : List (Nat × Bytes)) (heq : joined ++ rest = wrote)
      (present : ∀ call w, t.writes.find? call = some w → mine call = true →
        w.phase.isLosing = false → rest = [(call, w.record)])
      (absent : (∀ call w, t.writes.find? call = some w → mine call = true →
        w.phase.isLosing = true) → rest = [])
  | full (hfull : t.pending = t.capacity) (hfirst : joined <+: wrote)
      (hnone : ∀ call w, t.writes.find? call = some w → mine call = true →
        w.phase.holdsSlot = false)

namespace Orderly

variable {mine : Nat → Bool} {joined wrote : List (Nat × Bytes)}

theorem joined_prefix (h : Orderly mine t joined wrote) : joined <+: wrote := by
  cases h with
  | whole rest heq => exact ⟨rest, heq⟩
  | full hfull hfirst => exact hfirst

theorem refl (hone : AtMostOne s mine) :
    Orderly mine s [] (s.underWay mine fun phase => !phase.isLosing) := by
  refine .whole _ (List.nil_append _) (fun call w hw hmine hkeeps => ?_) fun hlosing => ?_
  · exact underWay_of_find? hone hw hmine (by simp [hkeeps])
  · exact underWay_eq_nil fun call w hw hmine => by simp [hlosing call w hw hmine]

/-- A step that the calls of the producer have no part in. -/
theorem of_others (h : Orderly mine t joined wrote) (hcapacity : u.capacity = t.capacity)
    (hpending : t.pending = t.capacity → u.pending = t.pending)
    (hwrites : ∀ call, mine call = true → u.writes.find? call = t.writes.find? call) :
    Orderly mine u joined wrote := by
  cases h with
  | whole rest heq present absent =>
    refine .whole rest heq (fun call w hw hmine => ?_) fun hlosing => absent fun call w hw hmine => ?_
    · exact present call w (hwrites call hmine ▸ hw) hmine
    · exact hlosing call w ((hwrites call hmine).trans hw) hmine
  | full hfull hfirst hnone =>
    refine .full ?_ hfirst fun call w hw hmine => ?_
    · rw [hcapacity, hpending hfull, hfull]
    · exact hnone call w (hwrites call hmine ▸ hw) hmine

theorem of_enter (h : Orderly mine t joined wrote) {call : Nat} {record : Bytes}
    (hmine : mine call = true) (hfree : ∀ other, mine other = true → t.writes.find? other = none) :
    Orderly mine { t with writes := t.writes.add call ⟨record, .entered⟩ } joined
      (wrote ++ [(call, record)]) := by
  have hnow : ∀ other w, (t.writes.add call ⟨record, .entered⟩).find? other = some w →
      mine other = true → other = call ∧ w = ⟨record, .entered⟩ := by
    intro other w hw hother
    rcases Calls.find?_of_add hw with hcall | ⟨-, hbefore⟩
    · exact hcall
    · rw [hfree other hother] at hbefore
      cases hbefore
  cases h with
  | whole rest heq present absent =>
    have hrest : rest = [] := absent fun other w hw hother => by
      rw [hfree other hother] at hw
      cases hw
    subst hrest
    rw [List.append_nil] at heq
    refine .whole [(call, record)] (by rw [heq]) (fun other w hw hother _ => ?_) fun hlosing => ?_
    · obtain ⟨rfl, rfl⟩ := hnow other w hw hother
      rfl
    · have hself := hlosing call _ (Calls.find?_add_self _ _ _) hmine
      cases hself
  | full hfull hfirst hnone =>
    refine .full hfull (hfirst.trans (List.prefix_append _ _)) fun other w hw hother => ?_
    obtain ⟨-, rfl⟩ := hnow other w hw hother
    rfl

theorem of_reserve (h : Orderly mine t joined wrote) (hone : AtMostOne t mine) {call : Nat}
    {record : Bytes} (hmine : mine call = true)
    (hw : t.writes.find? call = some ⟨record, .entered⟩) (hroom : t.pending < t.capacity) :
    Orderly mine
      { t with pending := t.pending + 1, writes := t.writes.put call ⟨record, .reserved⟩ }
      joined wrote := by
  cases h with
  | whole rest heq present absent =>
    have hrest := present call _ hw hmine rfl
    refine .whole rest heq (fun other w hother hmine' _ => ?_) fun hlosing => ?_
    · rcases Calls.find?_of_put hother with ⟨rfl, rfl⟩ | ⟨hne, hbefore⟩
      · exact hrest
      · exact absurd (hone other call _ _ hbefore hw hmine' hmine) hne
    · have hself := hlosing call _ (Calls.find?_put_self hw _) hmine
      cases hself
  | full hfull => omega

theorem of_overflow (h : Orderly mine t joined wrote) (hone : AtMostOne t mine) {call : Nat}
    {record : Bytes} (hmine : mine call = true)
    (hw : t.writes.find? call = some ⟨record, .entered⟩) (hfull : t.pending = t.capacity) :
    Orderly mine { t with writes := t.writes.put call ⟨record, .losing⟩ } joined wrote := by
  refine .full hfull h.joined_prefix fun other w hother hmine' => ?_
  rcases Calls.find?_of_put hother with ⟨-, rfl⟩ | ⟨hne, hbefore⟩
  · rfl
  · exact absurd (hone other call _ _ hbefore hw hmine' hmine) hne

theorem of_send (h : Orderly mine t joined wrote) (hone : AtMostOne t mine) {call : Nat}
    {record : Bytes} (hmine : mine call = true)
    (hw : t.writes.find? call = some ⟨record, .reserved⟩) (channel : Channel) :
    Orderly mine { t with channel := channel, writes := t.writes.remove call }
      (joined ++ [(call, record)]) wrote := by
  cases h with
  | whole rest heq present absent =>
    have hrest := present call _ hw hmine rfl
    subst hrest
    refine .whole [] (by rw [List.append_nil, heq]) (fun other w hother hmine' => ?_) fun _ => rfl
    obtain ⟨hne, hbefore⟩ := Calls.find?_of_remove hother
    exact absurd (hone other call _ _ hbefore hw hmine' hmine) hne
  | full hfull hfirst hnone =>
    have hself := hnone call _ hw hmine
    cases hself

theorem of_countLost (h : Orderly mine t joined wrote) (hone : AtMostOne t mine) {call : Nat}
    {record : Bytes} (hmine : mine call = true)
    (hw : t.writes.find? call = some ⟨record, .losing⟩) :
    Orderly mine { t with writes := t.writes.remove call } joined wrote := by
  have hnow : ∀ other w, (t.writes.remove call).find? other = some w → mine other = true → False := by
    intro other w hother hmine'
    obtain ⟨hne, hbefore⟩ := Calls.find?_of_remove hother
    exact hne (hone other call _ _ hbefore hw hmine' hmine)
  cases h with
  | whole rest heq present absent =>
    have hrest : rest = [] := absent fun other v hv hother => by
      obtain rfl := hone other call _ _ hv hw hother hmine
      rw [hw] at hv
      cases hv
      rfl
    exact .whole rest heq (fun other w hother hmine' => (hnow other w hother hmine').elim)
      fun _ => hrest
  | full hfull hfirst hnone =>
    exact .full hfull hfirst fun other w hother hmine' => (hnow other w hother hmine').elim

/-- Every step of a calm part of a run keeps it so, for a producer that makes one call at a
time. -/
theorem preserve {underWay : List (Nat × Bytes)}
    (h : Orderly mine t (ofProducer mine (sent effects))
      (underWay ++ ofProducer mine (entered actions)))
    (hone : AtMostOne t mine) (hturn : t.comesInTurn mine a = true) (haccounted : Accounted t)
    (hrefusing : Refusing t) (hopen : t.closed = false) (hkept : ∀ loss, u.worker ≠ .lost loss)
    (ha : a.completes = false) (step : Transition t a u es) :
    Orderly mine u (ofProducer mine (sent (effects ++ es)))
      (underWay ++ ofProducer mine (entered (actions ++ [a]))) := by
  have hthere : ¬ ∃ loss, t.worker = .lost loss := by
    rintro ⟨loss, hlost⟩
    exact kept_of_transition step hkept loss hlost
  have hne : ∀ {call : Nat}, mine call = false → ∀ other, mine other = true → other ≠ call := by
    rintro call hcall other hother rfl
    rw [hcall] at hother
    cases hother
  rw [sent_append, ofProducer_append, entered_append, ofProducer_append, ← List.append_assoc]
  -- A step by which no record of the producer comes or goes.
  have hquiet : ofProducer mine (sent es) = [] → ofProducer mine (entered [a]) = [] →
      Orderly mine u (ofProducer mine (sent effects)) (underWay ++ ofProducer mine (entered actions)) →
      Orderly mine u (ofProducer mine (sent effects) ++ ofProducer mine (sent es))
        (underWay ++ ofProducer mine (entered actions) ++ ofProducer mine (entered [a])) := by
    intro hsent hentered hnext
    rw [hsent, hentered, List.append_nil, List.append_nil]
    exact hnext
  have hput : ∀ {call : Nat} {w : WriteCall}, mine call = false → ∀ other, mine other = true →
      (t.writes.put call w).find? other = t.writes.find? other :=
    fun hcall other hother => Calls.find?_put_of_ne _ (hne hcall other hother) _
  have hremove : ∀ {call : Nat}, mine call = false → ∀ other, mine other = true →
      (t.writes.remove call).find? other = t.writes.find? other :=
    fun hcall other hother => Calls.find?_remove_of_ne _ (hne hcall other hother)
  cases step with
  | @enter call record hhandles hnew _ hrecord =>
    have hentered : entered [.enter call record] = [(call, record)] := by simp [entered, hrecord]
    cases hmine : mine call with
    | true =>
      have hfree : ∀ other, mine other = true → t.writes.find? other = none := by
        rw [← isFreeFor_iff]
        simpa [comesInTurn, hmine] using hturn
      have hmore : ofProducer mine [(call, record)] = [(call, record)] := by
        simp [ofProducer, hmine]
      rw [hentered, hmore]
      exact (List.append_nil (ofProducer mine (sent effects))).symm ▸ h.of_enter hmine hfree
    | false =>
      refine hquiet rfl (by simp [hentered, ofProducer, hmine]) (h.of_others rfl (fun _ => rfl) ?_)
      exact fun other hother => Calls.find?_add_of_ne _ (hne hmine other hother) _
  | @reserve call record hw hroom =>
    refine hquiet rfl rfl ?_
    cases hmine : mine call with
    | true => exact h.of_reserve hone hmine hw hroom
    | false => exact h.of_others rfl (fun hfull => by omega) (hput hmine)
  | @overflow call record hw hfull =>
    have hle := haccounted.slots.pending_le
    refine hquiet rfl rfl ?_
    cases hmine : mine call with
    | true => exact h.of_overflow hone hmine hw (by omega)
    | false => exact h.of_others rfl (fun _ => rfl) (hput hmine)
  | @send call record hw =>
    cases hmine : mine call with
    | true =>
      have hsent : ofProducer mine (sent
          [.queued call record, .answered call (.accepted record.length)]) = [(call, record)] := by
        simp [sent, ofProducer, hmine]
      rw [hsent]
      exact (List.append_nil (underWay ++ ofProducer mine (entered actions))).symm ▸
        h.of_send hone hmine hw _
    | false =>
      exact hquiet (by simp [sent, ofProducer, hmine]) rfl
        (h.of_others rfl (fun _ => rfl) (hremove hmine))
  | @countLost call record hw =>
    refine hquiet rfl rfl ?_
    cases hmine : mine call with
    | true => exact h.of_countLost hone hmine hw
    | false => exact h.of_others rfl (fun _ => rfl) (hremove hmine)
  | enterClosed hhandles hnew hclosed => exact absurd hclosed (by simp [hopen])
  | refuse hw hgone => exact absurd (lost_of_refuse haccounted hw hgone) hthere
  | giveBack hw | wakeFromWrite hw => exact absurd (hrefusing _ _ hw rfl) hthere
  | finish | judge | release => cases ha
  | finishFlush outcome =>
    refine hquiet ?_ rfl (h.of_others rfl (fun _ => rfl) fun _ _ => rfl)
    rw [sent_of_isSilent (isSilent_finishFlush outcome)]
    rfl
  | _ => exact hquiet rfl rfl (h.of_others rfl (fun _ => rfl) fun _ _ => rfl)

end Orderly

/-- Which records of a producer a calm part of a run admits. -/
theorem orderly_of_run {capacity : Nat} (hcapacity : 0 < capacity) {before : List Action}
    {first : List Effect} (hbefore : (start capacity).run before = some (s, first))
    (h : s.run actions = some (t, effects)) (hopen : t.closed = false)
    (hkept : ∀ loss, t.worker ≠ .lost loss) (hcalm : ∀ a ∈ actions, a.completes = false)
    {mine : Nat → Bool} (hturns : oneAtATime mine (start capacity) (before ++ actions) = true) :
    Orderly mine t (ofProducer mine (sent effects))
      (s.underWay mine (fun phase => !phase.isLosing) ++ ofProducer mine (entered actions)) := by
  refine calm_induction (P := fun actions t effects =>
      oneAtATime mine (start capacity) (before ++ actions) = true →
        Orderly mine t (ofProducer mine (sent effects))
          (s.underWay mine (fun phase => !phase.isLosing) ++ ofProducer mine (entered actions)))
    ?_ ?_ h hopen hkept hcalm hturns
  · intro hturns
    rw [List.append_nil] at hturns
    have hnone : ofProducer mine (entered []) = [] := rfl
    rw [hnone, List.append_nil]
    exact .refl (atMostOne_of_run hbefore hturns)
  · intro actions t effects a u es hrun ih hopen hkept ha step hturns
    have hwhole := run_trans hbefore hrun
    rw [← List.append_assoc, oneAtATime_concat _ hwhole, Bool.and_eq_true] at hturns
    exact (ih hturns.1).preserve (atMostOne_of_run hwhole hturns.1) hturns.2
      (accounted_of_run hcapacity hwhole) (refusing_of_run hcapacity hwhole) hopen hkept ha step

/-! ## What calls are answered -/

/-- A call is answered in the step in which it is done with its record, with the number of its
bytes. -/
theorem taken_of_transition (step : Transition s a t es)
    (hnonempty : ∀ call w, s.writes.find? call = some w → w.record ≠ []) :
    taken es = (dealt es).map fun r => (r.1, r.2.length) := by
  have hsilent : (∀ e ∈ es, e.isSilent = true) →
      taken es = (dealt es).map fun r => (r.1, r.2.length) := by
    intro h
    rw [(silent_effects h []).2.1, dealt_of_isSilent h]
    rfl
  cases step with
  | @send call record hw =>
    have hrecord : record.length ≠ 0 := fun hnil => hnonempty call _ hw (List.length_eq_zero_iff.mp hnil)
    simp [taken, dealt, hrecord]
  | @countLost call record hw =>
    have hrecord : record.length ≠ 0 := fun hnil => hnonempty call _ hw (List.length_eq_zero_iff.mp hnil)
    simp [taken, dealt, hrecord]
  | @judge record outcome =>
    have hreports := isSilent_verdictReports s record outcome
    change taken (s.verdictReports record outcome) =
      (dealt (s.verdictReports record outcome)).map fun r => (r.1, r.2.length)
    rw [(silent_effects hreports []).2.1, dealt_of_isSilent hreports]
    rfl
  | finishFlush outcome => exact hsilent (isSilent_finishFlush outcome)
  | _ => exact hsilent (by simp [Effect.isSilent])

/-- From one instant of a run to a later one, each call is answered for the record that it is
done with. -/
theorem taken_of_run {capacity : Nat} (hcapacity : 0 < capacity) {before : List Action}
    {first : List Effect} (hbefore : (start capacity).run before = some (s, first))
    (h : s.run actions = some (t, effects)) :
    taken effects = (dealt effects).map fun r => (r.1, r.2.length) := by
  refine run_induction (P := fun _ _ effects =>
    taken effects = (dealt effects).map fun r => (r.1, r.2.length)) rfl ?_ h
  intro actions t effects a u es hrun ih step
  obtain ⟨ledger, hbooks⟩ := books_of_run hcapacity (run_trans hbefore hrun)
  rw [taken_append, dealt_append, List.map_append, ih, taken_of_transition step hbooks.nonempty]

/-- From one instant of a run to a later one, at which the spool is still open and nobody
writes, a producer that makes one call at a time is done with every record that it had under way
or started to write in between, in that order. -/
theorem dealt_of_run {capacity : Nat} {before : List Action} {first : List Effect}
    (hbefore : (start capacity).run before = some (s, first))
    (h : s.run actions = some (t, effects)) (hopen : t.closed = false)
    (hwrites : t.writes.isEmpty = true) {mine : Nat → Bool}
    (hturns : oneAtATime mine (start capacity) (before ++ actions) = true) :
    ofProducer mine (dealt effects) =
      s.underWay mine (fun _ => true) ++ ofProducer mine (entered actions) := by
  have hwhole := run_trans hbefore h
  have hearlier := oneAtATime_of_append hturns
  have hstill := open_of_run h hopen
  obtain ⟨rest, haccount⟩ := account_of_run hbefore hearlier
  obtain ⟨last, hlater⟩ := account_of_run hwhole hturns
  have hlast : last = [] := hlater.absent fun call _ => Calls.isEmpty_iff.mp hwrites call
  have hcomplete := hlater.complete hopen
  rw [hlast, List.append_nil, dealt_append, ofProducer_append, entered_append, ofProducer_append,
    ← haccount.complete hstill, List.append_assoc] at hcomplete
  have hdealt := List.append_cancel_left hcomplete
  have hrest : rest = s.underWay mine fun _ => true := by
    by_cases hcall : ∃ call w, s.writes.find? call = some w ∧ mine call = true
    · obtain ⟨call, w, hw, hmine⟩ := hcall
      rw [haccount.present call w hw hmine,
        underWay_of_find? (atMostOne_of_run hbefore hearlier) hw hmine rfl]
    · rw [underWay_eq_nil fun call w hw hmine => absurd ⟨call, w, hw, hmine⟩ hcall]
      refine haccount.absent fun call hmine => Option.eq_none_iff_forall_ne_some.mpr ?_
      intro w hw
      exact hcall ⟨call, w, hw, hmine⟩
  rw [hdealt, hrest]

/-! ## Each call comes to one of two ends -/

/-- In a step in which no attempt ends, a call that ends has sent its record to the channel or
counted it as dropped. -/
theorem ends_of_transition (step : Transition s a t es) (hopen : s.closed = false)
    (ha : a.completes = false) :
    (sent es).length + counts .dropped es + t.inPhase (fun _ => true) =
      s.inPhase (fun _ => true) + (entered [a]).length := by
  have hput : ∀ {call : Nat} {record : Bytes} {phase next : WritePhase},
      s.writes.find? call = some ⟨record, phase⟩ →
      t.writes = s.writes.put call ⟨record, next⟩ →
      t.inPhase (fun _ => true) = s.inPhase (fun _ => true) := by
    intro call record phase next hw hwrites
    exact Nat.succ.inj (inPhase_put hw hwrites fun _ => true)
  have hother : (∀ e ∈ es, e.isSilent = true) →
      t.inPhase (fun _ => true) = s.inPhase (fun _ => true) + (entered [a]).length →
      (sent es).length + counts .dropped es + t.inPhase (fun _ => true) =
        s.inPhase (fun _ => true) + (entered [a]).length := by
    intro hsilent hphases
    obtain ⟨-, -, hcounts⟩ := silent_effects hsilent []
    rw [hcounts, sent_of_isSilent hsilent, hphases]
    exact Nat.zero_add _
  have hnone : ∀ e ∈ ([] : List Effect), e.isSilent = true := fun _ he => absurd he List.not_mem_nil
  cases step with
  | @enter call record hhandles hnew _ hrecord =>
    have hstarts := inPhase_add (t := { s with writes := s.writes.add call ⟨record, .entered⟩ }) hnew
      record rfl fun _ => true
    have hentered : entered [.enter call record] = [(call, record)] := by simp [entered, hrecord]
    refine hother hnone ?_
    rw [hentered, hstarts]
    rfl
  | reserve hw | overflow hw | refuse hw | giveBack hw | wakeFromWrite hw =>
    exact hother hnone (hput hw rfl)
  | @send call record hw =>
    have hends := inPhase_remove (t := { s with
      channel := s.channel.push record, writes := s.writes.remove call }) hw rfl fun _ => true
    exact (Nat.add_comm 1 _).trans hends
  | @countLost call record hw =>
    have hends := inPhase_remove (t := { s with writes := s.writes.remove call }) hw rfl
      fun _ => true
    exact (Nat.add_comm 1 _).trans hends
  | enterClosed _ _ hclosed => exact absurd hclosed (by simp [hopen])
  | finish | judge | release => cases ha
  | finishFlush outcome => exact hother (isSilent_finishFlush outcome) rfl
  | _ => exact hother (by simp [Effect.isSilent]) rfl

/-- As long as the spool is open and no attempt ends, each call comes to one of the two ends. -/
theorem ends_of_run (h : s.run actions = some (t, effects)) (hopen : t.closed = false)
    (hcalm : ∀ a ∈ actions, a.completes = false) :
    (sent effects).length + counts .dropped effects + t.inPhase (fun _ => true) =
      s.inPhase (fun _ => true) + (entered actions).length := by
  refine run_induction (P := fun actions t effects => t.closed = false →
      (∀ a ∈ actions, a.completes = false) →
      (sent effects).length + counts .dropped effects + t.inPhase (fun _ => true) =
        s.inPhase (fun _ => true) + (entered actions).length) ?_ ?_ h hopen hcalm
  · intro _ _
    exact Nat.add_comm 0 _
  · intro actions t effects a u es hrun ih step hopen hcalm
    have hstill := open_of_transition step hopen
    have hbefore := ih hstill fun a ha => hcalm a (List.mem_append_left _ ha)
    have hnow := ends_of_transition step hstill (hcalm a (by simp))
    rw [sent_append, List.length_append, counts_append, entered_append, List.length_append]
    omega

/-! ## A worker that is lost on the way -/

/-- No record joins the channel in a step after which the worker is lost. -/
theorem sent_of_lost (step : Transition s a t es) (hlost : ∃ loss, t.worker = .lost loss) :
    sent es = [] := by
  cases step with
  | send hw halive =>
    obtain ⟨loss, hlost⟩ := hlost
    have hgone : s.worker = .lost loss := hlost
    rw [hgone] at halive
    cases halive
  | finishFlush outcome => exact sent_of_isSilent (isSilent_finishFlush outcome)
  | judge =>
    obtain ⟨loss, hlost⟩ := hlost
    cases hlost
  | _ => rfl

/-- A run has a first part, up to where the worker is lost if it is lost, and no record joins the
channel in the rest. -/
theorem until_lost (hkept : ∀ loss, s.worker ≠ .lost loss)
    (h : s.run actions = some (t, effects)) :
    ∃ mid rest v first more, actions = mid ++ rest ∧ s.run mid = some (v, first) ∧
      v.run rest = some (t, more) ∧ (∀ loss, v.worker ≠ .lost loss) ∧ effects = first ++ more ∧
      sent more = [] := by
  induction actions using List.reverseRecOn generalizing t effects with
  | nil =>
    cases h
    exact ⟨[], [], s, [], [], rfl, rfl, rfl, hkept, rfl, rfl⟩
  | append_singleton actions a ih =>
    have hwhole := h
    obtain ⟨u, before, es, hrun, step, rfl⟩ := run_concat h
    by_cases hlost : ∃ loss, t.worker = .lost loss
    · obtain ⟨mid, rest, v, first, more, rfl, hfirst, hmore, hv, rfl, hsent⟩ := ih hrun
      refine ⟨mid, rest ++ [a], v, first, more ++ es, List.append_assoc .., hfirst, ?_, hv,
        List.append_assoc .., ?_⟩
      · have hlast := run_join hmore step (run_nil t)
        rwa [List.append_nil] at hlast
      · rw [sent_append, hsent, sent_of_lost step hlost]
        rfl
    · refine ⟨actions ++ [a], [], t, before ++ es, [], ?_, hwhole, rfl, ?_, ?_, rfl⟩
      · rw [List.append_nil]
      · intro loss heq
        exact hlost ⟨loss, heq⟩
      · rw [List.append_nil]

theorem sent_of_gone (hlost : ∃ loss, s.worker = .lost loss)
    (h : s.run actions = some (t, effects)) : sent effects = [] := by
  have hboth : (∃ loss, t.worker = .lost loss) ∧ sent effects = [] := by
    refine run_induction (P := fun _ t effects =>
      (∃ loss, t.worker = .lost loss) ∧ sent effects = []) ⟨hlost, rfl⟩ ?_ h
    rintro actions t effects a u es - ⟨hgone, hnothing⟩ step
    have hstill := lost_of_transition step hgone
    refine ⟨hstill, ?_⟩
    rw [sent_append, hnothing, sent_of_lost step hstill]
    rfl
  exact hboth.2

/-- No more calls get a slot than slots are free, whatever becomes of the worker, and the records
of a producer that join the channel come before the others. -/
theorem sent_of_run {capacity : Nat} (hcapacity : 0 < capacity) {before : List Action}
    {first : List Effect} (hbefore : (start capacity).run before = some (s, first))
    (h : s.run actions = some (t, effects)) (hopen : t.closed = false)
    (hcalm : ∀ a ∈ actions, a.completes = false) {n : Nat}
    (hn : n = s.inPhase WritePhase.isAsking + (entered actions).length) :
    (sent effects).length ≤ s.held + min n (capacity - s.pending) ∧
      ∀ mine, oneAtATime mine (start capacity) (before ++ actions) = true →
        ofProducer mine (sent effects) <+:
          s.underWay mine (fun phase => !phase.isLosing) ++ ofProducer mine (entered actions) := by
  by_cases hlost : ∃ loss, s.worker = .lost loss
  · rw [sent_of_gone hlost h]
    exact ⟨Nat.zero_le _, fun _ _ => List.nil_prefix⟩
  · have hkept : ∀ loss, s.worker ≠ .lost loss := fun loss heq => hlost ⟨loss, heq⟩
    obtain ⟨mid, rest, v, earlier, more, rfl, hmid, hmore, hv, rfl, hnothing⟩ := until_lost hkept h
    have hstill := open_of_run hmore hopen
    have hquiet := fun a ha => hcalm a (List.mem_append_left rest ha)
    rw [sent_append, hnothing, List.append_nil]
    refine ⟨?_, fun mine hturns => ?_⟩
    · obtain ⟨m, hadmission⟩ := admission_of_run hcapacity hbefore hmid hstill hv hquiet
      have hasked := hadmission.asked
      have hsent := hadmission.sent
      rw [capacity_of_run hbefore] at hsent
      rw [entered_append, List.length_append] at hn
      have hheld : s.held = s.inPhase WritePhase.holdsSlot := rfl
      change _ = _ + min m (capacity - s.pending) at hsent
      omega
    · rw [← List.append_assoc] at hturns
      have horderly :=
        orderly_of_run hcapacity hbefore hmid hstill hv hquiet (oneAtATime_of_append hturns)
      rw [entered_append, ofProducer_append, ← List.append_assoc]
      exact horderly.joined_prefix.trans (List.prefix_append _ _)

end Spool

end LogSpool
