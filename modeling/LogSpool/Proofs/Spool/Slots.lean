import LogSpool.Proofs.Spool.Run
import LogSpool.Settings
set_option autoImplicit false

/-!
# Spools: the slots

Two bounds keep a spool from overflowing: the number of slots taken, and the size of the
channel, which is smaller as soon as the worker takes a record.  `Slots` ties them: while
the worker is alive, every slot taken belongs to a call that writes, to a record in the
channel or to the record in flight.  `Sealing` says that no call writes to a sealed
spool, and `Exhausted` what is left once the worker is past the last record.

* `slots_accounted_for` : no run takes more slots than there are, lets a call with a slot
  find the channel full, gives a slot back that nobody took, or leaks one.
-/

namespace LogSpool

/-- The worker is past the last record. -/
def Worker.isPastQueue : Worker → Bool
  | callingFlush | flushing | done => true
  | _ => false

theorem Worker.isAlive_of_canLose {worker : Worker} {loss : Loss}
    (h : worker.canLose loss = true) : worker.isAlive = true := by
  cases worker <;> cases loss <;> first | rfl | cases h

namespace Spool

variable {s t : Spool} {a : Action} {es : List Effect}

/-! ## Sealed spools -/

/-- Nobody writes to a closed spool, and nobody uses one without handles. -/
structure Sealing (s : Spool) : Prop where
  no_writes : s.closed = true → s.writes.isEmpty = true
  no_calls : s.handles = 0 → s.isQuiet = true

namespace Sealing

theorem of_open (hopen : s.closed = false) (hhandles : 0 < s.handles) : Sealing s :=
  ⟨fun h => absurd h (by simp [hopen]), fun h => absurd h (by omega)⟩

theorem isQuiet_iff : s.isQuiet = true ↔
    s.writes.isEmpty = true ∧ s.waiters.isEmpty = true ∧ s.shutdowns.isEmpty = true := by
  simp [isQuiet, and_assoc]

/-- A call that writes shows that the spool is open. -/
theorem closed_eq_false (h : Sealing s) {call : Nat} {w : WriteCall}
    (hw : s.writes.find? call = some w) : s.closed = false := by
  cases hclosed : s.closed with
  | false => rfl
  | true =>
    have hempty := h.no_writes hclosed
    rw [Calls.isEmpty_eq_false_of_find? hw] at hempty
    cases hempty

theorem handles_pos_of_write (h : Sealing s) {call : Nat} {w : WriteCall}
    (hw : s.writes.find? call = some w) : 0 < s.handles := by
  refine Nat.pos_of_ne_zero fun hnone => ?_
  have hempty := (isQuiet_iff.mp (h.no_calls hnone)).1
  rw [Calls.isEmpty_eq_false_of_find? hw] at hempty
  cases hempty

theorem handles_pos_of_waiter (h : Sealing s) {call : Nat} {w : Waiter}
    (hw : s.waiters.find? call = some w) : 0 < s.handles := by
  refine Nat.pos_of_ne_zero fun hnone => ?_
  have hempty := (isQuiet_iff.mp (h.no_calls hnone)).2.1
  rw [Calls.isEmpty_eq_false_of_find? hw] at hempty
  cases hempty

theorem handles_pos_of_shutdown (h : Sealing s) {call : Nat} {phase : ShutdownPhase}
    (hphase : s.shutdowns.find? call = some phase) : 0 < s.handles := by
  refine Nat.pos_of_ne_zero fun hnone => ?_
  have hempty := (isQuiet_iff.mp (h.no_calls hnone)).2.2
  rw [Calls.isEmpty_eq_false_of_find? hphase] at hempty
  cases hempty

/-- Nobody writes to a sealed spool. -/
theorem no_writes_of_isSealed (h : Sealing s) (hsealed : s.isSealed = true) :
    s.writes.isEmpty = true := by
  simp only [isSealed, Bool.or_eq_true, beq_iff_eq] at hsealed
  rcases hsealed with hclosed | hnone
  · exact h.no_writes hclosed
  · exact (isQuiet_iff.mp (h.no_calls hnone)).1

theorem of_eq (h : Sealing s) (hwrites : t.writes = s.writes) (hclosed : t.closed = s.closed)
    (hquiet : t.handles = 0 → t.isQuiet = true) : Sealing t :=
  ⟨fun ht => hwrites ▸ h.no_writes (hclosed ▸ ht), hquiet⟩

theorem preserve (h : Sealing s) (step : Transition s a t es) : Sealing t := by
  cases step with
  | clone hhandles => exact h.of_eq rfl rfl fun hnone => absurd hnone (Nat.succ_ne_zero _)
  | drop hspare =>
    refine h.of_eq rfl rfl fun hnone => ?_
    rcases hspare with hmore | ⟨-, hquiet⟩
    · simp only at hnone
      omega
    · exact hquiet
  | enter hhandles hnew hopen hrecord => exact .of_open hopen hhandles
  | reserve hw | overflow hw | send hw | refuse hw | giveBack hw | wakeFromWrite hw
  | countLost hw => exact .of_open (h.closed_eq_false hw) (h.handles_pos_of_write hw)
  | close hhandles hwrites => exact ⟨fun _ => hwrites, h.no_calls⟩
  | arm hhandles | shutdown hhandles =>
    exact h.of_eq rfl rfl fun hnone => absurd hnone (Nat.ne_of_gt hhandles)
  | lookDrained hw | park hw | rearm hw | abandonWait hw =>
    exact h.of_eq rfl rfl fun hnone => absurd hnone (Nat.ne_of_gt (h.handles_pos_of_waiter hw))
  | abandonDraining hphase | abandonJoining hphase | pursueArming hphase | claim hphase
  | claimTaken hphase | joinDone hphase | joinLost hphase =>
    exact h.of_eq rfl rfl
      fun hnone => absurd hnone (Nat.ne_of_gt (h.handles_pos_of_shutdown hphase))
  | pursueClosing hphase hwrites =>
    exact ⟨fun _ => hwrites,
      fun hnone => absurd hnone (Nat.ne_of_gt (h.handles_pos_of_shutdown hphase))⟩
  | wake =>
    refine h.of_eq rfl rfl fun hnone => ?_
    have hquiet := h.no_calls hnone
    simpa [isQuiet, wakeAll, Calls.isEmpty, Calls.mapAll] using hquiet
  | enterClosed | enterEmpty | announce | receive | awaitWrite | awaitFlush | finish | judge
  | release | flush | finishFlush | lose => exact ⟨h.no_writes, h.no_calls⟩

end Sealing

/-! ## Taken slots -/

/-- Every slot taken belongs to someone. -/
structure Slots (s : Spool) : Prop where
  capacity_pos : 0 < s.capacity
  pending_le : s.pending ≤ s.capacity
  held_le : s.held ≤ s.pending
  balance : s.worker.isAlive = true →
    s.pending = s.held + s.channel.size + s.worker.inFlight
  channel_of_gone : s.worker.isAlive = false → s.channel.size = 0

/-- No record can come, none is left, and no slot is taken. -/
structure AtRest (s : Spool) : Prop where
  isSealed : s.isSealed = true
  channel : s.channel.size = 0
  pending : s.pending = 0

/-- Once the worker is past the last record, the spool is at rest. -/
def Exhausted (s : Spool) : Prop := s.worker.isPastQueue = true → AtRest s

namespace Slots

theorem held_pos {call : Nat} {w : WriteCall} (hw : s.writes.find? call = some w)
    (hslot : w.phase.holdsSlot = true) : 0 < s.held :=
  Calls.count_pos (p := fun w : WriteCall => w.phase.holdsSlot) hw hslot

theorem pending_pos (h : Slots s) {call : Nat} {w : WriteCall}
    (hw : s.writes.find? call = some w) (hslot : w.phase.holdsSlot = true) : 0 < s.pending :=
  Nat.lt_of_lt_of_le (held_pos hw hslot) h.held_le

theorem pending_pos_of_releasing (h : Slots s) (hworker : s.worker = .releasing) :
    0 < s.pending := by
  have hbalance := h.balance (by rw [hworker]; rfl)
  rw [hworker] at hbalance
  simp only [Worker.inFlight] at hbalance
  omega

/-- While a call holds a slot the channel has room. -/
theorem size_lt (h : Slots s) {call : Nat} {w : WriteCall} (hw : s.writes.find? call = some w)
    (hslot : w.phase.holdsSlot = true) : s.channel.size < s.capacity := by
  have hheld := held_pos hw hslot
  have hle := h.pending_le
  cases halive : s.worker.isAlive with
  | true =>
    have hbalance := h.balance halive
    omega
  | false =>
    have hgone := h.channel_of_gone halive
    have hpos := h.capacity_pos
    omega

theorem held_put {call : Nat} {record : Bytes} {phase : WritePhase}
    (hw : s.writes.find? call = some ⟨record, phase⟩) (next : WritePhase)
    (ht : t.writes = s.writes.put call ⟨record, next⟩) :
    t.held + phase.holdsSlot.toNat = s.held + next.holdsSlot.toNat := by
  unfold held
  rw [ht]
  exact Calls.count_put hw ⟨record, next⟩ (·.phase.holdsSlot)

theorem held_remove {call : Nat} {record : Bytes} {phase : WritePhase}
    (hw : s.writes.find? call = some ⟨record, phase⟩) (ht : t.writes = s.writes.remove call) :
    t.held + phase.holdsSlot.toNat = s.held := by
  unfold held
  rw [ht]
  exact Calls.count_remove hw (·.phase.holdsSlot)

/-- A step of a call that writes: what it takes or gives back goes from or to the call
or the channel. -/
theorem of_write (h : Slots s) (hworker : t.worker = s.worker) (hcapacity : t.capacity = s.capacity)
    (hle : t.pending ≤ s.capacity)
    (hsum : t.pending + s.held + s.channel.size = s.pending + t.held + t.channel.size)
    (hsize : s.channel.size ≤ t.channel.size)
    (hgone : s.worker.isAlive = false → t.channel.size = s.channel.size) : Slots t where
  capacity_pos := hcapacity ▸ h.capacity_pos
  pending_le := hcapacity ▸ hle
  held_le := by
    have hheld := h.held_le
    omega
  balance := by
    intro halive
    rw [hworker] at halive ⊢
    have hbalance := h.balance halive
    omega
  channel_of_gone := by
    intro halive
    rw [hworker] at halive
    rw [hgone halive, h.channel_of_gone halive]

/-- A call that writes moves to another phase, and takes or gives back a slot with it. -/
theorem of_put (h : Slots s) {call : Nat} {record : Bytes} {phase next : WritePhase}
    (hw : s.writes.find? call = some ⟨record, phase⟩)
    (hwrites : t.writes = s.writes.put call ⟨record, next⟩) (hworker : t.worker = s.worker)
    (hcapacity : t.capacity = s.capacity) (hchannel : t.channel = s.channel)
    (hle : t.pending ≤ s.capacity)
    (hsum : t.pending + phase.holdsSlot.toNat = s.pending + next.holdsSlot.toNat) : Slots t := by
  have hheld := held_put hw next hwrites
  refine h.of_write hworker hcapacity hle ?_ (Nat.le_of_eq (by rw [hchannel])) fun _ => by
    rw [hchannel]
  rw [hchannel]
  omega

/-- A call that writes ends, and leaves its slot to its record. -/
theorem of_remove (h : Slots s) {call : Nat} {record : Bytes} {phase : WritePhase}
    (hw : s.writes.find? call = some ⟨record, phase⟩)
    (hwrites : t.writes = s.writes.remove call) (hworker : t.worker = s.worker)
    (hcapacity : t.capacity = s.capacity) (hpending : t.pending = s.pending)
    (hsize : t.channel.size = s.channel.size + phase.holdsSlot.toNat)
    (hgone : s.worker.isAlive = false → t.channel.size = s.channel.size) : Slots t := by
  have hheld := held_remove hw hwrites
  refine h.of_write hworker hcapacity (hpending ▸ h.pending_le) ?_ (by omega) hgone
  omega

/-- A step of the worker: what it takes or gives back goes from the channel to its hand,
or out of it. -/
theorem of_worker (h : Slots s) (hcapacity : t.capacity = s.capacity) (hwrites : t.writes = s.writes)
    (halive : s.worker.isAlive = true) (halive' : t.worker.isAlive = true)
    (hsum : t.pending + s.channel.size + s.worker.inFlight =
      s.pending + t.channel.size + t.worker.inFlight) (hle : t.pending ≤ s.pending) : Slots t := by
  have hheld : t.held = s.held := by rw [held, held, hwrites]
  have hbalance := h.balance halive
  refine ⟨hcapacity ▸ h.capacity_pos, ?_, by omega, fun _ => by omega, fun hdead => ?_⟩
  · rw [hcapacity]
    exact Nat.le_trans hle h.pending_le
  · rw [halive'] at hdead
    cases hdead

/-- The end of the worker: the slots that are still taken stay so. -/
theorem of_end (h : Slots s) (hcapacity : t.capacity = s.capacity) (hwrites : t.writes = s.writes)
    (hpending : t.pending = s.pending) (hdead : t.worker.isAlive = false)
    (hchannel : t.channel.size = 0) : Slots t where
  capacity_pos := hcapacity ▸ h.capacity_pos
  pending_le := by rw [hpending, hcapacity]; exact h.pending_le
  held_le := by rw [held, hwrites, hpending]; exact h.held_le
  balance := fun halive => absurd halive (by simp [hdead])
  channel_of_gone := fun _ => hchannel

theorem preserve (h : Slots s) (hpast : Exhausted s) (step : Transition s a t es) : Slots t := by
  cases step with
  | @enter call record hhandles hnew =>
    have hadd := Calls.count_add hnew ⟨record, .entered⟩ (·.phase.holdsSlot)
    refine h.of_write rfl rfl h.pending_le ?_ (Nat.le_refl _) fun _ => rfl
    exact congrArg (s.pending + · + s.channel.size) hadd.symm
  | reserve hw hroom => exact h.of_put hw rfl rfl rfl rfl hroom rfl
  | overflow hw | refuse hw | wakeFromWrite hw => exact h.of_put hw rfl rfl rfl rfl h.pending_le rfl
  | giveBack hw =>
    have hpos := h.pending_pos hw rfl
    refine h.of_put hw rfl rfl rfl rfl (Nat.le_trans (Nat.sub_le _ _) h.pending_le) ?_
    have hfree : WritePhase.holdsSlot (if s.pending == 1 then .waking else .losing) = false := by
      split <;> rfl
    rw [hfree]
    simp only [WritePhase.holdsSlot, Bool.toNat_true, Bool.toNat_false]
    omega
  | send hw halive =>
    exact h.of_remove hw rfl rfl rfl rfl rfl fun hdead => absurd halive (by simp [hdead])
  | countLost hw => exact h.of_remove hw rfl rfl rfl rfl rfl fun _ => rfl
  | receive hworker hpop =>
    have hsize := Channel.toList_of_pop? hpop
    refine h.of_worker rfl rfl (by rw [hworker]; rfl) rfl ?_ (Nat.le_refl _)
    rw [hworker, Channel.size_eq_length, hsize, Channel.size_eq_length]
    simp only [Worker.inFlight, List.length_cons]
    omega
  | awaitWrite hworker | finish outcome hworker | judge hworker | awaitFlush hworker
  | wake hworker | flush hworker =>
    exact h.of_worker rfl rfl (by rw [hworker]; rfl) rfl (by rw [hworker]; rfl) (Nat.le_refl _)
  | release hworker =>
    have hpos := h.pending_pos_of_releasing hworker
    have hidle : ∀ last : Bool,
        Worker.isAlive (if last then .waking else .idle) = true ∧
          Worker.inFlight (if last then .waking else .idle) = 0 := by
      intro last
      cases last <;> exact ⟨rfl, rfl⟩
    refine h.of_worker rfl rfl (by rw [hworker]; rfl) (hidle _).1 ?_ (Nat.sub_le _ _)
    rw [(hidle _).2, hworker]
    simp only [Worker.inFlight]
    omega
  | finishFlush outcome hworker =>
    exact h.of_end rfl rfl rfl rfl (hpast (by rw [hworker]; rfl)).channel
  | lose loss => exact h.of_end rfl rfl rfl rfl rfl
  | clone | drop | enterClosed | enterEmpty | close | announce | arm | lookDrained | park | rearm
  | abandonWait | abandonDraining | abandonJoining | shutdown | pursueClosing | pursueArming
  | claim | claimTaken | joinDone | joinLost =>
    exact ⟨h.capacity_pos, h.pending_le, h.held_le, h.balance, h.channel_of_gone⟩

end Slots

namespace AtRest

theorem of_eq (h : AtRest s) (hsealed : s.isSealed = true → t.isSealed = true)
    (hchannel : t.channel = s.channel) (hpending : t.pending = s.pending) : AtRest t :=
  ⟨hsealed h.isSealed, hchannel ▸ h.channel, hpending ▸ h.pending⟩

theorem closed (h : AtRest s) (hhandles : 0 < s.handles) : s.closed = true := by
  simpa [Spool.isSealed, Nat.ne_of_gt hhandles] using h.isSealed

theorem find?_writes (h : AtRest s) (hseal : Sealing s) (call : Nat) (w : WriteCall) :
    s.writes.find? call ≠ some w := by
  intro hw
  have hempty := hseal.no_writes_of_isSealed h.isSealed
  rw [Calls.isEmpty_eq_false_of_find? hw] at hempty
  cases hempty

theorem of_closed (hslots : Slots s) (hclosed : s.closed = true) (hnone : s.pending = 0) :
    AtRest s := by
  refine ⟨by simp [Spool.isSealed, hclosed], ?_, hnone⟩
  cases halive : s.worker.isAlive with
  | true =>
    have hbalance := hslots.balance halive
    omega
  | false => exact hslots.channel_of_gone halive

theorem preserve (h : AtRest s) (hseal : Sealing s) (step : Transition s a t es) : AtRest t := by
  cases step with
  | clone hhandles => exact h.of_eq (fun _ => by simp [Spool.isSealed, h.closed hhandles]) rfl rfl
  | drop hspare =>
    exact h.of_eq (fun _ => by simp [Spool.isSealed, h.closed (by omega)]) rfl rfl
  | reserve hw | overflow hw | send hw | refuse hw | giveBack hw | wakeFromWrite hw
  | countLost hw => exact absurd hw (h.find?_writes hseal _ _)
  | close | pursueClosing => exact h.of_eq (fun _ => rfl) rfl rfl
  | receive hworker hpop =>
    have hsize := h.channel
    rw [Channel.size_eq_length, Channel.toList_of_pop? hpop] at hsize
    cases hsize
  | release => exact ⟨h.isSealed, h.channel, by rw [h.pending]⟩
  | lose => exact ⟨h.isSealed, rfl, h.pending⟩
  | enter | enterClosed | enterEmpty | announce | arm | lookDrained | park | rearm | abandonWait
  | abandonDraining | abandonJoining | shutdown | pursueArming | claim | claimTaken | joinDone
  | joinLost | awaitWrite | awaitFlush | finish | judge | wake | flush | finishFlush =>
    exact h.of_eq id rfl rfl

end AtRest

/-- A worker gets past the last record only where the spool is sealed and its channel
empty. -/
theorem isPastQueue_of_transition (step : Transition s a t es)
    (hpast : t.worker.isPastQueue = true) :
    s.worker.isPastQueue = true ∨
      (s.worker = .idle ∧ s.isSealed = true ∧ s.channel.size = 0) := by
  cases step with
  | flush hworker hsealed hempty => exact .inr ⟨hworker, hsealed, hempty⟩
  | awaitFlush hworker | finishFlush outcome hworker => exact .inl (by rw [hworker]; rfl)
  | receive | awaitWrite | finish | judge | wake | lose => cases hpast
  | release =>
    simp only at hpast
    split at hpast <;> cases hpast
  | _ => exact .inl hpast

theorem Exhausted.preserve (h : Exhausted s) (hseal : Sealing s) (hslots : Slots s)
    (step : Transition s a t es) : Exhausted t := by
  intro hpast
  rcases isPastQueue_of_transition step hpast with hbefore | ⟨hworker, hsealed, hempty⟩
  · exact (h hbefore).preserve hseal step
  · have hnone : s.held = 0 :=
      Calls.count_eq_zero_of_isEmpty (hseal.no_writes_of_isSealed hsealed) _
    have hbalance := hslots.balance (by rw [hworker]; rfl)
    rw [hworker] at hbalance
    simp only [Worker.inFlight] at hbalance
    exact AtRest.preserve ⟨hsealed, hempty, by omega⟩ hseal step

/-! ## Every run -/

/-- What holds of the slots of a spool at every instant. -/
structure Accounted (s : Spool) : Prop where
  sealing : Sealing s
  slots : Slots s
  exhausted : Exhausted s

theorem accounted_start {capacity : Nat} (hcapacity : 0 < capacity) :
    Accounted (start capacity) where
  sealing := .of_open rfl Nat.one_pos
  slots := ⟨hcapacity, Nat.zero_le _, Nat.le_refl _, fun _ => rfl, fun _ => rfl⟩
  exhausted := nofun

theorem Accounted.preserve (h : Accounted s) (step : Transition s a t es) : Accounted t where
  sealing := h.sealing.preserve step
  slots := h.slots.preserve h.exhausted step
  exhausted := h.exhausted.preserve h.sealing h.slots step

/-- Every spool that a run reaches accounts for its slots. -/
theorem accounted_of_run {capacity : Nat} (hcapacity : 0 < capacity) {actions : List Action}
    {effects : List Effect} (h : (start capacity).run actions = some (s, effects)) : Accounted s :=
  run_invariant Accounted.preserve h (accounted_start hcapacity)

/-- A run from a spool at rest ends at rest. -/
theorem AtRest.of_run (h : AtRest s) (haccounted : Accounted s) {actions : List Action}
    {effects : List Effect} (hrun : s.run actions = some (t, effects)) : AtRest t := by
  have hboth := run_invariant (P := fun u => Accounted u ∧ AtRest u)
    (fun hu step => ⟨hu.1.preserve step, hu.2.preserve hu.1.sealing step⟩) hrun ⟨haccounted, h⟩
  exact hboth.2

theorem capacity_of_run {actions : List Action} {effects : List Effect}
    (h : s.run actions = some (t, effects)) : t.capacity = s.capacity := by
  refine run_invariant (P := fun u => u.capacity = s.capacity) (fun hu step => ?_) h rfl
  cases step <;> exact hu

theorem slots_bounds (settings : SpoolSettings) :
    1 ≤ settings.slots ∧ settings.slots ≤ maxCapacity := by
  have hmax : 1 ≤ maxCapacity := by decide
  unfold SpoolSettings.slots
  omega

/-- After every run of a spool with any capacity, all slots are accounted for: no more
are taken than there are; while the worker is alive each taken slot is that of a call
between taking it and queueing its record or giving it back, of a record in the channel,
or of the record in flight; hence a call with a slot finds room in the channel and its
record is queued; a slot is only given back when one is taken; and when the worker looks
for a record in an empty channel and no call writes, every slot is free. -/
theorem slots_accounted_for (settings : SpoolSettings) {actions : List Action}
    {effects : List Effect} (h : (start settings.slots).run actions = some (s, effects)) :
    (s.capacity = settings.slots ∧ 1 ≤ s.capacity ∧ s.capacity ≤ maxCapacity) ∧
      s.pending ≤ s.capacity ∧
      (s.worker.isAlive = true →
        s.pending = s.held + s.channel.toList.length + s.worker.inFlight) ∧
      (∀ call record, s.writes.find? call = some ⟨record, .reserved⟩ →
        s.channel.toList.length < s.capacity ∧
          (s.worker.isAlive = true → ∃ u, s.step (.advance call) =
            some (u, [.queued call record, .answered call (.accepted record.length)]))) ∧
      (∀ call record, s.writes.find? call = some ⟨record, .refused⟩ → 0 < s.pending) ∧
      (s.worker = .releasing → 0 < s.pending) ∧
      (s.worker = .idle → s.channel.toList = [] → s.writes.isEmpty = true → s.pending = 0) := by
  obtain ⟨hone, hmost⟩ := slots_bounds settings
  have hcapacity : s.capacity = settings.slots := capacity_of_run h
  obtain ⟨-, hslots, -⟩ := accounted_of_run hone h
  have hsize := Channel.size_eq_length s.channel
  refine ⟨⟨hcapacity, by omega, by omega⟩, hslots.pending_le, ?_, ?_, ?_, ?_, ?_⟩
  · intro halive
    rw [← hsize]
    exact hslots.balance halive
  · intro call record hw
    have hroom := hslots.size_lt hw rfl
    exact ⟨hsize ▸ hroom, fun halive => ⟨_, (Transition.send hw halive hroom).step_eq⟩⟩
  · intro call record hw
    exact hslots.pending_pos hw rfl
  · exact hslots.pending_pos_of_releasing
  · intro hworker hempty hnone
    have hbalance := hslots.balance (by rw [hworker]; rfl)
    have hheld : s.held = 0 := Calls.count_eq_zero_of_isEmpty hnone _
    rw [hworker, hheld, hsize, hempty] at hbalance
    exact hbalance

/-- Three calls with two slots between them: the first record is in flight in a sink that
panicked, the second call has not queued its record yet, the third finds no slot. -/
def overfull : List Action :=
  [.enter 0 [1], .advance 0, .enter 1 [2], .advance 1, .enter 2 [3], .advance 2, .advance 0,
    .receive, .await, .finish (.panicked .other)]

/-- With two slots for three calls both slots are taken, and no more. -/
theorem slots_accounted_for_overfull :
    ∃ u effects, (start ({ capacity := 2 } : SpoolSettings).slots).run overfull =
        some (u, effects) ∧
      u.held = 1 ∧ u.worker.inFlight = 1 ∧ u.pending = 2 ∧ u.pending ≤ u.capacity :=
  ⟨_, _, rfl, rfl, rfl, rfl, (@slots_accounted_for _ { capacity := 2 } overfull _ rfl).2.1⟩

end Spool

end LogSpool
