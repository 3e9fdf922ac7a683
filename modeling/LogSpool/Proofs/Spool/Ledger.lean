import LogSpool.Proofs.Spool.Slots
set_option autoImplicit false

/-!
# Spools: the ledger

A ledger has one entry for each record that a call was told is taken care of, with what
became of it.  It is kept from the effects of a run alone, and refuses a count that it has
no open entry for: the worker may only count the first record that is not counted yet.

* `records_conserved` : the ledger of a run refuses nothing, its entries are the records
  of the calls that were answered, and while nothing is in between, as many of them are
  open as slots are taken.
-/

namespace LogSpool

/-- A record that a call was told is taken care of, and what became of it. -/
structure Entry where
  call : Nat
  record : Bytes
  fate : Option Fate
  deriving DecidableEq, Repr

/-- The call of an entry and what it was told. -/
def Entry.answer (e : Entry) : Nat × Nat := (e.call, e.record.length)

/-- Entries in the order of their answers. -/
abbrev Ledger := List Entry

namespace Ledger

/-- The records that are not counted yet, in order. -/
def owing (ledger : Ledger) : List Bytes :=
  (ledger.filter (·.fate.isNone)).map (·.record)

/-- The number of records that came to an end. -/
def settled (ledger : Ledger) (fate : Fate) : Nat := ledger.countP (·.fate = some fate)

/-- Count the first record that is not counted yet, which must be the given one. -/
def settle (record : Bytes) (fate : Fate) : Ledger → Option Ledger
  | [] => none
  | e :: rest =>
    match e.fate with
    | some _ => (settle record fate rest).map (e :: ·)
    | none => if e.record = record then some ({ e with fate := some fate } :: rest) else none

/-- Enter an effect into a ledger.  A call that counts its own record never queued it. -/
def post (ledger : Ledger) : Effect → Option Ledger
  | .queued call record => some (ledger ++ [⟨call, record, none⟩])
  | .counted (some call) record fate => some (ledger ++ [⟨call, record, some fate⟩])
  | .counted none record fate => ledger.settle record fate
  | _ => some ledger

/-- The ledger of some effects, if it refuses none of them. -/
def ofEffects (effects : List Effect) : Option Ledger := effects.foldlM post []

theorem ofEffects_append (before after : List Effect) :
    ofEffects (before ++ after) = (ofEffects before).bind (after.foldlM post) :=
  List.foldlM_append

theorem owing_append (before after : Ledger) :
    owing (before ++ after) = owing before ++ owing after := by
  simp [owing]

/-- Every entry is open, or has come to one of the two ends. -/
theorem length_eq (ledger : Ledger) :
    ledger.length = ledger.settled .written + ledger.settled .dropped + ledger.owing.length := by
  induction ledger with
  | nil => rfl
  | cons e rest ih =>
    obtain ⟨call, record, fate⟩ := e
    simp only [settled, owing, List.length_map] at ih ⊢
    rcases fate with - | fate
    · simp
      omega
    · cases fate <;> simp <;> omega

/-- The first record that is owed can be counted, once. -/
theorem settle_of_owing {ledger : Ledger} {record : Bytes} {rest : List Bytes}
    (h : ledger.owing = record :: rest) (fate : Fate) :
    ∃ next, ledger.settle record fate = some next ∧ next.owing = rest ∧
      next.map Entry.answer = ledger.map Entry.answer ∧
      ∀ other, next.settled other = ledger.settled other + if other = fate then 1 else 0 := by
  induction ledger with
  | nil => cases h
  | cons e entries ih =>
    obtain ⟨call, bytes, settledAs⟩ := e
    rcases settledAs with - | known
    · have howing : bytes = record ∧ owing entries = rest := by simpa [owing] using h
      obtain ⟨rfl, rfl⟩ := howing
      refine ⟨⟨call, bytes, some fate⟩ :: entries, by simp [settle], by simp [owing], rfl, ?_⟩
      intro other
      by_cases hfate : other = fate
      · subst hfate
        simp [settled]
      · have hne : fate ≠ other := fun heq => hfate heq.symm
        simp [settled, hfate, hne]
    · have howing : owing entries = record :: rest := by simpa [owing] using h
      obtain ⟨next, hsettle, hnext, hanswers, hcount⟩ := ih howing
      refine ⟨⟨call, bytes, some known⟩ :: next, by simp [settle, hsettle], ?_, ?_, ?_⟩
      · simpa [owing] using hnext
      · rw [List.map_cons, List.map_cons, hanswers]
      · intro other
        have hother := hcount other
        simp only [settled, List.countP_cons] at hother ⊢
        omega

end Ledger

/-- The record out of the channel that is not counted yet. -/
def Worker.unjudged : Worker → List Bytes
  | calling record | attempting record | judging record _ => [record]
  | _ => []

/-- The slot of a record that is counted already. -/
def Worker.unreleased : Worker → Nat
  | releasing => 1
  | _ => 0

/-- A worker is not lost between counting a record and giving its slot back. -/
theorem Worker.unreleased_of_canLose {worker : Worker} {loss : Loss}
    (h : worker.canLose loss = true) : worker.unreleased = 0 := by
  cases worker <;> cases loss <;> first | rfl | cases h

/-- An effect that no ledger notes. -/
def Effect.isSilent : Effect → Bool
  | .queued _ _ | .counted _ _ _ => false
  | .answered _ (.accepted n) => n == 0
  | _ => true

namespace Spool

/-- The calls that were answered that their record is taken care of, each with the number
of bytes.  An empty record is no record. -/
def taken (effects : List Effect) : List (Nat × Nat) :=
  effects.filterMap fun
    | .answered call (.accepted n) => if n = 0 then none else some (call, n)
    | _ => none

/-- The number of records that were counted with a fate. -/
def counts (fate : Fate) (effects : List Effect) : Nat :=
  effects.countP fun
    | .counted _ _ f => f = fate
    | _ => false

/-- The records that joined the channel, in order. -/
def queued (effects : List Effect) : List Bytes :=
  effects.filterMap fun
    | .queued _ record => some record
    | _ => none

/-- The records that the worker counted, in order, with their fates. -/
def verdicts (effects : List Effect) : List (Bytes × Fate) :=
  effects.filterMap fun
    | .counted none record fate => some (record, fate)
    | _ => none

theorem taken_append (before after : List Effect) :
    taken (before ++ after) = taken before ++ taken after :=
  List.filterMap_append

theorem counts_append (fate : Fate) (before after : List Effect) :
    counts fate (before ++ after) = counts fate before + counts fate after :=
  List.countP_append

theorem queued_append (before after : List Effect) :
    queued (before ++ after) = queued before ++ queued after :=
  List.filterMap_append

theorem verdicts_append (before after : List Effect) :
    verdicts (before ++ after) = verdicts before ++ verdicts after :=
  List.filterMap_append

theorem post_of_isSilent {e : Effect} (h : e.isSilent = true) (ledger : Ledger) :
    ledger.post e = some ledger := by
  cases e with
  | queued | counted => cases h
  | _ => rfl

theorem silent_effects {es : List Effect} (h : ∀ e ∈ es, e.isSilent = true) (ledger : Ledger) :
    es.foldlM Ledger.post ledger = some ledger ∧ taken es = [] ∧ ∀ fate, counts fate es = 0 := by
  induction es with
  | nil => exact ⟨rfl, rfl, fun _ => rfl⟩
  | cons e rest ih =>
    obtain ⟨hpost, htaken, hcounts⟩ := ih fun e he => h e (List.mem_cons_of_mem _ he)
    have hsilent := h e List.mem_cons_self
    refine ⟨?_, ?_, fun fate => ?_⟩
    · rw [List.foldlM_cons, post_of_isSilent hsilent]
      exact hpost
    · rw [taken, List.filterMap_cons]
      split
      · exact htaken
      · next heq =>
        split at heq
        · split at heq
          · cases heq
          · next hn => simp [Effect.isSilent, hn] at hsilent
        · cases heq
    · rw [counts, List.countP_cons_of_neg]
      · exact hcounts fate
      · cases e with
        | counted => cases hsilent
        | _ => exact Bool.false_ne_true

theorem silent_records {es : List Effect} (h : ∀ e ∈ es, e.isSilent = true) :
    queued es = [] ∧ verdicts es = [] := by
  constructor <;> refine List.filterMap_eq_nil_iff.mpr fun e he => ?_
  · have hsilent := h e he
    cases e with
    | queued => cases hsilent
    | _ => rfl
  · have hsilent := h e he
    cases e with
    | counted => cases hsilent
    | _ => rfl

theorem isSilent_verdictReports (s : Spool) (record : Bytes) (outcome : Outcome) :
    ∀ e ∈ s.verdictReports record outcome, e.isSilent = true := by
  intro e he
  obtain ⟨d, rfl⟩ := reported_of_mem_verdictReports he
  rfl

theorem isSilent_finishFlush (outcome : FlushOutcome) :
    ∀ e ∈ flushReports outcome ++ [.reported .exiting, .released], e.isSilent = true := by
  intro e he
  rcases List.mem_append.mp he with hreport | hend
  · obtain ⟨d, rfl⟩ := reported_of_mem_flushReports hreport
    rfl
  · simp only [List.mem_cons, List.not_mem_nil, or_false] at hend
    rcases hend with rfl | rfl <;> rfl

/-- The books of a spool at the end of a run: its ledger, and what the ledger has to do
with the slots that are taken. -/
structure Books (s : Spool) (effects : List Effect) (ledger : Ledger) : Prop where
  posted : Ledger.ofEffects effects = some ledger
  answers : ledger.map Entry.answer = taken effects
  settled : ∀ fate, ledger.settled fate = counts fate effects
  inOrder : queued effects = (verdicts effects).map (·.1) ++ ledger.owing
  pending : s.pending = s.held + ledger.owing.length + s.worker.unreleased
  owing : s.worker.isAlive = true → ledger.owing = s.worker.unjudged ++ s.channel.toList
  nonempty : ∀ call w, s.writes.find? call = some w → w.record ≠ []

namespace Books

variable {s t : Spool} {a : Action} {effects es : List Effect} {ledger : Ledger}

/-- A transition that takes the ledger to a next one. -/
theorem of_post (h : Books s effects ledger) {next : Ledger}
    (hpost : es.foldlM Ledger.post ledger = some next)
    (hanswers : next.map Entry.answer = ledger.map Entry.answer ++ taken es)
    (hsettled : ∀ fate, next.settled fate = ledger.settled fate + counts fate es)
    (horder : ledger.owing ++ queued es = (verdicts es).map (·.1) ++ next.owing)
    (hpending : t.pending = t.held + next.owing.length + t.worker.unreleased)
    (howing : t.worker.isAlive = true → next.owing = t.worker.unjudged ++ t.channel.toList)
    (hnonempty : ∀ call w, t.writes.find? call = some w → w.record ≠ []) :
    Books t (effects ++ es) next where
  posted := by rw [Ledger.ofEffects_append, h.posted, Option.bind_some, hpost]
  answers := by rw [hanswers, h.answers, taken_append]
  settled fate := by rw [hsettled, h.settled, counts_append]
  inOrder := by
    rw [queued_append, h.inOrder, List.append_assoc, horder, verdicts_append, List.map_append,
      List.append_assoc]
  pending := hpending
  owing := howing
  nonempty := hnonempty

/-- A transition that the ledger does not note. -/
theorem of_silent (h : Books s effects ledger) (hsilent : ∀ e ∈ es, e.isSilent = true)
    (hpending : t.pending + s.held + s.worker.unreleased =
      s.pending + t.held + t.worker.unreleased)
    (howing : t.worker.isAlive = true → s.worker.isAlive = true ∧
      t.worker.unjudged ++ t.channel.toList = s.worker.unjudged ++ s.channel.toList)
    (hnonempty : ∀ call w, t.writes.find? call = some w → w.record ≠ []) :
    Books t (effects ++ es) ledger := by
  obtain ⟨hpost, htaken, hcounts⟩ := silent_effects hsilent ledger
  obtain ⟨hqueued, hverdicts⟩ := silent_records hsilent
  refine h.of_post hpost ?_ (fun fate => ?_) ?_ ?_ (fun halive => ?_) hnonempty
  · rw [htaken, List.append_nil]
  · rw [hcounts, Nat.add_zero]
  · rw [hqueued, hverdicts, List.append_nil, List.map_nil, List.nil_append]
  · have hbefore := h.pending
    omega
  · obtain ⟨hbefore, heq⟩ := howing halive
    rw [h.owing hbefore, heq]

theorem nonempty_put (h : Books s effects ledger) {call : Nat} {record : Bytes}
    {phase : WritePhase} (hw : s.writes.find? call = some ⟨record, phase⟩) (next : WritePhase) :
    ∀ other w, (s.writes.put call ⟨record, next⟩).find? other = some w → w.record ≠ [] := by
  intro other w hother
  rcases Calls.find?_of_put hother with ⟨-, rfl⟩ | ⟨-, hother⟩
  · exact h.nonempty call ⟨record, phase⟩ hw
  · exact h.nonempty other w hother

theorem nonempty_remove (h : Books s effects ledger) (call : Nat) :
    ∀ other w, (s.writes.remove call).find? other = some w → w.record ≠ [] :=
  fun other w hother => h.nonempty other w (Calls.find?_of_remove hother).2

/-- A call that writes moves to another phase, and takes or gives back a slot with it. -/
theorem of_put (h : Books s effects ledger) {call : Nat} {record : Bytes}
    {phase next : WritePhase} (hw : s.writes.find? call = some ⟨record, phase⟩)
    (hwrites : t.writes = s.writes.put call ⟨record, next⟩) (hworker : t.worker = s.worker)
    (hchannel : t.channel = s.channel)
    (hsum : t.pending + phase.holdsSlot.toNat = s.pending + next.holdsSlot.toNat) :
    Books t (effects ++ []) ledger := by
  have hheld := Slots.held_put hw next hwrites
  refine h.of_silent (fun _ he => absurd he List.not_mem_nil) ?_ ?_ ?_
  · rw [hworker]
    omega
  · rw [hworker, hchannel]
    exact fun halive => ⟨halive, rfl⟩
  · rw [hwrites]
    exact h.nonempty_put hw next

theorem of_eq (h : Books s effects ledger) (hsilent : ∀ e ∈ es, e.isSilent = true)
    (hwrites : t.writes = s.writes) (hworker : t.worker = s.worker)
    (hchannel : t.channel = s.channel) (hpending : t.pending = s.pending) :
    Books t (effects ++ es) ledger := by
  have hheld : t.held = s.held := by rw [held, held, hwrites]
  refine h.of_silent hsilent ?_ ?_ ?_
  · rw [hworker, hpending, hheld]
  · rw [hworker, hchannel]
    exact fun halive => ⟨halive, rfl⟩
  · rw [hwrites]
    exact h.nonempty

/-- A step of the worker that leaves the records in order and takes or gives back the
slot of a record that is counted. -/
theorem of_worker (h : Books s effects ledger) (hsilent : ∀ e ∈ es, e.isSilent = true)
    (hwrites : t.writes = s.writes) (halive : s.worker.isAlive = true)
    (hsum : t.pending + s.worker.unreleased = s.pending + t.worker.unreleased)
    (hrecords : t.worker.isAlive = true →
      t.worker.unjudged ++ t.channel.toList = s.worker.unjudged ++ s.channel.toList) :
    Books t (effects ++ es) ledger := by
  have hheld : t.held = s.held := by rw [held, held, hwrites]
  refine h.of_silent hsilent ?_ (fun halive' => ⟨halive, hrecords halive'⟩) ?_
  · omega
  · rw [hwrites]
    exact h.nonempty

theorem of_send (h : Books s effects ledger) {call : Nat} {record : Bytes}
    (hw : s.writes.find? call = some ⟨record, .reserved⟩) (halive : s.worker.isAlive = true) :
    ∃ next, Books { s with channel := s.channel.push record, writes := s.writes.remove call }
      (effects ++ [.queued call record, .answered call (.accepted record.length)]) next := by
  have hrecord : record.length ≠ 0 := fun hnil =>
    h.nonempty call _ hw (List.length_eq_zero_iff.mp hnil)
  have hheld := Slots.held_remove
    (t := { s with channel := s.channel.push record, writes := s.writes.remove call }) hw rfl
  have hpending := h.pending
  refine ⟨ledger ++ [⟨call, record, none⟩], h.of_post rfl ?_ (fun fate => ?_) ?_ ?_ (fun _ => ?_)
    (h.nonempty_remove call)⟩
  · simp [taken, hrecord, Entry.answer]
  · simp [Ledger.settled, counts]
  · exact (Ledger.owing_append ledger [⟨call, record, none⟩]).symm
  · rw [Ledger.owing_append, List.length_append]
    simp only [WritePhase.holdsSlot, Bool.toNat_true] at hheld
    change s.pending = _ + (_ + 1) + s.worker.unreleased
    omega
  · rw [Ledger.owing_append, h.owing halive, Channel.toList_push, ← List.append_assoc]
    rfl

theorem of_countLost (h : Books s effects ledger) {call : Nat} {record : Bytes}
    (hw : s.writes.find? call = some ⟨record, .losing⟩) :
    ∃ next, Books { s with writes := s.writes.remove call }
      (effects ++ [.counted (some call) record .dropped,
        .answered call (.accepted record.length)]) next := by
  have hrecord : record.length ≠ 0 := fun hnil =>
    h.nonempty call _ hw (List.length_eq_zero_iff.mp hnil)
  have hheld := Slots.held_remove (t := { s with writes := s.writes.remove call }) hw rfl
  have hpending := h.pending
  have howes : Ledger.owing (ledger ++ [⟨call, record, some .dropped⟩]) = ledger.owing := by
    rw [Ledger.owing_append]
    exact List.append_nil _
  refine ⟨ledger ++ [⟨call, record, some .dropped⟩], h.of_post rfl ?_ (fun fate => ?_) ?_ ?_
    (fun halive => ?_) (h.nonempty_remove call)⟩
  · simp [taken, hrecord, Entry.answer]
  · cases fate <;> simp [Ledger.settled, counts]
  · rw [howes]
    exact List.append_nil _
  · rw [howes]
    change s.pending = _ + _ + s.worker.unreleased
    simp only [WritePhase.holdsSlot, Bool.toNat_false] at hheld
    omega
  · rw [howes]
    exact h.owing halive

theorem of_judge (h : Books s effects ledger) {record : Bytes} {outcome : Outcome}
    (hworker : s.worker = .judging record outcome) :
    ∃ next, Books { s with healthy := outcome.succeeds record, worker := .releasing }
      (effects ++ .counted none record (outcome.fate record) ::
        s.verdictReports record outcome) next := by
  have howes := h.owing (by rw [hworker]; rfl)
  rw [hworker] at howes
  obtain ⟨next, hsettle, hnext, hanswers, hcount⟩ :=
    Ledger.settle_of_owing howes (outcome.fate record)
  have hsilent := isSilent_verdictReports s record outcome
  obtain ⟨hpost, htaken, hcounts⟩ := silent_effects hsilent next
  obtain ⟨hqueued, hverdicts⟩ := silent_records hsilent
  have hpending := h.pending
  rw [hworker, howes] at hpending
  refine ⟨next, h.of_post ?_ ?_ (fun fate => ?_) ?_ ?_ (fun _ => hnext) h.nonempty⟩
  · rw [List.foldlM_cons]
    change (ledger.settle record (outcome.fate record)).bind _ = _
    rw [hsettle, Option.bind_some, hpost]
  · rw [hanswers]
    change _ = _ ++ taken (s.verdictReports record outcome)
    rw [htaken, List.append_nil]
  · have hcons : counts fate (.counted none record (outcome.fate record) ::
        s.verdictReports record outcome) = if fate = outcome.fate record then 1 else 0 := by
      rw [counts, List.countP_cons, ← counts, hcounts, Nat.zero_add]
      simp [eq_comm]
    rw [hcount, hcons]
  · change _ ++ queued (s.verdictReports record outcome) =
      (record :: (verdicts (s.verdictReports record outcome)).map (·.1)) ++ _
    rw [hqueued, hverdicts, howes, hnext, List.append_nil]
    rfl
  · rw [hnext]
    change s.pending = s.held + s.channel.toList.length + 1
    simp only [Worker.unjudged, Worker.unreleased, List.cons_append, List.nil_append,
      List.length_cons] at hpending
    omega

/-- Every transition of a spool that accounts for its slots keeps the books. -/
theorem preserve (h : Books s effects ledger) (hslots : Slots s) (step : Transition s a t es) :
    ∃ next, Books t (effects ++ es) next := by
  have hnone : ∀ e ∈ ([] : List Effect), e.isSilent = true := fun _ he => absurd he List.not_mem_nil
  cases step with
  | @enter call record hhandles hnew hopen hrecord =>
    refine ⟨ledger, h.of_silent hnone ?_ (fun halive => ⟨halive, rfl⟩) ?_⟩
    · have hadd := Calls.count_add hnew ⟨record, .entered⟩ (·.phase.holdsSlot)
      exact congrArg (s.pending + · + s.worker.unreleased) hadd.symm
    · intro other w hother
      rcases Calls.find?_of_add hother with ⟨-, rfl⟩ | ⟨-, hother⟩
      · exact hrecord
      · exact h.nonempty other w hother
  | reserve hw | overflow hw | refuse hw | wakeFromWrite hw =>
    exact ⟨ledger, h.of_put hw rfl rfl rfl rfl⟩
  | giveBack hw =>
    have hpos := hslots.pending_pos hw rfl
    refine ⟨ledger, h.of_put hw rfl rfl rfl ?_⟩
    have hfree : WritePhase.holdsSlot (if s.pending == 1 then .waking else .losing) = false := by
      split <;> rfl
    rw [hfree]
    simp only [WritePhase.holdsSlot, Bool.toNat_true, Bool.toNat_false]
    omega
  | send hw halive => exact h.of_send hw halive
  | countLost hw => exact h.of_countLost hw
  | judge hworker => exact h.of_judge hworker
  | receive hworker hpop =>
    refine ⟨ledger, h.of_worker (by simp [Effect.isSilent]) rfl (by rw [hworker]; rfl)
      (by rw [hworker]; rfl) fun _ => ?_⟩
    rw [hworker, Channel.toList_of_pop? hpop]
    rfl
  | awaitWrite hworker | awaitFlush hworker | finish outcome hworker | wake hworker =>
    exact ⟨ledger, h.of_worker hnone rfl (by rw [hworker]; rfl) (by rw [hworker]; rfl)
      fun _ => by rw [hworker]; rfl⟩
  | release hworker =>
    have hpos := hslots.pending_pos_of_releasing hworker
    have hfree : Worker.unreleased (if s.pending == 1 then .waking else .idle) = 0 := by
      split <;> rfl
    refine ⟨ledger, h.of_worker hnone rfl (by rw [hworker]; rfl) ?_ fun _ => ?_⟩
    · rw [hfree, hworker]
      simp only [Worker.unreleased]
      omega
    · rw [hworker]
      simp only
      split <;> rfl
  | flush hworker =>
    exact ⟨ledger, h.of_worker (by simp [Effect.isSilent]) rfl (by rw [hworker]; rfl)
      (by rw [hworker]; rfl) fun _ => by rw [hworker]; rfl⟩
  | finishFlush outcome hworker =>
    exact ⟨ledger, h.of_worker (isSilent_finishFlush outcome) rfl (by rw [hworker]; rfl)
      (by rw [hworker]; rfl) fun halive => by cases halive⟩
  | lose loss hlose =>
    refine ⟨ledger, h.of_worker (by simp [Effect.isSilent]) rfl ?_ ?_ fun halive => by cases halive⟩
    · exact Worker.isAlive_of_canLose hlose
    · change s.pending + _ = s.pending + 0
      rw [Worker.unreleased_of_canLose hlose]
  | enterClosed | enterEmpty | announce | arm | lookDrained | park | rearm | abandonWait
  | abandonDraining | abandonJoining | shutdown | pursueArming | claim | claimTaken | joinDone
  | joinLost | clone | drop | close | pursueClosing =>
    exact ⟨ledger, h.of_eq (by simp [Effect.isSilent]) rfl rfl rfl rfl⟩

end Books

/-- Where no slot is taken, nothing is owed. -/
theorem Books.owing_of_pending {s : Spool} {effects : List Effect} {ledger : Ledger}
    (h : Books s effects ledger) (hnone : s.pending = 0) : ledger.owing = [] := by
  have hpending := h.pending
  exact List.length_eq_zero_iff.mp (by omega)

theorem books_start (capacity : Nat) : Books (start capacity) [] [] :=
  ⟨rfl, rfl, fun _ => rfl, rfl, rfl, fun _ => rfl, fun _ _ hw => by cases hw⟩

theorem books_of_run {capacity : Nat} (hcapacity : 0 < capacity) {s : Spool}
    {actions : List Action} {effects : List Effect}
    (h : (start capacity).run actions = some (s, effects)) : ∃ ledger, Books s effects ledger := by
  refine run_induction (P := fun _ s effects => ∃ ledger, Books s effects ledger)
    ⟨[], books_start capacity⟩ (fun hrun ih step => ?_) h
  obtain ⟨ledger, hbooks⟩ := ih
  exact hbooks.preserve (accounted_of_run hcapacity hrun).slots step

/-- After every run of a spool with any capacity, whatever became of its worker, the
ledger has refused nothing: each record was counted at most once, with one fate.  Its
entries are the calls that were answered that their record, not an empty one, is taken
care of, and its numbers are those that were counted.  While no call writes and the worker
is not between counting a record and giving its slot back, as many records are still to be
counted as slots are taken. -/
theorem records_conserved (settings : SpoolSettings) {s : Spool} {actions : List Action}
    {effects : List Effect} (h : (start settings.slots).run actions = some (s, effects)) :
    ∃ ledger, Ledger.ofEffects effects = some ledger ∧
      ledger.map Entry.answer = taken effects ∧
      (∀ fate, ledger.settled fate = counts fate effects) ∧
      (s.writes.isEmpty = true → s.worker ≠ .releasing →
        ledger.owing.length = s.pending ∧
          (taken effects).length =
            counts .written effects + counts .dropped effects + s.pending) := by
  obtain ⟨ledger, hbooks⟩ := books_of_run (slots_bounds settings).1 h
  refine ⟨ledger, hbooks.posted, hbooks.answers, hbooks.settled, fun hquiet hworker => ?_⟩
  have howing : ledger.owing.length = s.pending := by
    have hheld : s.held = 0 := Calls.count_eq_zero_of_isEmpty hquiet _
    have hreleased : s.worker.unreleased = 0 := by
      cases hw : s.worker <;> first | rfl | exact absurd hw hworker
    rw [hbooks.pending, hheld, hreleased, Nat.zero_add, Nat.add_zero]
  refine ⟨howing, ?_⟩
  rw [← hbooks.answers, List.length_map, ledger.length_eq, hbooks.settled, hbooks.settled, howing]

/-- Records that come to every end there is: written, short, failed, panicked, without a
slot, left behind by a lost worker, in flight or queued, and refused by it.  An empty
record comes first and a record for a closed spool last. -/
def everyEnd : List Action :=
  [.enter 0 [], .enter 0 [1], .advance 0, .advance 0, .enter 0 [2], .advance 0, .advance 0,
    .enter 0 [3], .advance 0, .advance 0, .enter 0 [4], .advance 0, .advance 0,
    .receive, .await, .finish (.returned 1), .judge, .release,
    .receive, .await, .finish (.returned 0), .judge, .release,
    .receive, .await, .finish (.failed "no route"), .judge, .release, .wake,
    .enter 0 [5], .advance 0, .advance 0,
    .receive, .await, .finish (.panicked .other), .judge, .release, .wake,
    .enter 0 [6], .advance 0, .advance 0, .enter 0 [7], .advance 0, .advance 0,
    .receive, .lose (.panicked .other),
    .enter 0 [8], .advance 0, .advance 0, .advance 0, .advance 0, .close, .enter 0 [9]]

/-- Of eight records one is written, five are dropped and two stay where they are. -/
theorem records_conserved_every_end :
    ∃ s effects, (start ({ capacity := 3 } : SpoolSettings).slots).run everyEnd =
        some (s, effects) ∧
      counts .written effects = 1 ∧ counts .dropped effects = 5 ∧ s.pending = 2 ∧
      (taken effects).length = 1 + 5 + 2 ∧
      ∃ ledger, Ledger.ofEffects effects = some ledger ∧ ledger.owing.length = 2 := by
  obtain ⟨ledger, hposted, -, -, hquiet⟩ := @records_conserved { capacity := 3 } _ everyEnd _ rfl
  obtain ⟨howing, htaken⟩ := hquiet rfl nofun
  exact ⟨_, _, rfl, rfl, rfl, rfl, htaken, ledger, hposted, howing⟩

end Spool

end LogSpool
