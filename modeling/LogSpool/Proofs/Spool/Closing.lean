import LogSpool.Proofs.Spool.Producers
import LogSpool.Proofs.Spool.Shutdown
set_option autoImplicit false

/-!
# Spools: closing

A spool is closed between two calls that write, never within one, and for good.  `Waning`
says what is left of a closed spool: what stands in its channel goes to the sink, and
nothing is added.  `Announcing` counts the reports of the closing, of which there is one,
by the call that closed the spool first.

* `close_is_final` : whoever closes a spool finds every record dealt with that a call had
  started to write, every later call is turned away without a trace, and the sink is
  asked to write no more than what stood in the channel.
-/

namespace LogSpool.Spool

variable {s t u : Spool} {a : Action} {actions : List Action} {effects es more : List Effect}

/-! ## What is told of a closing -/

/-- The numbers of slots that were taken when the closing was reported. -/
def closings (effects : List Effect) : List Nat :=
  effects.filterMap fun
    | .reported (.closed pending) => some pending
    | _ => none

theorem closings_append (before after : List Effect) :
    closings (before ++ after) = closings before ++ closings after :=
  List.filterMap_append

theorem answers_judge (s : Spool) (record : Bytes) (outcome : Outcome) :
    closings (.counted none record (outcome.fate record) :: s.verdictReports record outcome) = [] ∧
      ∀ call reply, .answered call reply ∉
        .counted none record (outcome.fate record) :: s.verdictReports record outcome := by
  refine ⟨?_, by simp [not_mem_verdictReports]⟩
  unfold verdictReports
  split <;> split <;> rfl

theorem answers_finishFlush (outcome : FlushOutcome) :
    closings (flushReports outcome ++ [.reported .exiting, .released]) = [] ∧
      ∀ call reply, .answered call reply ∉ flushReports outcome ++ [.reported .exiting, .released] := by
  refine ⟨?_, by simp [not_mem_flushReports]⟩
  cases outcome <;> rfl

/-! ## What a closed spool can still do -/

/-- A closed spool has gone on to another state: no record was added, and whoever wanted
to write one was told that the spool is closed. -/
structure Waning (s t : Spool) (effects : List Effect) : Prop where
  closed : t.closed = true
  pending : t.pending ≤ s.pending
  dealt : dealt effects = []
  answers : ∀ call reply, .answered call reply ∈ effects → reply = .closed
  /-- The sink takes records from the start of the channel, and a lost worker takes the
  channel with it. -/
  records : attempts effects ++ t.channel.toList <+: s.channel.toList

namespace Waning

theorem refl (hclosed : s.closed = true) : Waning s s [] :=
  ⟨hclosed, Nat.le_refl _, rfl, nofun, List.prefix_refl _⟩

theorem trans (h : Waning s t effects) (hmore : Waning t u more) : Waning s u (effects ++ more) where
  closed := hmore.closed
  pending := Nat.le_trans hmore.pending h.pending
  dealt := by rw [dealt_append, h.dealt, hmore.dealt, List.append_nil]
  answers call reply hanswer := by
    rcases List.mem_append.mp hanswer with hfirst | hlast
    · exact h.answers call reply hfirst
    · exact hmore.answers call reply hlast
  records := by
    rw [attempts_append, List.append_assoc]
    exact ((List.prefix_append_right_inj _).mpr hmore.records).trans h.records

/-- A step that tells of no record and leaves the channel and the slots as they are. -/
theorem of_eq (hclosed : t.closed = true) (hdealt : Spool.dealt es = [])
    (hattempts : attempts es = []) (hanswers : ∀ call reply, .answered call reply ∉ es)
    (hpending : t.pending = s.pending) (hchannel : t.channel = s.channel) : Waning s t es where
  closed := hclosed
  pending := Nat.le_of_eq hpending
  dealt := hdealt
  answers call reply hanswer := absurd hanswer (hanswers call reply)
  records := by rw [hattempts, hchannel]; exact List.prefix_refl _

theorem of_transition (hseal : Sealing s) (hclosed : s.closed = true)
    (step : Transition s a t es) : Waning s t es := by
  have hwriting : ∀ {call : Nat} {w : WriteCall}, s.writes.find? call = some w → False := by
    intro call w hw
    rw [hseal.closed_eq_false hw] at hclosed
    cases hclosed
  have hopen : s.closed = false → False := fun hopen => by
    rw [hopen] at hclosed
    cases hclosed
  cases step with
  | enterClosed =>
    refine ⟨hclosed, Nat.le_refl _, rfl, fun call reply hanswer => ?_, List.prefix_refl _⟩
    cases List.mem_singleton.mp hanswer
    rfl
  | enterEmpty hhandles hnew hstill | enter hhandles hnew hstill => exact (hopen hstill).elim
  | reserve hw | overflow hw | send hw | refuse hw | giveBack hw | wakeFromWrite hw
  | countLost hw => exact (hwriting hw).elim
  | receive hworker hpop =>
    refine ⟨hclosed, Nat.le_refl _, rfl, fun call reply hanswer => ?_, ?_⟩
    · cases List.mem_singleton.mp hanswer
    · rw [Channel.toList_of_pop? hpop]
      exact List.prefix_refl _
  | release => exact ⟨hclosed, Nat.sub_le _ _, rfl, nofun, List.prefix_refl _⟩
  | lose =>
    refine ⟨hclosed, Nat.le_refl _, rfl, fun call reply hanswer => ?_, List.nil_prefix⟩
    cases List.mem_singleton.mp hanswer
  | @judge record outcome =>
    have hdealt := dealt_of_isSilent (isSilent_verdictReports s record outcome)
    exact .of_eq hclosed hdealt (records_judge s record outcome).1
      (answers_judge s record outcome).2 rfl rfl
  | finishFlush outcome =>
    refine .of_eq hclosed ?_ (records_finishFlush outcome).1 (answers_finishFlush outcome).2 rfl rfl
    cases outcome <;> rfl
  | close | pursueClosing => exact .of_eq rfl rfl rfl nofun rfl rfl
  | _ => exact .of_eq hclosed rfl rfl (by simp) rfl rfl

end Waning

theorem waning_of_run (hseal : Sealing s) (hclosed : s.closed = true)
    (h : s.run actions = some (t, effects)) : Waning s t effects := by
  have hboth := run_induction (P := fun _ t effects => Sealing t ∧ Waning s t effects)
    ⟨hseal, .refl hclosed⟩
    (fun _ ih step => ⟨ih.1.preserve step, ih.2.trans (.of_transition ih.1 ih.2.closed step)⟩) h
  exact hboth.2

/-- From one instant of a closed spool to a later one the number of slots taken does not
grow. -/
theorem pending_le_of_later (hseal : Sealing s) (hclosed : s.closed = true)
    {mid rest : List Action} {first : List Effect} (hmid : s.run mid = some (t, first))
    (h : s.run (mid ++ rest) = some (u, more)) : u.pending ≤ t.pending := by
  obtain ⟨last, hrest⟩ := run_rest hmid h
  have hbetween := waning_of_run hseal hclosed hmid
  have hsealing := run_invariant Sealing.preserve hmid hseal
  exact (waning_of_run hsealing hbetween.closed hrest).pending

/-! ## The report of the closing -/

/-- The closing is reported once, if the spool is closed, or still to be reported. -/
structure Announcing (s : Spool) (effects : List Effect) : Prop where
  once : (closings effects).length + s.announcing.toNat = s.closed.toNat
  open_untold : s.closed = false → ∀ call, .answered call .closed ∉ effects

namespace Announcing

theorem of_eq (h : Announcing s effects) (hreports : closings es = [])
    (hannouncing : t.announcing = s.announcing) (hclosed : t.closed = s.closed)
    (hanswers : s.closed = false → ∀ call, .answered call .closed ∉ es) :
    Announcing t (effects ++ es) where
  once := by rw [closings_append, hreports, List.append_nil, hannouncing, hclosed, h.once]
  open_untold hopen call hanswer := by
    rw [hclosed] at hopen
    rcases List.mem_append.mp hanswer with hfirst | hlast
    · exact h.open_untold hopen call hfirst
    · exact hanswers hopen call hlast

/-- The spool is closed: the first time, that is still to be reported. -/
theorem of_close (h : Announcing s effects) (hannouncing : t.announcing = s.close.announcing)
    (hclosed : t.closed = true) : Announcing t (effects ++ []) where
  once := by
    have honce := h.once
    rw [List.append_nil, hannouncing, hclosed]
    cases hbefore : s.closed <;> cases hstill : s.announcing <;>
      simp [hbefore, hstill, Spool.close] at honce ⊢ <;> exact honce
  open_untold hopen := by
    rw [hclosed] at hopen
    cases hopen

theorem preserve (h : Announcing s effects) (step : Transition s a t es) :
    Announcing t (effects ++ es) := by
  cases step with
  | close | pursueClosing => exact h.of_close rfl rfl
  | announce hannouncing =>
    have honce := h.once
    rw [hannouncing] at honce
    refine ⟨?_, fun hopen => ?_⟩
    · rw [closings_append, List.length_append]
      exact honce
    · have hstill : s.closed = false := hopen
      rw [hstill] at honce
      simp at honce
  | enterClosed hhandles hnew hclosed =>
    refine h.of_eq rfl rfl rfl fun hopen => ?_
    rw [hclosed] at hopen
    cases hopen
  | @judge record outcome =>
    obtain ⟨hreports, hanswers⟩ := answers_judge s record outcome
    exact h.of_eq hreports rfl rfl fun _ call => hanswers call .closed
  | finishFlush outcome =>
    obtain ⟨hreports, hanswers⟩ := answers_finishFlush outcome
    exact h.of_eq hreports rfl rfl fun _ call => hanswers call .closed
  | _ => exact h.of_eq rfl rfl rfl (by simp)

end Announcing

theorem announcing_of_run {capacity : Nat} (h : (start capacity).run actions = some (s, effects)) :
    Announcing s effects :=
  run_induction (P := fun _ s effects => Announcing s effects) ⟨rfl, fun _ _ => nofun⟩
    (fun _ ih step => ih.preserve step) h

/-- A run reports the closing with the number of slots taken at that instant, and never
again. -/
theorem closings_of_announce {capacity : Nat} {first rest : List Action}
    (h : (start capacity).run (first ++ .announce :: rest) = some (u, effects)) :
    ∃ s before, (start capacity).run first = some (s, before) ∧ s.closed = true ∧
      closings effects = [s.pending] := by
  obtain ⟨s, t, before, es, after, hfirst, step, hrest, rfl⟩ := run_split h
  have honce := (announcing_of_run h).once
  have hmost : u.closed.toNat ≤ 1 := Bool.toNat_le _
  have hbefore := (announcing_of_run hfirst).once
  cases step with
  | announce hannouncing =>
    rw [hannouncing] at hbefore
    rw [closings_append, closings_append, List.length_append, List.length_append] at honce
    have hone : closings [.reported (.closed s.pending)] = [s.pending] := rfl
    rw [hone] at honce
    simp only [Bool.toNat_true, List.length_singleton] at hbefore honce
    have hclosed : s.closed = true := by
      cases hclosed : s.closed with
      | true => rfl
      | false =>
        rw [hclosed] at hbefore
        simp at hbefore
    have hfirst' : closings before = [] := List.length_eq_zero_iff.mp (by omega)
    have hafter : closings after = [] := List.length_eq_zero_iff.mp (by omega)
    refine ⟨s, before, hfirst, hclosed, ?_⟩
    rw [closings_append, closings_append, hfirst', hafter, hone]
    rfl

/-! ## The step that closes a spool -/

/-- A step closes a spool: of its own, or as the first step of a call that shuts the spool
down. -/
def Closes (s : Spool) (a : Action) : Prop :=
  a = .close ∨ ∃ call, a = .pursue call ∧ s.shutdowns.find? call = some .closing

/-- The step that closes a spool needs that no call writes.  It tells of nothing, and the
records, the slots and the health of the sink are what they were. -/
theorem close_of_closes (hcloses : Closes s a) (step : Transition s a t es) :
    es = [] ∧ s.writes.isEmpty = true ∧ t.closed = true ∧ t.writes = s.writes ∧
      t.pending = s.pending ∧ t.channel = s.channel ∧ t.healthy = s.healthy := by
  rcases hcloses with rfl | ⟨call, rfl, hclosing⟩
  · cases step with
    | close hhandles hwrites => exact ⟨rfl, hwrites, rfl, rfl, rfl, rfl, rfl⟩
  · cases step with
    | pursueClosing hphase hwrites => exact ⟨rfl, hwrites, rfl, rfl, rfl, rfl, rfl⟩
    | pursueArming hphase | claim hphase | claimTaken hphase | joinDone hphase
    | joinLost hphase =>
      rw [hclosing] at hphase
      cases hphase

/-- Where an open spool has no call that writes, each call is done with every record that it
started to write. -/
theorem dealt_eq_entered {capacity : Nat} (h : (start capacity).run actions = some (s, effects))
    (hopen : s.closed = false) (hwrites : s.writes.isEmpty = true) (call : Nat) :
    ofProducer (· == call) (dealt effects) = ofProducer (· == call) (entered actions) := by
  obtain ⟨underWay, account⟩ := account_of_run h (oneAtATime_of_run h call)
  have hnone : underWay = [] :=
    account.absent fun other _ => Calls.isEmpty_iff.mp hwrites other
  have hcomplete := account.complete hopen
  rwa [hnone, List.append_nil] at hcomplete

/-- Whenever a step closes a spool, by itself or for a call that shuts the spool down, and
whatever happens before and after:

* no call is between its start and its end, and the step itself tells of nothing and leaves
  the records, the slots and the health as they are;
* if the spool was open, every call is done with what it started to write, queued or counted
  as lost, and none was turned away;
* the spool stays closed, and every later call, whatever its record, is answered at once that
  it is, and the spool is as before;
* no record is queued or counted as lost by a call any more, the number of slots taken
  never grows again, and what the sink is asked to write from then on is the start of what
  stood in the channel;
* of any number of closings one is reported, once, with the number of slots taken at that
  instant. -/
theorem close_is_final (settings : SpoolSettings) {before after : List Action}
    (h : (start settings.slots).run before = some (s, effects)) (hcloses : Closes s a)
    (hstep : s.step a = some (t, es)) (hafter : t.run after = some (u, more)) :
    (es = [] ∧ s.writes.isEmpty = true ∧ t.writes = s.writes ∧ t.pending = s.pending ∧
      t.channel = s.channel ∧ t.healthy = s.healthy) ∧
    (s.closed = false →
      (∀ call, ofProducer (· == call) (dealt effects) = ofProducer (· == call) (entered before)) ∧
      ∀ call, .answered call .closed ∉ effects) ∧
    (u.closed = true ∧ u.writes.isEmpty = true ∧
      (∀ call record, 0 < u.handles →
        u.step (.enter call record) = some (u, [.answered call .closed])) ∧
      ∀ call reply, .answered call reply ∈ more → reply = .closed) ∧
    (dealt more = [] ∧
      (∀ mid rest v effects', after = mid ++ rest → t.run mid = some (v, effects') →
        u.pending ≤ v.pending) ∧
      attempts more ++ u.channel.toList <+: t.channel.toList ∧
      (attempts more).length ≤ t.channel.toList.length) ∧
    ((closings (effects ++ es ++ more)).length + u.announcing.toNat = 1 ∧
      ∀ first rest, before ++ a :: after = first ++ .announce :: rest →
        ∃ v effects', (start settings.slots).run first = some (v, effects') ∧ v.closed = true ∧
          closings (effects ++ es ++ more) = [v.pending]) := by
  have hone := (slots_bounds settings).1
  have step := Transition.of_step hstep
  have hseal := (accounted_of_run hone h).sealing
  have hseal' := hseal.preserve step
  obtain ⟨hnothing, hwrites, hclosed, hsame⟩ := close_of_closes hcloses step
  have hwaning := waning_of_run hseal' hclosed hafter
  have hquiet : u.writes.isEmpty = true :=
    (run_invariant Sealing.preserve hafter hseal').no_writes hwaning.closed
  have hall := run_join h step hafter
  refine ⟨⟨hnothing, hwrites, hsame⟩, fun hopen => ?_, ⟨hwaning.closed, hquiet, ?_,
    hwaning.answers⟩, ⟨hwaning.dealt, ?_, hwaning.records, ?_⟩, ?_, ?_⟩
  · exact ⟨dealt_eq_entered h hopen hwrites, (announcing_of_run h).open_untold hopen⟩
  · intro call record hhandles
    have hnew := Calls.isEmpty_iff.mp hquiet call
    exact (Transition.enterClosed hhandles hnew hwaning.closed).step_eq
  · rintro mid rest v effects' rfl hmid
    exact pending_le_of_later hseal' hclosed hmid hafter
  · have hlength := hwaning.records.length_le
    rw [List.length_append] at hlength
    omega
  · rw [(announcing_of_run hall).once, hwaning.closed]
    rfl
  · intro first rest heq
    rw [heq] at hall
    exact closings_of_announce hall

/-- Two calls write at the same time; the second gets the last slot, and a third finds none.
They are done before the spool is closed. -/
def raced : List Action :=
  [.enter 0 [1], .advance 0, .advance 0, .enter 1 [2], .enter 2 [3], .advance 1, .advance 2,
    .advance 1, .advance 2, .shutdown 7]

/-- What happens once it is closed: two more closings, a record, an empty one, and the first
of the two records in the channel is written before the closing is reported. -/
def aftermath : List Action :=
  [.pursue 7, .enter 3 [4], .receive, .await, .finish (.returned 1), .judge, .release, .announce,
    .close, .enter 0 [], .receive, .await]

/-- Two records were queued and one was lost before the spool was closed.  The closing is
reported once, with the one slot that is still taken, and the sink is asked to write both
records and no other. -/
theorem close_is_final_raced :
    ∃ s t u effects more, (start ({ capacity := 2 } : SpoolSettings).slots).run raced =
        some (s, effects) ∧ s.closed = false ∧ Closes s .close ∧ s.step .close = some (t, []) ∧
      t.run aftermath = some (u, more) ∧
      ofProducer (· == 2) (dealt effects) = [(2, [3])] ∧ attempts more = [[1], [2]] ∧
      t.channel.toList.length = 2 ∧ u.pending ≤ t.pending ∧
      (∀ call reply, .answered call reply ∈ more → reply = .closed) ∧
      u.step (.enter 9 []) = some (u, [.answered 9 .closed]) ∧
      closings (effects ++ [] ++ more) = [1] := by
  have hclosing := @close_is_final _ _ _ .close _ [] _ { capacity := 2 } raced aftermath rfl (.inl rfl)
    rfl rfl
  obtain ⟨-, hdealt, ⟨-, -, hturned, hanswers⟩, ⟨-, hpending, -, -⟩, -, hreport⟩ := hclosing
  refine ⟨_, _, _, _, _, rfl, rfl, .inl rfl, rfl, rfl, (hdealt rfl).1 2, rfl, rfl,
    hpending [] aftermath _ _ rfl rfl, hanswers, hturned 9 [] (by decide), ?_⟩
  have hannounced := hreport (raced ++ .close :: aftermath.take 7) (aftermath.drop 8) rfl
  obtain ⟨v, effects', hrun, -, heq⟩ := hannounced
  have hone : ((start ({ capacity := 2 } : SpoolSettings).slots).run
      (raced ++ .close :: aftermath.take 7)).map (·.1.pending) = some 1 := rfl
  rw [hrun, Option.map_some] at hone
  have htaken : v.pending = 1 := Option.some.inj hone
  exact heq.trans (congrArg (fun pending => [pending]) htaken)

end LogSpool.Spool
