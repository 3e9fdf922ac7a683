import LogSpool.Proofs.Spool.Ledger
set_option autoImplicit false

/-!
# Spools: what producers write

A producer makes its calls one after another, each with a record.  `entered` is what the
calls of a run started to write, `dealt` what they are done with, because the record
joined the channel or was counted as lost, and `sent` the former of these alone.
`Account` ties them: what a producer's calls are done with is what they started to write,
in the same order and byte by byte, up to the one record that may still be under way.
-/

namespace LogSpool.Spool

/-- The records that calls started to write, in order, each with its call.  An empty
record is no record. -/
def entered (actions : List Action) : List (Nat × Bytes) :=
  actions.filterMap fun
    | .enter call record => if record = [] then none else some (call, record)
    | _ => none

/-- The records that joined the channel, in order, each with its call. -/
def sent (effects : List Effect) : List (Nat × Bytes) :=
  effects.filterMap fun
    | .queued call record => some (call, record)
    | _ => none

/-- The records that their calls are done with, in order: they joined the channel, or the
call counted them as lost. -/
def dealt (effects : List Effect) : List (Nat × Bytes) :=
  effects.filterMap fun
    | .queued call record | .counted (some call) record _ => some (call, record)
    | _ => none

/-- The records of the calls that a producer makes. -/
def ofProducer (mine : Nat → Bool) (records : List (Nat × Bytes)) : List (Nat × Bytes) :=
  records.filter fun r => mine r.1

theorem entered_append (before after : List Action) :
    entered (before ++ after) = entered before ++ entered after :=
  List.filterMap_append

theorem dealt_append (before after : List Effect) :
    dealt (before ++ after) = dealt before ++ dealt after :=
  List.filterMap_append

theorem ofProducer_append (mine : Nat → Bool) (before after : List (Nat × Bytes)) :
    ofProducer mine (before ++ after) = ofProducer mine before ++ ofProducer mine after :=
  List.filter_append _ _

theorem queued_eq_map_sent (effects : List Effect) : queued effects = (sent effects).map (·.2) := by
  unfold queued sent
  rw [List.map_filterMap]
  congr 1
  funext e
  cases e <;> rfl

/-- A call is done with a record that joined the channel. -/
theorem sent_sublist_dealt (effects : List Effect) : (sent effects).Sublist (dealt effects) := by
  induction effects with
  | nil => exact List.Sublist.refl _
  | cons e rest ih =>
    cases e with
    | queued call record => exact ih.cons_cons (call, record)
    | counted call record fate =>
      cases call with
      | none => exact ih
      | some call => exact ih.cons (call, record)
    | _ => exact ih

theorem dealt_of_isSilent {es : List Effect} (h : ∀ e ∈ es, e.isSilent = true) : dealt es = [] := by
  refine List.filterMap_eq_nil_iff.mpr fun e he => ?_
  have hsilent := h e he
  cases e with
  | queued | counted => cases hsilent
  | _ => rfl

/-! ## Calls one after another -/

/-- No call that a producer makes is under way. -/
def isFreeFor (s : Spool) (mine : Nat → Bool) : Bool := s.writes.entries.all fun e => !mine e.1

theorem isFreeFor_iff (s : Spool) (mine : Nat → Bool) :
    s.isFreeFor mine = true ↔ ∀ call, mine call = true → s.writes.find? call = none := by
  constructor
  · intro hfree call hmine
    refine List.lookup_eq_none_iff.mpr fun e he => ?_
    have hother : mine e.1 = false := by simpa using List.all_eq_true.mp hfree e he
    have hne : call ≠ e.1 := by
      rintro rfl
      rw [hmine] at hother
      cases hother
    simpa using hne
  · intro hnone
    refine List.all_eq_true.mpr fun e he => ?_
    cases hmine : mine e.1 with
    | false => rfl
    | true =>
      have hself := List.lookup_eq_none_iff.mp (hnone e.1 hmine) e he
      simp at hself

/-- A step is no call of a producer that starts while another is under way. -/
def comesInTurn (s : Spool) (mine : Nat → Bool) : Action → Bool
  | .enter call _ => !mine call || s.isFreeFor mine
  | _ => true

/-- A producer, who makes the calls with some of the numbers, makes them one after another
in a run: none of them starts while another is under way. -/
def oneAtATime (mine : Nat → Bool) (s : Spool) : List Action → Bool
  | [] => true
  | a :: rest =>
    s.comesInTurn mine a &&
      match s.step a with
      | some (t, _) => oneAtATime mine t rest
      | none => true

/-- A producer makes its calls one after another in a run and a step if it does so in the
run, and the step comes in turn. -/
theorem oneAtATime_concat (mine : Nat → Bool) {first s : Spool} {actions : List Action}
    {effects : List Effect} (h : first.run actions = some (s, effects)) (a : Action) :
    oneAtATime mine first (actions ++ [a]) =
      (oneAtATime mine first actions && s.comesInTurn mine a) := by
  induction actions generalizing first effects with
  | nil =>
    cases h
    cases hstep : s.step a <;> simp [oneAtATime, hstep]
  | cons b rest ih =>
    rw [run_cons] at h
    obtain ⟨⟨t, es⟩, hstep, h⟩ := Option.bind_eq_some_iff.mp h
    obtain ⟨⟨u, more⟩, hrest, heq⟩ := Option.map_eq_some_iff.mp h
    cases heq
    simp only [List.cons_append, oneAtATime, hstep, ih hrest, Bool.and_assoc]

theorem oneAtATime_of_append {mine : Nat → Bool} {first : Spool} {before after : List Action}
    (h : oneAtATime mine first (before ++ after) = true) : oneAtATime mine first before = true := by
  induction before generalizing first with
  | nil => rfl
  | cons a rest ih =>
    simp only [List.cons_append, oneAtATime, Bool.and_eq_true] at h ⊢
    obtain ⟨hturn, hrest⟩ := h
    refine ⟨hturn, ?_⟩
    cases hstep : first.step a with
    | none => rfl
    | some r =>
      rw [hstep] at hrest
      exact ih hrest

/-- The calls with one number are made one after another, since a number is free again only
when its call has ended. -/
theorem oneAtATime_of_run {first s : Spool} {actions : List Action} {effects : List Effect}
    (h : first.run actions = some (s, effects)) (call : Nat) :
    oneAtATime (· == call) first actions = true := by
  refine run_induction (P := fun actions _ _ => oneAtATime (· == call) first actions = true) rfl
    (fun hrun ih step => ?_) h
  rw [oneAtATime_concat _ hrun, ih, Bool.true_and]
  have hsingle : ∀ {s : Spool} {other : Nat} {record : Bytes}, s.writes.find? other = none →
      s.comesInTurn (· == call) (.enter other record) = true := by
    intro s other record hnew
    simp only [comesInTurn, Bool.or_eq_true, Bool.not_eq_true', beq_eq_false_iff_ne, isFreeFor_iff,
      beq_iff_eq]
    by_cases heq : other = call
    · refine .inr ?_
      rintro third rfl
      exact heq ▸ hnew
    · exact .inl heq
  cases step with
  | enterClosed _ hnew | enterEmpty _ hnew | enter _ hnew => exact hsingle hnew
  | _ => rfl

/-! ## The account of a producer -/

/-- What a producer's calls have to do with each other at the end of a run, with the record
that is still under way. -/
structure Account (mine : Nat → Bool) (actions : List Action) (s : Spool) (effects : List Effect)
    (underWay : List (Nat × Bytes)) : Prop where
  /-- The calls are done with what they started to write, in order. -/
  inOrder : ofProducer mine (dealt effects) ++ underWay <+: ofProducer mine (entered actions)
  /-- Only a closed spool turns a record away. -/
  complete : s.closed = false →
    ofProducer mine (dealt effects) ++ underWay = ofProducer mine (entered actions)
  /-- The call under way has the record. -/
  present : ∀ call w, s.writes.find? call = some w → mine call = true → underWay = [(call, w.record)]
  /-- Without a call under way there is no record. -/
  absent : (∀ call, mine call = true → s.writes.find? call = none) → underWay = []

namespace Account

variable {mine : Nat → Bool} {s t : Spool} {a : Action} {actions : List Action}
  {effects es : List Effect} {underWay : List (Nat × Bytes)}

theorem of_eq (h : Account mine actions s effects underWay) (hentered : entered [a] = [])
    (hdealt : dealt es = []) (hwrites : t.writes = s.writes)
    (hclosed : t.closed = false → s.closed = false) :
    Account mine (actions ++ [a]) t (effects ++ es) underWay where
  inOrder := by
    rw [dealt_append, hdealt, List.append_nil, entered_append, hentered, List.append_nil]
    exact h.inOrder
  complete hopen := by
    rw [dealt_append, hdealt, List.append_nil, entered_append, hentered, List.append_nil]
    exact h.complete (hclosed hopen)
  present := hwrites ▸ h.present
  absent := hwrites ▸ h.absent

theorem of_closed (h : Account mine actions s effects underWay) (hdealt : dealt es = [])
    (hclosed : s.closed = true) : Account mine (actions ++ [a]) s (effects ++ es) underWay where
  inOrder := by
    rw [dealt_append, hdealt, List.append_nil, entered_append, ofProducer_append]
    exact h.inOrder.trans (List.prefix_append _ _)
  complete hopen := by
    rw [hclosed] at hopen
    cases hopen
  present := h.present
  absent := h.absent

theorem of_enter (h : Account mine actions s effects underWay) {call : Nat} {record : Bytes}
    (hopen : s.closed = false) (hrecord : record ≠ [])
    (hturn : s.comesInTurn mine (.enter call record) = true) :
    ∃ next, Account mine (actions ++ [.enter call record])
      { s with writes := s.writes.add call ⟨record, .entered⟩ } (effects ++ []) next := by
  have hentered : entered [.enter call record] = [(call, record)] := by simp [entered, hrecord]
  have hcomplete := h.complete hopen
  cases hmine : mine call with
  | true =>
    have hfree : ∀ other, mine other = true → s.writes.find? other = none := by
      rw [← isFreeFor_iff]
      simpa [comesInTurn, hmine] using hturn
    rw [h.absent hfree, List.append_nil] at hcomplete
    have hnext : ofProducer mine (dealt effects) ++ [(call, record)] =
        ofProducer mine (entered (actions ++ [.enter call record])) := by
      rw [entered_append, ofProducer_append, hentered, hcomplete]
      simp [ofProducer, hmine]
    rw [List.append_nil]
    refine ⟨[(call, record)], ⟨[], ?_⟩, fun _ => hnext, fun other w hw hother => ?_, fun hgone => ?_⟩
    · rw [List.append_nil, hnext]
    · rcases Calls.find?_of_add hw with ⟨rfl, rfl⟩ | ⟨-, hbefore⟩
      · rfl
      · rw [hfree other hother] at hbefore
        cases hbefore
    · have hself := hgone call hmine
      simp at hself
  | false =>
    have hnext : ofProducer mine (dealt effects) ++ underWay =
        ofProducer mine (entered (actions ++ [.enter call record])) := by
      rw [entered_append, ofProducer_append, hentered, hcomplete]
      simp [ofProducer, hmine]
    have hother : ∀ {other : Nat}, mine other = true → other ≠ call := by
      rintro other hmine' rfl
      rw [hmine] at hmine'
      cases hmine'
    rw [List.append_nil]
    refine ⟨underWay, ⟨[], ?_⟩, fun _ => hnext, fun other w hw hmine' => ?_, fun hgone => ?_⟩
    · rw [List.append_nil, hnext]
    · rw [Calls.find?_add_of_ne _ (hother hmine')] at hw
      exact h.present other w hw hmine'
    · refine h.absent fun other hmine' => ?_
      have hnone := hgone other hmine'
      rwa [Calls.find?_add_of_ne _ (hother hmine')] at hnone

/-- A call that writes moves to another phase, with the same record. -/
theorem of_put (h : Account mine actions s effects underWay) {call : Nat} {record : Bytes}
    {phase next : WritePhase} (hw : s.writes.find? call = some ⟨record, phase⟩)
    (hwrites : t.writes = s.writes.put call ⟨record, next⟩) (hclosed : t.closed = s.closed) :
    Account mine (actions ++ [.advance call]) t (effects ++ []) underWay := by
  have hentered : entered [.advance call] = [] := rfl
  rw [List.append_nil]
  refine ⟨?_, fun hopen => ?_, fun other w hother hmine => ?_, fun hgone => ?_⟩
  · rw [entered_append, hentered, List.append_nil]
    exact h.inOrder
  · rw [entered_append, hentered, List.append_nil]
    exact h.complete (hclosed ▸ hopen)
  · rw [hwrites] at hother
    rcases Calls.find?_of_put hother with ⟨rfl, rfl⟩ | ⟨-, hbefore⟩
    · exact h.present other ⟨record, phase⟩ hw hmine
    · exact h.present other w hbefore hmine
  · refine h.absent fun other hmine => ?_
    have hnone := hgone other hmine
    rw [hwrites, Calls.find?_put] at hnone
    split at hnone
    · exact Option.map_eq_none_iff.mp hnone
    · exact hnone

/-- A call is done with its record. -/
theorem of_done (h : Account mine actions s effects underWay) {call : Nat} {record : Bytes}
    {phase : WritePhase} (hw : s.writes.find? call = some ⟨record, phase⟩)
    (hwrites : t.writes = s.writes.remove call) (hclosed : t.closed = s.closed)
    (hdealt : dealt es = [(call, record)]) :
    ∃ next, Account mine (actions ++ [.advance call]) t (effects ++ es) next := by
  have hentered : entered [.advance call] = [] := rfl
  cases hmine : mine call with
  | true =>
    have hnow := h.present call _ hw hmine
    have hsame : ofProducer mine (dealt (effects ++ es)) ++ [] =
        ofProducer mine (dealt effects) ++ underWay := by
      rw [List.append_nil, dealt_append, ofProducer_append, hdealt, hnow]
      simp [ofProducer, hmine]
    refine ⟨[], ?_, fun hopen => ?_, fun other w hother hmine' => ?_, fun _ => rfl⟩
    · rw [hsame, entered_append, hentered, List.append_nil]
      exact h.inOrder
    · rw [hsame, entered_append, hentered, List.append_nil]
      exact h.complete (hclosed ▸ hopen)
    · -- A second call of the producer would have been under way at the same time.
      rw [hwrites] at hother
      obtain ⟨hne, hbefore⟩ := Calls.find?_of_remove hother
      have hboth := h.present other w hbefore hmine'
      rw [hnow] at hboth
      simp only [List.cons.injEq, Prod.mk.injEq, and_true] at hboth
      exact absurd hboth.1.symm hne
  | false =>
    have hsame : ofProducer mine (dealt (effects ++ es)) = ofProducer mine (dealt effects) := by
      rw [dealt_append, ofProducer_append, hdealt]
      simp [ofProducer, hmine]
    refine ⟨underWay, ?_, fun hopen => ?_, fun other w hother hmine' => ?_, fun hgone => ?_⟩
    · rw [hsame, entered_append, hentered, List.append_nil]
      exact h.inOrder
    · rw [hsame, entered_append, hentered, List.append_nil]
      exact h.complete (hclosed ▸ hopen)
    · rw [hwrites] at hother
      exact h.present other w (Calls.find?_of_remove hother).2 hmine'
    · refine h.absent fun other hmine' => ?_
      have hnone := hgone other hmine'
      rw [hwrites, Calls.find?_remove] at hnone
      split at hnone
      · next heq =>
        rw [heq, hmine] at hmine'
        cases hmine'
      · exact hnone

/-- Every transition keeps the account of a producer that makes one call at a time. -/
theorem preserve (h : Account mine actions s effects underWay)
    (hturn : s.comesInTurn mine a = true) (step : Transition s a t es) :
    ∃ next, Account mine (actions ++ [a]) t (effects ++ es) next := by
  cases step with
  | enterClosed hhandles hnew hclosed => exact ⟨underWay, h.of_closed rfl hclosed⟩
  | enter hhandles hnew hopen hrecord => exact h.of_enter hopen hrecord hturn
  | reserve hw | overflow hw | refuse hw | giveBack hw | wakeFromWrite hw =>
    exact ⟨underWay, h.of_put hw rfl rfl⟩
  | send hw | countLost hw => exact h.of_done hw rfl rfl rfl
  | close | pursueClosing => exact ⟨underWay, h.of_eq rfl rfl rfl nofun⟩
  | @judge record outcome hworker =>
    have hdealt := dealt_of_isSilent (isSilent_verdictReports s record outcome)
    exact ⟨underWay, h.of_eq rfl hdealt rfl id⟩
  | finishFlush outcome hworker =>
    refine ⟨underWay, h.of_eq rfl ?_ rfl id⟩
    cases outcome <;> rfl
  | _ => exact ⟨underWay, h.of_eq rfl rfl rfl id⟩

end Account

theorem account_of_run {capacity : Nat} {s : Spool} {actions : List Action}
    {effects : List Effect} (h : (start capacity).run actions = some (s, effects))
    {mine : Nat → Bool} (hturns : oneAtATime mine (start capacity) actions = true) :
    ∃ underWay, Account mine actions s effects underWay := by
  refine run_induction (P := fun actions s effects => oneAtATime mine (start capacity) actions = true →
    ∃ underWay, Account mine actions s effects underWay) (fun _ => ?_) (fun hrun ih step hturns => ?_)
    h hturns
  · exact ⟨[], List.prefix_refl _, fun _ => rfl, fun _ _ hw => (by cases hw), fun _ => rfl⟩
  · rw [oneAtATime_concat _ hrun, Bool.and_eq_true] at hturns
    obtain ⟨underWay, haccount⟩ := ih hturns.1
    exact haccount.preserve hturns.2 step

end LogSpool.Spool
