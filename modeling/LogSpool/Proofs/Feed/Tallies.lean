import Mathlib.Algebra.BigOperators.Group.Finset.Piecewise
import LogSpool.Proofs.Feed.Run
set_option autoImplicit false

/-!
# Feeds: tallies

What the recorders of a feed have counted, beside what a run shows: the events they were shown,
the lines that reached a spool, and the records that the spools are done with.  `Tallied` says it
of every recorder and `Dealt` of every spool; both count the lines on their way as well, so that
they hold at every instant.

How often a recorder counts something is a number of the run, `tallies`, and balances are about
such numbers.  Its counters wrap around: they say these numbers modulo 2^64 (`Tally.Reads`).
-/

namespace LogSpool

/-- The line has not been handed over yet. -/
@[simp] def HandoverPhase.isBuilt : HandoverPhase → Bool
  | built => true
  | _ => false

/-- The spool was told that it is taken care of. -/
@[simp] def HandoverPhase.isAccepted : HandoverPhase → Bool
  | answered (.accepted _) => true
  | _ => false

/-- The spool was open for it. -/
@[simp] def HandoverPhase.isAdmitted : HandoverPhase → Bool
  | writing => true
  | phase => phase.isAccepted

/-- The spool was closed. -/
@[simp] def HandoverPhase.isRefused : HandoverPhase → Bool
  | answered .closed => true
  | _ => false

/-- The line comes from a recorder, and has come so far. -/
def Handover.isFrom (k : Nat) (p : HandoverPhase → Bool) (h : Handover) : Bool :=
  h.source == k && p h.phase

/-- The line goes to a spool, and has come so far. -/
def Handover.isFor (i : Nat) (p : HandoverPhase → Bool) (h : Handover) : Bool :=
  h.spool == i && p h.phase

/-- The line comes from a recorder and was, or was not, in time. -/
def Arrival.isFrom (k : Nat) (inTime : Bool) (a : Arrival) : Bool := a.source == k && a.isOpen == inTime

/-- The line reached a spool that was open. -/
def Arrival.isFor (i : Nat) (a : Arrival) : Bool := a.spool == i && a.isOpen

/-- The counters of a recorder read these numbers, as far as 64 bits go. -/
structure Tally.Reads (t : Tally) (total encoded rejected : Nat) : Prop where
  total : t.total = total % UInt64.size
  encoded : t.encoded = encoded % UInt64.size
  rejected : t.rejected = rejected % UInt64.size

namespace Tally

variable {t : Tally} {total encoded rejected rest : Nat}

theorem toNat_add_one {c : UInt64} {n : Nat} (h : c.toNat = n % UInt64.size) :
    (c + 1).toNat = (n + 1) % UInt64.size := by
  rw [UInt64.toNat_add, h]
  exact Nat.mod_add_mod n UInt64.size 1

/-- Numbers that balance make counters that balance, as far as 64 bits go. -/
theorem Reads.balance (h : t.Reads total encoded rejected)
    (hnumbers : total = encoded + rejected + rest) :
    t.total = (t.encoded + t.rejected + rest) % UInt64.size := by
  have hsum : (encoded % UInt64.size + rejected % UInt64.size) % UInt64.size =
      (encoded + rejected) % UInt64.size := (Nat.add_mod ..).symm
  rw [h.total, h.encoded, h.rejected, hnumbers, ← Nat.mod_add_mod (encoded + rejected), ← hsum,
    Nat.mod_add_mod]

theorem Reads.exact (h : t.Reads total encoded rejected)
    (hnumbers : total = encoded + rejected + rest) (hsmall : total < UInt64.size) :
    t.total = total ∧ t.encoded = encoded ∧ t.rejected = rejected := by
  have hencoded : encoded < UInt64.size := by omega
  have hrejected : rejected < UInt64.size := by omega
  exact ⟨h.total.trans (Nat.mod_eq_of_lt hsmall), h.encoded.trans (Nat.mod_eq_of_lt hencoded),
    h.rejected.trans (Nat.mod_eq_of_lt hrejected)⟩

end Tally

namespace Recorder

variable {r : Recorder} {total encoded rejected : Nat}

theorem reads_see (h : r.tally.Reads total encoded rejected) :
    r.see.tally.Reads (total + 1) encoded rejected :=
  ⟨Tally.toNat_add_one h.total, h.encoded, h.rejected⟩

theorem reads_offer (h : r.tally.Reads total encoded rejected) (taken : Bool) :
    (r.offer taken).tally.Reads total (encoded + taken.toNat) (rejected + (!taken).toNat) := by
  cases taken with
  | true => exact ⟨h.total, Tally.toNat_add_one h.encoded, h.rejected⟩
  | false => exact ⟨h.total, h.encoded, Tally.toNat_add_one h.rejected⟩

end Recorder

namespace Feed

open HandoverPhase (isBuilt isAccepted isAdmitted isRefused)

variable {settings : List SpoolSettings} {sources : List Source} {s t : Feed} {a : FeedAction}
  {actions : List FeedAction} {effects es : List FeedEffect}

/-! ## What a run shows -/

/-- The events that a recorder was shown, in order: those of the application, and what spools
reported. -/
def shownTo (k : Nat) (effects : List FeedEffect) : List Event :=
  effects.filterMap fun
    | .shown j e _ => if j = k then some e else none
    | .relayed j d => if j = k then some d.event else none
    | _ => none

/-- The events of the application that a recorder was shown, in order, with their times. -/
def applicationEvents (k : Nat) (effects : List FeedEffect) : List (Event × Time.Stamp) :=
  effects.filterMap fun
    | .shown j e time => if j = k then some (e, time) else none
    | _ => none

/-- The lines that reached a spool, in order. -/
def arrivals (effects : List FeedEffect) : List Arrival :=
  effects.filterMap fun
    | .reached arrival => some arrival
    | _ => none

/-- How often a recorder has counted a line as taken care of, or as refused. -/
def tallies (k : Nat) (taken : Bool) (effects : List FeedEffect) : Nat :=
  effects.countP fun
    | .tallied j answer => j == k && answer == taken
    | _ => false

theorem shownTo_append (k : Nat) (before after : List FeedEffect) :
    shownTo k (before ++ after) = shownTo k before ++ shownTo k after :=
  List.filterMap_append

theorem applicationEvents_append (k : Nat) (before after : List FeedEffect) :
    applicationEvents k (before ++ after) = applicationEvents k before ++ applicationEvents k after :=
  List.filterMap_append

theorem arrivals_append (before after : List FeedEffect) :
    arrivals (before ++ after) = arrivals before ++ arrivals after :=
  List.filterMap_append

theorem tallies_append (k : Nat) (taken : Bool) (before after : List FeedEffect) :
    tallies k taken (before ++ after) = tallies k taken before + tallies k taken after :=
  List.countP_append

theorem shownTo_shown (k j : Nat) (e : Event) (time : Time.Stamp) :
    shownTo k [.shown j e time] = if j = k then [e] else [] := by
  by_cases h : j = k <;> simp [shownTo, h]

theorem applicationEvents_shown (k j : Nat) (e : Event) (time : Time.Stamp) :
    applicationEvents k [.shown j e time] = if j = k then [(e, time)] else [] := by
  by_cases h : j = k <;> simp [applicationEvents, h]

theorem shownTo_relayed (k j : Nat) (d : Diagnostic) :
    shownTo k [.relayed j d] = if j = k then [d.event] else [] := by
  by_cases h : j = k <;> simp [shownTo, h]

@[simp] theorem shownTo_spool (k i : Nat) (own : List Effect) :
    shownTo k (own.map (.spool i)) = [] := by
  simp [shownTo]

@[simp] theorem applicationEvents_spool (k i : Nat) (own : List Effect) :
    applicationEvents k (own.map (.spool i)) = [] := by
  simp [applicationEvents]

@[simp] theorem arrivals_spool (i : Nat) (own : List Effect) : arrivals (own.map (.spool i)) = [] := by
  simp [arrivals]

@[simp] theorem tallies_spool (k i : Nat) (taken : Bool) (own : List Effect) :
    tallies k taken (own.map (.spool i)) = 0 := by
  simp [tallies, List.countP_eq_zero]

theorem tallies_tallied (k j : Nat) (taken answer : Bool) :
    tallies k taken [.tallied j answer] = (j == k && answer == taken).toNat := by
  cases h : j == k && answer == taken <;> simp [tallies, h]

/-! ## Recorders -/

/-- The recorder lets an event pass, and its line is one of those that are looked for. -/
def isLine (r : Recorder) (p : Bytes → Bool) (e : Event × Time.Stamp) : Bool :=
  !r.ignores e.1 && p (e.1.record e.2 r.serviceName).encode

/-- What a recorder has counted, beside what a run shows and the lines that it has on their way.
Whatever lines are looked for, it has built as many of them as it was shown events of the
application with such lines. -/
structure TalliedAt (k : Nat) (r : Recorder) (s : Feed) (effects : List FeedEffect) : Prop where
  reads : r.tally.Reads (shownTo k effects).length (tallies k true effects) (tallies k false effects)
  kept : ∀ p, (applicationEvents k effects).countP (isLine r p) =
    (arrivals effects).countP (fun a => a.source == k && p a.line) +
      s.handovers.count (fun h => h.isFrom k isBuilt && p h.line)
  encoded : (arrivals effects).countP (Arrival.isFrom k true) =
    tallies k true effects + s.handovers.count (Handover.isFrom k isAdmitted)
  rejected : (arrivals effects).countP (Arrival.isFrom k false) =
    tallies k false effects + s.handovers.count (Handover.isFrom k isRefused)

/-- What every recorder has counted. -/
def Tallied (s : Feed) (effects : List FeedEffect) : Prop :=
  ∀ k source, s.sources[k]? = some source → TalliedAt k source.recorder s effects

/-- What one step shows a recorder and does with its lines is what it counts. -/
structure Counts (k : Nat) (r next : Recorder) (s t : Feed) (es : List FeedEffect) : Prop where
  lines : isLine next = isLine r
  reads : ∀ {total encoded rejected}, r.tally.Reads total encoded rejected →
    next.tally.Reads (total + (shownTo k es).length) (encoded + tallies k true es)
      (rejected + tallies k false es)
  kept : ∀ p, (applicationEvents k es).countP (isLine r p) +
    s.handovers.count (fun h => h.isFrom k isBuilt && p h.line) =
      (arrivals es).countP (fun a => a.source == k && p a.line) +
        t.handovers.count (fun h => h.isFrom k isBuilt && p h.line)
  encoded : (arrivals es).countP (Arrival.isFrom k true) +
    s.handovers.count (Handover.isFrom k isAdmitted) =
      tallies k true es + t.handovers.count (Handover.isFrom k isAdmitted)
  rejected : (arrivals es).countP (Arrival.isFrom k false) +
    s.handovers.count (Handover.isFrom k isRefused) =
      tallies k false es + t.handovers.count (Handover.isFrom k isRefused)

/-- What a recorder has counted before a step and in it is what it has counted. -/
theorem TalliedAt.of_counts {k : Nat} {r next : Recorder} (h : TalliedAt k r s effects)
    (hstep : Counts k r next s t es) : TalliedAt k next t (effects ++ es) := by
  obtain ⟨hreads, hkept, hencoded, hrejected⟩ := h
  obtain ⟨hlines, hreads', hkept', hencoded', hrejected'⟩ := hstep
  refine ⟨?_, fun p => ?_, ?_, ?_⟩
  · rw [shownTo_append, List.length_append, tallies_append, tallies_append]
    exact hreads' hreads
  · have hbefore := hkept p
    have hnow := hkept' p
    rw [applicationEvents_append, arrivals_append, List.countP_append, List.countP_append, hlines]
    omega
  · rw [arrivals_append, List.countP_append, tallies_append]
    omega
  · rw [arrivals_append, List.countP_append, tallies_append]
    omega

theorem recorder_modify {k j : Nat} {f : Source → Source} {source : Source}
    (h : (s.sources.modify j f)[k]? = some source) :
    ∃ old, s.sources[k]? = some old ∧ source = if j = k then f old else old := by
  rw [List.getElem?_modify] at h
  obtain ⟨old, hold, rfl⟩ := Option.map_eq_some_iff.mp h
  exact ⟨old, hold, rfl⟩

/-- What happens to lines of others is nothing to a recorder. -/
theorem Counts.of_others {k : Nat} {r : Recorder} (hshown : shownTo k es = [])
    (happlication : applicationEvents k es = []) (htallies : ∀ taken, tallies k taken es = 0)
    (harrivals : ∀ arrival ∈ arrivals es, arrival.source ≠ k)
    (hcount : ∀ p : Handover → Bool,
      t.handovers.count (fun h => h.source == k && p h) = s.handovers.count (fun h => h.source == k && p h)) :
    Counts k r r s t es := by
  have hnone : ∀ p : Arrival → Bool, (arrivals es).countP (fun a => a.source == k && p a) = 0 := by
    refine fun p => List.countP_eq_zero.mpr fun arrival ha h => harrivals arrival ha ?_
    exact beq_iff_eq.mp (Bool.and_eq_true_iff.mp h).1
  have hfrom : ∀ phase : HandoverPhase → Bool,
      t.handovers.count (Handover.isFrom k phase) = s.handovers.count (Handover.isFrom k phase) :=
    fun phase => hcount fun h => phase h.phase
  refine ⟨rfl, fun hreads => ?_, fun p => ?_, ?_, ?_⟩
  · rw [hshown, htallies, htallies]
    exact hreads
  · have hbuilt := hcount fun h => isBuilt h.phase && p h.line
    simp only [← Bool.and_assoc] at hbuilt
    rw [happlication, List.countP_nil, hnone fun a => p a.line]
    exact congrArg (0 + ·) hbuilt.symm
  · rw [hfrom, htallies, Nat.add_right_cancel_iff]
    exact hnone fun a => a.isOpen == true
  · rw [hfrom, htallies, Nat.add_right_cancel_iff]
    exact hnone fun a => a.isOpen == false

/-- An event that a recorder leaves out is counted by it, and by nobody else. -/
theorem Counts.of_ignored {j k : Nat} {old : Source} {e : Event}
    (hignores : j = k → old.recorder.ignores e = true)
    (hshown : shownTo k es = if j = k then [e] else [])
    (happlication : ∀ shown ∈ applicationEvents k es, j = k ∧ shown.1 = e)
    (htallies : ∀ taken, tallies k taken es = 0) (harrivals : arrivals es = [])
    (hhandovers : t.handovers = s.handovers) :
    Counts k old.recorder (if j = k then old.see else old).recorder s t es := by
  have hnone : ∀ p, (applicationEvents k es).countP (isLine old.recorder p) = 0 := by
    refine fun p => List.countP_eq_zero.mpr fun shown hin => ?_
    obtain ⟨heq, rfl⟩ := happlication shown hin
    simp [isLine, hignores heq]
  by_cases heq : j = k
  · rw [if_pos heq] at hshown ⊢
    refine ⟨rfl, fun hreads => ?_, fun p => ?_, ?_, ?_⟩
    · rw [hshown, htallies, htallies]
      exact Recorder.reads_see hreads
    · rw [hnone, harrivals, hhandovers, List.countP_nil]
    · rw [harrivals, hhandovers, htallies, List.countP_nil]
    · rw [harrivals, hhandovers, htallies, List.countP_nil]
  · rw [if_neg heq] at hshown ⊢
    refine .of_others hshown ?_ htallies (by simp [harrivals]) (by simp [hhandovers])
    exact List.eq_nil_iff_forall_not_mem.mpr fun shown hin => heq (happlication shown hin).1

/-- A line that comes into another phase, where its arrival, if it has just arrived, accounts
for the change. -/
theorem Counts.of_put {thread k : Nat} {line : Handover} {phase : HandoverPhase} {r : Recorder}
    (hline : s.handovers.find? thread = some line)
    (hput : t.handovers = s.handovers.put thread { line with phase }) (hshown : shownTo k es = [])
    (happlication : applicationEvents k es = []) (htallies : ∀ taken, tallies k taken es = 0)
    (hfrom : ∀ arrival ∈ arrivals es, arrival.source = line.source ∧ arrival.line = line.line)
    (hbuilt : (arrivals es).length + (isBuilt phase).toNat = (isBuilt line.phase).toNat)
    (hadmitted : (arrivals es).countP (·.isOpen) + (isAdmitted line.phase).toNat =
      (isAdmitted phase).toNat)
    (hrefused : (arrivals es).countP (!·.isOpen) + (isRefused line.phase).toNat =
      (isRefused phase).toNat) : Counts k r r s t es := by
  have hcount : ∀ p : Handover → Bool, t.handovers.count p + (p line).toNat =
      s.handovers.count p + (p { line with phase }).toNat := by
    intro p
    rw [hput]
    exact Calls.count_put hline _ p
  by_cases heq : line.source = k
  · subst heq
    have hown : ∀ p q : Arrival → Bool, (∀ a, a.source = line.source → a.line = line.line → p a = q a) →
        (arrivals es).countP p = (arrivals es).countP q := fun p q hpq =>
      List.countP_congr fun a ha => by rw [hpq a (hfrom a ha).1 (hfrom a ha).2]
    refine ⟨rfl, fun hreads => ?_, fun p => ?_, ?_, ?_⟩
    · rw [hshown, htallies, htallies]
      exact hreads
    · have hlines := hown (fun a => a.source == line.source && p a.line) (fun _ => p line.line)
        (fun a hsource hsame => by simp [hsource, hsame])
      have hchange := hcount fun h => h.isFrom line.source isBuilt && p h.line
      simp only [Handover.isFrom, beq_self_eq_true, Bool.true_and] at hchange
      rw [happlication, List.countP_nil, hlines]
      unfold Handover.isFrom
      cases hp : p line.line with
      | true =>
        simp only [hp, Bool.and_true] at hchange
        rw [List.countP_true]
        omega
      | false =>
        simp only [hp, Bool.and_false, Bool.toNat_false] at hchange
        rw [List.countP_false, Function.const_apply]
        omega
    · have hopen := hown (Arrival.isFrom line.source true) (·.isOpen)
        (fun a hsource _ => by simp [Arrival.isFrom, hsource])
      have hchange := hcount (Handover.isFrom line.source isAdmitted)
      simp only [Handover.isFrom, beq_self_eq_true, Bool.true_and] at hchange
      rw [htallies]
      omega
    · have hclosed := hown (Arrival.isFrom line.source false) (!·.isOpen)
        (fun a hsource _ => by simp [Arrival.isFrom, hsource])
      have hchange := hcount (Handover.isFrom line.source isRefused)
      simp only [Handover.isFrom, beq_self_eq_true, Bool.true_and] at hchange
      rw [htallies]
      omega
  · refine .of_others hshown happlication htallies (fun a ha => (hfrom a ha).1.trans_ne heq) fun p => ?_
    simpa [beq_eq_false_iff_ne.mpr heq] using hcount fun h => h.source == k && p h

theorem counts_of_transition (step : Transition s a t es) {k : Nat} {next : Source}
    (hnext : t.sources[k]? = some next) :
    ∃ source, s.sources[k]? = some source ∧ Counts k source.recorder next.recorder s t es := by
  cases step with
  | @ignored thread j e time first hfirst hfree hignores =>
    obtain ⟨old, hold, rfl⟩ := recorder_modify hnext
    refine ⟨old, hold,
      .of_ignored (fun heq => ?_) (shownTo_shown k j e time) ?_ (fun _ => rfl) rfl rfl⟩
    · subst heq
      rw [hfirst] at hold
      cases hold
      exact hignores
    · rw [applicationEvents_shown]
      by_cases heq : j = k <;> simp [heq]
  | @relayed thread place j time d first hnews hfirst hfree =>
    obtain ⟨old, hold, rfl⟩ := recorder_modify hnext
    exact ⟨old, hold, .of_ignored (fun _ => Recorder.ignores_diagnostic _ d)
      (shownTo_relayed k j d) (by simp [applicationEvents]) (fun _ => rfl) rfl rfl⟩
  | @built thread j e time first hfirst hfree hpasses =>
    obtain ⟨old, hold, rfl⟩ := recorder_modify hnext
    refine ⟨old, hold, ?_⟩
    have hadd := Calls.count_add hfree
      { source := j, spool := first.spool, line := (e.record time first.recorder.serviceName).encode }
    by_cases heq : j = k
    · subst heq
      rw [hfirst] at hold
      cases hold
      refine ⟨by rw [if_pos rfl]; rfl, fun hreads => ?_, fun p => ?_, ?_, ?_⟩
      · rw [if_pos rfl, shownTo_shown, if_pos rfl]
        exact Recorder.reads_see hreads
      · rw [applicationEvents_shown, if_pos rfl]
        simp only [hadd]
        cases hp : p (e.record time first.recorder.serviceName).encode <;>
          simp [arrivals, isLine, hpasses, Handover.isFrom, hp]
        omega
      · simp [arrivals, tallies, hadd, Handover.isFrom]
      · simp [arrivals, tallies, hadd, Handover.isFrom]
    · rw [if_neg heq]
      refine .of_others ?_ ?_ (fun _ => rfl) (by simp [arrivals]) fun p => ?_
      · rw [shownTo_shown, if_neg heq]
      · rw [applicationEvents_shown, if_neg heq]
      · simp [hadd, heq]
  | @refused thread line spool hline hbuilt hspool hhandles hclosed =>
    exact ⟨next, hnext, .of_put hline rfl rfl rfl (fun _ => rfl) (by simp [arrivals])
      (by simp [arrivals, hbuilt]) (by simp [arrivals, hbuilt]) (by simp [arrivals, hbuilt])⟩
  | @writing thread line spool hline hbuilt hspool hhandles hopen =>
    exact ⟨next, hnext, .of_put hline rfl rfl rfl (fun _ => rfl) (by simp [arrivals])
      (by simp [arrivals, hbuilt]) (by simp [arrivals, hbuilt]) (by simp [arrivals, hbuilt])⟩
  | aside =>
    exact ⟨next, hnext, .of_others (shownTo_spool _ _ _) (applicationEvents_spool _ _ _)
      (fun _ => tallies_spool _ _ _ _) (by simp) fun _ => rfl⟩
  | @written i thread line spool after own hspool step hline hwriting hwrites hdealt =>
    have hphase : line.phase = .writing := (Handover.isWritingAt_iff.mp hwriting).2
    exact ⟨next, hnext, .of_put hline rfl (shownTo_spool _ _ _) (applicationEvents_spool _ _ _)
      (fun _ => tallies_spool _ _ _ _) (by simp) (by simp [hphase]) (by simp [hphase])
      (by simp [hphase])⟩
  | @counted thread line reply hline hanswered =>
    obtain ⟨old, hold, rfl⟩ := recorder_modify hnext
    refine ⟨old, hold, ?_⟩
    have hremove := Calls.count_remove hline
    by_cases heq : line.source = k
    · subst heq
      have hadmitted : line.isFrom line.source isAdmitted = (reply != .closed) := by
        cases reply <;> simp [Handover.isFrom, hanswered]
      have hrefused : line.isFrom line.source isRefused = !(reply != .closed) := by
        cases reply <;> simp [Handover.isFrom, hanswered]
      have hbuilt : line.isFrom line.source isBuilt = false := by simp [Handover.isFrom, hanswered]
      have hcounted : ∀ taken, tallies line.source taken [.tallied line.source (reply != .closed)] =
          ((reply != .closed) == taken).toNat := by
        simp [tallies_tallied]
      rw [if_pos rfl]
      refine ⟨by cases reply <;> rfl, fun hreads => ?_, fun p => ?_, ?_, ?_⟩
      · rw [hcounted, hcounted, beq_true, beq_false]
        exact Recorder.reads_offer hreads _
      · have hless := hremove fun h => h.isFrom line.source isBuilt && p h.line
        rw [hbuilt, Bool.false_and, Bool.toNat_false] at hless
        exact (congrArg (0 + ·) hless).symm
      · have hless := hremove (Handover.isFrom line.source isAdmitted)
        rw [hadmitted] at hless
        rw [hcounted, beq_true]
        change 0 + _ = _ + (s.handovers.remove thread).count _
        omega
      · have hless := hremove (Handover.isFrom line.source isRefused)
        rw [hrefused] at hless
        rw [hcounted, beq_false]
        change 0 + _ = _ + (s.handovers.remove thread).count _
        omega
    · rw [if_neg heq]
      refine .of_others rfl rfl (fun taken => ?_) (by simp [arrivals]) fun p => ?_
      · rw [tallies_tallied, beq_eq_false_iff_ne.mpr heq]
        rfl
      · change (s.handovers.remove thread).count _ = _
        simpa [beq_eq_false_iff_ne.mpr heq] using hremove fun h => h.source == k && p h

theorem tallied_of_run (h : (start settings sources).run actions = some (s, effects)) :
    Tallied s effects := by
  refine run_induction (fun k source hsource => ?_) (fun _ hs step k next hnext => ?_) h
  · obtain ⟨first, -, rfl⟩ := by simpa [start] using hsource
    exact ⟨⟨rfl, rfl, rfl⟩, fun _ => rfl, rfl, rfl⟩
  · obtain ⟨source, hsource, hcounts⟩ := counts_of_transition step hnext
    exact (hs k source hsource).of_counts hcounts

/-! ## Spools -/

/-- The recorders that feed a spool. -/
def feeding (i : Nat) (sources : List Source) : Finset Nat :=
  (Finset.range sources.length).filter fun k => (sources[k]?).any (·.spool == i)

/-- How often the recorders of a spool have counted a line as taken care of. -/
def encodedAt (i : Nat) (sources : List Source) (effects : List FeedEffect) : Nat :=
  ∑ k ∈ feeding i sources, tallies k true effects

/-- What the counters of the recorders of a spool read for lines taken care of, added up. -/
def encodedCounters (i : Nat) (sources : List Source) : Nat :=
  ∑ k ∈ feeding i sources, (sources[k]?).elim 0 (·.recorder.tally.encoded)

theorem mem_feeding {i k : Nat} :
    k ∈ feeding i sources ↔ ∃ source, sources[k]? = some source ∧ source.spool = i := by
  unfold feeding
  rw [Finset.mem_filter, Finset.mem_range]
  constructor
  · rintro ⟨hlt, hspool⟩
    exact ⟨sources[k], List.getElem?_eq_getElem hlt, by simpa [hlt] using hspool⟩
  · rintro ⟨source, hsource, rfl⟩
    obtain ⟨hlt, -⟩ := List.getElem?_eq_some_iff.mp hsource
    exact ⟨hlt, by simp [hsource]⟩

theorem feeding_of_transition (step : Transition s a t es) (i : Nat) :
    feeding i t.sources = feeding i s.sources := by
  have hreset := reset_of_transition step
  ext k
  rw [mem_feeding, mem_feeding]
  constructor
  · rintro ⟨next, hnext, rfl⟩
    obtain ⟨source, hsource, heq⟩ := source_of_reset hreset.symm hnext
    have hspool : source.reset.spool = next.reset.spool := congrArg Source.spool heq
    exact ⟨source, hsource, hspool⟩
  · rintro ⟨source, hsource, rfl⟩
    obtain ⟨next, hnext, heq⟩ := source_of_reset hreset hsource
    have hspool : next.reset.spool = source.reset.spool := congrArg Source.spool heq
    exact ⟨next, hnext, hspool⟩

/-- The counters of a spool's recorders say how often these have counted a line as taken care of,
as far as 64 bits go. -/
theorem encodedCounters_mod (h : Tallied s effects) (i : Nat) :
    encodedCounters i s.sources % UInt64.size = encodedAt i s.sources effects % UInt64.size := by
  unfold encodedCounters encodedAt
  rw [Finset.sum_nat_mod, Finset.sum_nat_mod _ _ fun k => tallies k true effects]
  refine congrArg (· % UInt64.size) (Finset.sum_congr rfl fun k hk => ?_)
  obtain ⟨source, hsource, -⟩ := mem_feeding.mp hk
  rw [hsource, Option.elim_some, (h k source hsource).reads.encoded, Nat.mod_mod]

theorem encodedAt_of_transition (step : Transition s a t es) (i : Nat) :
    encodedAt i t.sources (effects ++ es) =
      encodedAt i s.sources effects + encodedAt i s.sources es := by
  unfold encodedAt
  rw [feeding_of_transition step]
  simp only [tallies_append, Finset.sum_add_distrib]

theorem encodedAt_of_quiet (h : ∀ k, tallies k true es = 0) (i : Nat) (sources : List Source) :
    encodedAt i sources es = 0 :=
  Finset.sum_eq_zero fun k _ => h k

theorem encodedAt_tallied {k : Nat} {source : Source} (hsource : sources[k]? = some source)
    (taken : Bool) (i : Nat) :
    encodedAt i sources [.tallied k taken] = (source.spool == i && taken).toNat := by
  have hone : ∀ j, tallies j true [.tallied k taken] = if k = j then taken.toNat else 0 := by
    intro j
    rw [tallies_tallied]
    by_cases heq : k = j <;> simp [heq]
  unfold encodedAt
  simp only [hone, Finset.sum_ite_eq, mem_feeding, hsource, Option.some.injEq, exists_eq_left']
  by_cases hspool : source.spool = i
  · simp [hspool]
  · simp [hspool, beq_eq_false_iff_ne.mpr hspool]

/-- What the spools are done with, beside what the recorders have counted and the lines that are
on their way.  Whatever lines are looked for, as many of them were written as reached the spool
while it was open. -/
structure Dealt (i : Nat) (s : Feed) (effects : List FeedEffect) : Prop where
  dealt : (Spool.dealt (effectsOf i effects)).length =
    encodedAt i s.sources effects + s.handovers.count (Handover.isFor i isAccepted)
  arrived : ∀ p : Bytes → Bool, (arrivals effects).countP (fun a => a.isFor i && p a.line) =
    (Spool.dealt (effectsOf i effects)).countP (fun r => p r.2) +
      s.handovers.count (fun h => h.isWritingAt i && p h.line)

/-- What one step does with lines is what the spools and recorders have to do with it. -/
theorem Dealt.of_counts {i : Nat} (h : Dealt i s effects) (step : Transition s a t es)
    (hdealt : (Spool.dealt (effectsOf i es)).length + s.handovers.count (Handover.isFor i isAccepted) =
      encodedAt i s.sources es + t.handovers.count (Handover.isFor i isAccepted))
    (harrived : ∀ p : Bytes → Bool, (arrivals es).countP (fun a => a.isFor i && p a.line) +
      s.handovers.count (fun h => h.isWritingAt i && p h.line) =
        (Spool.dealt (effectsOf i es)).countP (fun r => p r.2) +
          t.handovers.count (fun h => h.isWritingAt i && p h.line)) :
    Dealt i t (effects ++ es) := by
  obtain ⟨hbefore, hearlier⟩ := h
  refine ⟨?_, fun p => ?_⟩
  · rw [effectsOf_append, Spool.dealt_append, List.length_append, encodedAt_of_transition step]
    omega
  · have hfirst := hearlier p
    have hnow := harrived p
    rw [effectsOf_append, Spool.dealt_append, List.countP_append, arrivals_append,
      List.countP_append]
    omega

/-- A line that comes into another phase, where what its spool is done with, and its arrival,
account for the change. -/
theorem Dealt.of_put {i thread : Nat} {line : Handover} {phase : HandoverPhase}
    (h : Dealt i s effects) (step : Transition s a t es)
    (hline : s.handovers.find? thread = some line)
    (hput : t.handovers = s.handovers.put thread { line with phase })
    (htallies : ∀ k, tallies k true es = 0)
    (haccepted : (Spool.dealt (effectsOf i es)).length + (line.isFor i isAccepted).toNat =
      (Handover.isFor i isAccepted { line with phase }).toNat)
    (hwriting : ∀ p : Bytes → Bool, (arrivals es).countP (fun a => a.isFor i && p a.line) +
      (line.isWritingAt i && p line.line).toNat =
        (Spool.dealt (effectsOf i es)).countP (fun r => p r.2) +
          (Handover.isWritingAt i { line with phase } && p line.line).toNat) :
    Dealt i t (effects ++ es) := by
  have hcount : ∀ p : Handover → Bool, t.handovers.count p + (p line).toNat =
      s.handovers.count p + (p { line with phase }).toNat := by
    intro p
    rw [hput]
    exact Calls.count_put hline _ p
  refine h.of_counts step ?_ fun p => ?_
  · have hchange := hcount (Handover.isFor i isAccepted)
    rw [encodedAt_of_quiet htallies]
    omega
  · have hchange := hcount fun h => h.isWritingAt i && p h.line
    have hnow := hwriting p
    simp only at hchange
    omega

theorem Dealt.preserve {i : Nat} (hattached : Attached settings s effects) (h : Dealt i s effects)
    (step : Transition s a t es) : Dealt i t (effects ++ es) := by
  have htaken := step
  cases step with
  | @ignored thread j e time =>
    have hquiet : encodedAt i s.sources [.shown j e time] = 0 := encodedAt_of_quiet (fun _ => rfl) i _
    exact h.of_counts htaken (by simp [effectsOf, hquiet, Spool.dealt]) fun _ => rfl
  | @relayed thread place j time d =>
    have hquiet : encodedAt i s.sources [.relayed j d] = 0 := encodedAt_of_quiet (fun _ => rfl) i _
    exact h.of_counts htaken (by simp [effectsOf, hquiet, Spool.dealt]) fun _ => rfl
  | @built thread j e time first hfirst hfree hpasses =>
    have hadd := Calls.count_add hfree
      { source := j, spool := first.spool, line := (e.record time first.recorder.serviceName).encode }
    have hquiet : encodedAt i s.sources [.shown j e time] = 0 := encodedAt_of_quiet (fun _ => rfl) i _
    refine h.of_counts htaken ?_ fun p => ?_
    · simp [effectsOf, Spool.dealt, hquiet, hadd, Handover.isFor]
    · simp [effectsOf, Spool.dealt, arrivals, hadd, Handover.isWritingAt]
  | @refused thread line spool hline hbuilt hspool hhandles hclosed =>
    have hnone : Spool.dealt (effectsOf i [.reached ⟨line.source, line.spool, line.line, false⟩,
        .spool line.spool (.answered thread .closed)]) = [] := by
      by_cases heq : line.spool = i <;> simp [effectsOf, Spool.dealt, heq]
    refine h.of_put htaken hline rfl (fun _ => rfl) ?_ fun p => ?_
    · simp [hnone, Handover.isFor, hbuilt]
    · simp [hnone, arrivals, Arrival.isFor, Handover.isWritingAt, hbuilt]
  | @writing thread line spool hline hbuilt hspool hhandles hopen =>
    have hnone : Spool.dealt (effectsOf i [.reached ⟨line.source, line.spool, line.line, true⟩]) = [] :=
      rfl
    refine h.of_put htaken hline rfl (fun _ => rfl) ?_ fun p => ?_
    · simp [hnone, Handover.isFor, hbuilt]
    · rw [hnone]
      cases hat : line.spool == i <;> cases hp : p line.line <;>
        simp [arrivals, Arrival.isFor, Handover.isWritingAt, hbuilt, hat, hp]
  | @aside j a spool next own hspool step hreplies hdealt hwriting =>
    have hnone : Spool.dealt (effectsOf i (own.map (.spool j))) = [] := by
      by_cases heq : j = i
      · rw [heq, effectsOf_self, hdealt]
      · rw [effectsOf_other heq]
        rfl
    have hquiet := encodedAt_of_quiet (fun k => tallies_spool k j true own) i s.sources
    exact h.of_counts htaken (by simp [hnone, hquiet]) (by simp [hnone])
  | @written j thread line spool next own hspool step hline hwriting hwrites hdealt =>
    obtain ⟨hat, hphase⟩ := Handover.isWritingAt_iff.mp hwriting
    have hquiet := fun k => tallies_spool k j true own
    by_cases heq : j = i
    · subst heq
      refine h.of_put htaken hline rfl hquiet ?_ fun p => ?_
      · simp [effectsOf_self, hdealt, Handover.isFor, hat, hphase]
      · cases hp : p line.line <;>
          simp [effectsOf_self, hdealt, Handover.isWritingAt, hat, hphase, hp]
    · have hnot : (line.spool == i) = false := beq_eq_false_iff_ne.mpr (hat.trans_ne heq)
      refine h.of_put htaken hline rfl hquiet ?_ fun p => ?_
      · simp [effectsOf_other heq, Spool.dealt, Handover.isFor, hnot]
      · simp [effectsOf_other heq, Spool.dealt, Handover.isWritingAt, hnot]
  | @counted thread line reply hline hanswered =>
    have hremove := Calls.count_remove hline
    have haccepted := hremove (Handover.isFor i isAccepted)
    obtain ⟨-, source, hsource, hspool⟩ := hattached.lines thread line hline
    have hphase : (reply != .closed) = isAccepted line.phase := by
      cases reply <;> simp [hanswered]
    refine h.of_counts htaken ?_ fun p => ?_
    · rw [encodedAt_tallied hsource, hspool, hphase]
      change 0 + _ = _ + (s.handovers.remove thread).count _
      unfold Handover.isFor at haccepted ⊢
      omega
    · have hnot : line.isWritingAt i = false := by simp [Handover.isWritingAt, hanswered]
      have hwriting := hremove fun h => h.isWritingAt i && p h.line
      rw [hnot, Bool.false_and, Bool.toNat_false] at hwriting
      change 0 + _ = 0 + (s.handovers.remove thread).count _
      omega

theorem dealt_of_run (h : (start settings sources).run actions = some (s, effects)) (i : Nat) :
    Dealt i s effects :=
  run_induction ⟨(encodedAt_of_quiet (fun _ => rfl) i _).symm, fun _ => rfl⟩
    (fun hattached hs step => hs.preserve hattached step) h

end Feed

end LogSpool
