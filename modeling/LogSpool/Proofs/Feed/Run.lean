import LogSpool.Proofs.Feed.Transition
set_option autoImplicit false

/-!
# Feeds: runs

`run_induction_on` is the one induction over the runs of a feed, and `run_induction` its form for
what does not depend on the steps taken.  `attached_of_run` uses it to say that the spools of a feed
run as they do alone, so that what is known about the runs of a spool holds of each of them.
-/

namespace LogSpool.Feed

variable {settings : List SpoolSettings} {sources : List Source} {s t : Feed} {a : FeedAction}
  {actions : List FeedAction} {before effects es : List FeedEffect}

/-! ## Keeping a feed attached -/

theorem effectsOf_frame {i : Nat} (h : effectsOf i es = []) (effects : List FeedEffect) :
    effectsOf i (effects ++ es) = effectsOf i effects := by
  rw [effectsOf_append, h, List.append_nil]

theorem lineFor_of_find? {thread : Nat} {line : Handover}
    (hline : s.handovers.find? thread = some line) (i : Nat) :
    s.lineFor i thread = if line.isWritingAt i then some line.line else none := by
  unfold lineFor
  rw [hline]
  cases hwriting : line.isWritingAt i <;> simp [Option.filter, hwriting]

theorem lineFor_put {thread : Nat} {line next : Handover}
    (hline : s.handovers.find? thread = some line)
    (hput : t.handovers = s.handovers.put thread next) (i other : Nat) :
    t.lineFor i other = if other = thread then (if next.isWritingAt i then some next.line else none)
      else s.lineFor i other := by
  split
  · next heq =>
    have hnext : t.handovers.find? other = some next := by
      rw [heq, hput, Calls.find?_put_self hline]
    exact lineFor_of_find? hnext i
  · next hne =>
    unfold lineFor
    rw [hput, Calls.find?_put_of_ne _ hne]

/-- A line that comes from one phase into another, and is not being written to a spool in
either, is no news for it. -/
theorem lineFor_put_of_not_writing {thread i : Nat} {line next : Handover}
    (hline : s.handovers.find? thread = some line)
    (hput : t.handovers = s.handovers.put thread next) (hnot : line.isWritingAt i = false)
    (hnext : next.isWritingAt i = false) (other : Nat) : t.lineFor i other = s.lineFor i other := by
  rw [lineFor_put hline hput]
  split
  · next heq =>
    rw [heq, lineFor_of_find? hline, hnot, hnext]
    rfl
  · rfl

theorem lineFor_add {thread i : Nat} {next : Handover} (hfree : s.handovers.find? thread = none)
    (hadd : t.handovers = s.handovers.add thread next) (hnot : next.isWritingAt i = false)
    (other : Nat) : t.lineFor i other = s.lineFor i other := by
  unfold lineFor
  rw [hadd]
  by_cases heq : other = thread
  · rw [heq, hfree, Calls.find?_add_self, Option.filter_some_neg (by simp [hnot])]
    rfl
  · rw [Calls.find?_add_of_ne _ heq]

theorem lineFor_remove {thread i : Nat} {line : Handover}
    (hline : s.handovers.find? thread = some line)
    (hremove : t.handovers = s.handovers.remove thread) (hnot : line.isWritingAt i = false)
    (other : Nat) : t.lineFor i other = s.lineFor i other := by
  unfold lineFor
  rw [hremove]
  by_cases heq : other = thread
  · rw [heq, hline, Calls.find?_remove, if_pos rfl, Option.filter_some_neg (by simp [hnot])]
    rfl
  · rw [Calls.find?_remove_of_ne _ heq]

namespace Attached

/-- A step of one spool is a step of its own run. -/
theorem runs_set (h : Attached settings s effects) {i : Nat} {spool next : Spool} {a : Action}
    {own : List Effect} (hspool : s.spools[i]? = some spool)
    (step : Spool.Transition spool a next own) (j : Nat) (last : Spool)
    (hlast : (s.spools.set i next)[j]? = some last) :
    ∃ settled actions, settings[j]? = some settled ∧
      (Spool.start settled.slots).run actions =
        some (last, effectsOf j (effects ++ own.map (.spool i))) := by
  by_cases heq : i = j
  · subst heq
    obtain ⟨hlt, -⟩ := List.getElem?_eq_some_iff.mp hspool
    rw [List.getElem?_set_self hlt] at hlast
    cases hlast
    obtain ⟨settled, actions, hsettled, hrun⟩ := h.runs i spool hspool
    have hnext := Spool.run_join hrun step (Spool.run_nil _)
    rw [List.append_nil] at hnext
    exact ⟨settled, actions ++ [a], hsettled, by rw [effectsOf_append, effectsOf_self, hnext]⟩
  · rw [List.getElem?_set_ne heq] at hlast
    rw [effectsOf_frame (effectsOf_other heq own)]
    exact h.runs j last hlast

theorem lines_modify (h : Attached settings s effects) {thread : Nat} {line : Handover}
    (hline : s.handovers.find? thread = some line) (k : Nat) {f : Source → Source}
    (hf : ∀ source, (f source).spool = source.spool) :
    line.line ≠ [] ∧ ∃ source, (s.sources.modify k f)[line.source]? = some source ∧
      source.spool = line.spool := by
  obtain ⟨hfilled, source, hsource, hspool⟩ := h.lines thread line hline
  refine ⟨hfilled, if k = line.source then f source else source, ?_, ?_⟩
  · rw [List.getElem?_modify, hsource]
    split <;> rfl
  · split <;> simp [hf, hspool]

theorem lines_put (h : Attached settings s effects) {thread : Nat} {line : Handover}
    {phase : HandoverPhase} (hline : s.handovers.find? thread = some line)
    (hput : t.handovers = s.handovers.put thread { line with phase }) (hsources : t.sources = s.sources)
    (other : Nat) (found : Handover) (hfound : t.handovers.find? other = some found) :
    found.line ≠ [] ∧ ∃ source, t.sources[found.source]? = some source ∧
      source.spool = found.spool := by
  rw [hsources]
  rw [hput] at hfound
  rcases Calls.find?_of_put hfound with ⟨rfl, rfl⟩ | ⟨-, hfound⟩
  · exact h.lines other line hline
  · exact h.lines other found hfound

/-- A step that no spool takes part in, and that changes no line being written, keeps a feed
attached if it keeps the lines. -/
theorem of_frame (h : Attached settings s effects) (hspools : t.spools = s.spools)
    (heffects : ∀ i, effectsOf i es = [])
    (hlineFor : ∀ i thread, t.lineFor i thread = s.lineFor i thread)
    (hlines : ∀ thread h, t.handovers.find? thread = some h → h.line ≠ [] ∧
      ∃ source, t.sources[h.source]? = some source ∧ source.spool = h.spool) :
    Attached settings t (effects ++ es) where
  runs i spool hspool := by
    rw [effectsOf_frame (heffects i)]
    exact h.runs i spool (hspools ▸ hspool)
  writes i spool hspool thread :=
    (h.writes i spool (hspools ▸ hspool) thread).trans (hlineFor i thread).symm
  lines := hlines

/-- A step of one spool keeps a feed attached if its calls still write the lines of its
threads, and the other spools have the lines that they had. -/
theorem of_spool (h : Attached settings s effects) {i : Nat} {spool next : Spool} {a : Action}
    {own : List Effect} (hspool : s.spools[i]? = some spool)
    (step : Spool.Transition spool a next own) (hspools : t.spools = s.spools.set i next)
    (heffects : ∀ j, effectsOf j es = effectsOf j (own.map (.spool i)))
    (hwriting : ∀ thread, next.writing thread = t.lineFor i thread)
    (hothers : ∀ j, i ≠ j → ∀ thread, t.lineFor j thread = s.lineFor j thread)
    (hlines : ∀ thread h, t.handovers.find? thread = some h → h.line ≠ [] ∧
      ∃ source, t.sources[h.source]? = some source ∧ source.spool = h.spool) :
    Attached settings t (effects ++ es) where
  runs j last hlast := by
    rw [effectsOf_append, heffects, ← effectsOf_append]
    exact h.runs_set hspool step j last (hspools ▸ hlast)
  writes j last hlast thread := by
    rw [hspools] at hlast
    by_cases heq : i = j
    · subst heq
      obtain ⟨hlt, -⟩ := List.getElem?_eq_some_iff.mp hspool
      rw [List.getElem?_set_self hlt] at hlast
      cases hlast
      exact hwriting thread
    · rw [List.getElem?_set_ne heq] at hlast
      exact (h.writes j last hlast thread).trans (hothers j heq thread).symm
  lines := hlines

theorem preserve (h : Attached settings s effects) (step : Transition s a t es) :
    Attached settings t (effects ++ es) := by
  cases step with
  | ignored | relayed =>
    refine h.of_frame rfl (fun _ => rfl) (fun _ _ => rfl) fun thread line hline => ?_
    exact h.lines_modify hline _ fun _ => rfl
  | @built thread k e time source hsource hfree hpasses =>
    refine h.of_frame rfl (fun _ => rfl)
      (fun i => lineFor_add hfree rfl (by simp [Handover.isWritingAt])) fun other line hline => ?_
    rcases Calls.find?_of_add hline with ⟨rfl, rfl⟩ | ⟨-, hline⟩
    · refine ⟨Record.encode_ne_nil _, source.see, ?_, rfl⟩
      rw [List.getElem?_modify, hsource]
      simp
    · exact h.lines_modify hline _ fun _ => rfl
  | @refused thread line spool hline hbuilt hspool hhandles hclosed =>
    have hnot : ∀ i, line.isWritingAt i = false := by simp [Handover.isWritingAt, hbuilt]
    have hnew : spool.writes.find? thread = none := h.writes_of_not_writing hspool hline (hnot _)
    have hset : s.spools = s.spools.set line.spool spool := by
      obtain ⟨hlt, hget⟩ := List.getElem?_eq_some_iff.mp hspool
      rw [← hget, List.set_getElem_self]
    refine h.of_spool hspool (@Spool.Transition.enterClosed spool thread line.line hhandles hnew hclosed) hset
      (fun _ => rfl) (fun other => ?_)
      (fun i _ => lineFor_put_of_not_writing hline rfl (hnot i) (by simp [Handover.isWritingAt]))
      (h.lines_put hline rfl rfl)
    rw [lineFor_put_of_not_writing hline rfl (hnot _) (by simp [Handover.isWritingAt])]
    exact h.writes line.spool spool hspool other
  | @writing thread line spool hline hbuilt hspool hhandles hopen =>
    have hnot : ∀ i, line.isWritingAt i = false := by simp [Handover.isWritingAt, hbuilt]
    have hnew : spool.writes.find? thread = none := h.writes_of_not_writing hspool hline (hnot _)
    have hfilled : line.line ≠ [] := (h.lines thread line hline).1
    refine h.of_spool hspool (.enter hhandles hnew hopen hfilled) rfl (fun _ => rfl)
      (fun other => ?_)
      (fun i hi => lineFor_put_of_not_writing hline rfl (hnot i) (by simp [Handover.isWritingAt, hi]))
      (h.lines_put hline rfl rfl)
    rw [lineFor_put hline rfl]
    split
    · next heq =>
      subst heq
      simp [Spool.writing, Handover.isWritingAt]
    · next hne =>
      rw [← h.writes line.spool spool hspool other]
      simp [Spool.writing, Calls.find?_add_of_ne _ hne]
  | @aside i a spool next own hspool step hreplies hdealt hwriting =>
    refine h.of_spool hspool step rfl (fun _ => rfl) (fun thread => ?_) (fun _ _ _ => rfl) h.lines
    rw [hwriting]
    exact h.writes i spool hspool thread
  | @written i thread line spool next own hspool step hline hwriting hwrites hdealt =>
    have helsewhere : ∀ j, i ≠ j → line.isWritingAt j = false := by
      intro j hj
      obtain ⟨hat, -⟩ := Handover.isWritingAt_iff.mp hwriting
      simp [Handover.isWritingAt, hat, hj]
    refine h.of_spool hspool step rfl (fun _ => rfl) (fun other => ?_)
      (fun j hj => lineFor_put_of_not_writing hline rfl (helsewhere j hj)
        (by simp [Handover.isWritingAt]))
      (h.lines_put hline rfl rfl)
    rw [lineFor_put hline rfl]
    split
    · next heq =>
      subst heq
      simp [Spool.writing, hwrites, Calls.find?_remove, Handover.isWritingAt]
    · next hne =>
      rw [← h.writes i spool hspool other]
      simp [Spool.writing, hwrites, Calls.find?_remove_of_ne _ hne]
  | @counted thread line reply hline hanswered =>
    have hnot : ∀ i, line.isWritingAt i = false := by simp [Handover.isWritingAt, hanswered]
    refine h.of_frame rfl (fun _ => rfl) (fun i => lineFor_remove hline rfl (hnot i))
      fun other found hfound => ?_
    have hbefore := (Calls.find?_of_remove hfound).2
    refine h.lines_modify hbefore _ fun source => ?_
    rfl

theorem of_start (settings : List SpoolSettings) (sources : List Source) :
    Attached settings (start settings sources) [] where
  runs i spool hspool := by
    obtain ⟨own, hown, rfl⟩ := by simpa [start] using hspool
    exact ⟨own, [], hown, rfl⟩
  writes i spool hspool thread := by
    obtain ⟨own, -, rfl⟩ := by simpa [start] using hspool
    rfl
  lines thread h hline := by cases hline

end Attached

/-! ## Runs -/

/-- What every step of an attached feed keeps holds after every run from there, together with the
steps that were taken. -/
theorem run_induction_from {first : Feed} {P : List FeedAction → Feed → List FeedEffect → Prop}
    (hattached : Attached settings first before) (base : P [] first [])
    (next : ∀ {actions s effects a t es}, Attached settings s (before ++ effects) →
      P actions s effects → Transition s a t es → P (actions ++ [a]) t (effects ++ es))
    (h : first.run actions = some (s, effects)) : P actions s effects := by
  have hruns : ∀ (taken : List FeedAction) (s : Feed) (so : List FeedEffect),
      Attached settings s (before ++ so) → P taken s so →
      ∀ t more, s.run actions = some (t, more) → P (taken ++ actions) t (so ++ more) := by
    clear h
    induction actions with
    | nil =>
      intro taken s so _ hs t more h
      cases h
      rwa [List.append_nil, List.append_nil]
    | cons a rest ih =>
      intro taken s so hattached hs t more h
      simp only [run, Option.bind_eq_bind, Option.pure_def] at h
      obtain ⟨⟨u, es⟩, hu, h⟩ := Option.bind_eq_some_iff.mp h
      obtain ⟨⟨v, later⟩, hv, heq⟩ := Option.bind_eq_some_iff.mp h
      cases heq
      have step := Transition.of_step hattached hu
      have hnext := hattached.preserve step
      rw [List.append_assoc] at hnext
      rw [← List.append_assoc, List.append_cons]
      exact ih (taken ++ [a]) u _ hnext (next hattached hs step) v later hv
  refine hruns [] _ [] ?_ base s effects h
  rwa [List.append_nil]

theorem run_induction_on {P : List FeedAction → Feed → List FeedEffect → Prop}
    (base : P [] (start settings sources) [])
    (next : ∀ {actions s effects a t es}, Attached settings s effects → P actions s effects →
      Transition s a t es → P (actions ++ [a]) t (effects ++ es))
    (h : (start settings sources).run actions = some (s, effects)) : P actions s effects :=
  run_induction_from (.of_start settings sources) base next h

theorem run_induction {P : Feed → List FeedEffect → Prop} (base : P (start settings sources) [])
    (next : ∀ {s effects a t es}, Attached settings s effects → P s effects →
      Transition s a t es → P t (effects ++ es))
    (h : (start settings sources).run actions = some (s, effects)) : P s effects :=
  run_induction_on (P := fun _ s effects => P s effects) base next h

/-- The spools of a feed run as they do alone. -/
theorem attached_of_run (h : (start settings sources).run actions = some (s, effects)) :
    Attached settings s effects :=
  run_induction (.of_start settings sources) (fun _ hattached step => hattached.preserve step) h

/-- What a step has to do with a spool: it takes no part, or it takes a step of its own. -/
theorem ownStep_of_transition (hattached : Attached settings s before) (step : Transition s a t es)
    {i : Nat} {spool : Spool} (hspool : s.spools[i]? = some spool) :
    (t.spools[i]? = some spool ∧ effectsOf i es = []) ∨
      ∃ own next, Spool.Transition spool own next (effectsOf i es) ∧ t.spools[i]? = some next := by
  have hset : ∀ next, (s.spools.set i next)[i]? = some next :=
    fun next => List.getElem?_set_self (List.getElem?_eq_some_iff.mp hspool).1
  have hspoolStep : ∀ {j : Nat} {last next : Spool} {own : Action} {done : List Effect},
      s.spools[j]? = some last → Spool.Transition last own next done →
      t.spools = s.spools.set j next → es = done.map (.spool j) →
      (t.spools[i]? = some spool ∧ effectsOf i es = []) ∨
        ∃ own next, Spool.Transition spool own next (effectsOf i es) ∧ t.spools[i]? = some next := by
    intro j last next own done hlast step hspools hes
    rw [hspools, hes]
    by_cases heq : j = i
    · subst heq
      cases hspool.symm.trans hlast
      exact .inr ⟨own, next, by rwa [effectsOf_self], hset next⟩
    · exact .inl ⟨by rw [List.getElem?_set_ne heq, hspool], effectsOf_other heq done⟩
  cases step with
  | @refused thread line last hline hbuilt hlast hhandles hclosed =>
    have hnew : last.writes.find? thread = none :=
      hattached.writes_of_not_writing hlast hline (by simp [Handover.isWritingAt, hbuilt])
    by_cases heq : line.spool = i
    · subst heq
      cases hspool.symm.trans hlast
      have henter := @Spool.Transition.enterClosed spool thread line.line hhandles hnew hclosed
      refine .inr ⟨.enter thread line.line, spool, ?_, hspool⟩
      exact (effectsOf_self line.spool [.answered thread .closed]).symm ▸ henter
    · exact .inl ⟨hspool, effectsOf_other heq [.answered thread .closed]⟩
  | @writing thread line last hline hbuilt hlast hhandles hopen =>
    have hnew : last.writes.find? thread = none :=
      hattached.writes_of_not_writing hlast hline (by simp [Handover.isWritingAt, hbuilt])
    have henter := Spool.Transition.enter hhandles hnew hopen (hattached.lines thread line hline).1
    by_cases heq : line.spool = i
    · subst heq
      cases hspool.symm.trans hlast
      exact .inr ⟨.enter thread line.line, _, henter, hset _⟩
    · exact .inl ⟨(List.getElem?_set_ne heq).trans hspool, rfl⟩
  | aside hlast step | written hlast step => exact hspoolStep hlast step rfl rfl
  | _ => exact .inl ⟨hspool, rfl⟩

/-- Between two instants of a run each spool runs as it does alone. -/
theorem ownRun_of_run (hattached : Attached settings s before)
    (h : s.run actions = some (t, effects)) {i : Nat} {spool : Spool}
    (hspool : s.spools[i]? = some spool) :
    ∃ own next, t.spools[i]? = some next ∧ spool.run own = some (next, effectsOf i effects) := by
  refine run_induction_from (P := fun _ t effects => ∃ own next, t.spools[i]? = some next ∧
    spool.run own = some (next, effectsOf i effects)) hattached ⟨[], spool, hspool, rfl⟩ ?_ h
  intro _ s effects a t es hattached ih step
  obtain ⟨own, last, hlast, hrun⟩ := ih
  rcases ownStep_of_transition hattached step hlast with
    ⟨hsame, hnone⟩ | ⟨taken, next, htaken, hnext⟩
  · exact ⟨own, last, hsame, by rw [effectsOf_frame hnone, hrun]⟩
  · have hjoined := Spool.run_join hrun htaken (Spool.run_nil _)
    rw [List.append_nil, ← effectsOf_append] at hjoined
    exact ⟨own ++ [taken], next, hnext, hjoined⟩

/-! ## What recorders stay -/

theorem reset_of_transition (step : Transition s a t es) :
    t.sources.map Source.reset = s.sources.map Source.reset := by
  have hmodify : ∀ (k : Nat) (f : Source → Source), (∀ source, (f source).reset = source.reset) →
      (s.sources.modify k f).map Source.reset = s.sources.map Source.reset := by
    intro k f hf
    refine List.ext_getElem? fun j => ?_
    rw [List.getElem?_map, List.getElem?_map, List.getElem?_modify]
    cases s.sources[j]? with
    | none => rfl
    | some source => by_cases heq : k = j <;> simp [heq, hf]
  cases step with
  | ignored | built | relayed => exact hmodify _ _ fun _ => rfl
  | @counted thread line reply =>
    exact hmodify _ _ fun source => by cases reply <;> rfl
  | _ => rfl

/-- A recorder that is what it was, apart from what it has counted. -/
theorem source_of_reset (h : t.sources.map Source.reset = s.sources.map Source.reset) {k : Nat}
    {source : Source} (hsource : s.sources[k]? = some source) :
    ∃ next, t.sources[k]? = some next ∧ next.reset = source.reset := by
  have hk := congrArg (·[k]?) h
  simp only [List.getElem?_map, hsource, Option.map_some] at hk
  exact Option.map_eq_some_iff.mp hk

theorem reset_of_run (h : (start settings sources).run actions = some (s, effects)) :
    s.sources.map Source.reset = sources.map Source.reset := by
  refine run_induction ?_ (fun _ hs step => (reset_of_transition step).trans hs) h
  simp only [start, List.map_map]
  rfl

end LogSpool.Feed
