import LogSpool.Proofs.Spool.Transition
import Mathlib.Data.List.Induction
set_option autoImplicit false

/-!
# Spools: runs

A run grows at its end by one transition at a time.  `run_induction` turns that into the
one induction that every theorem about whole runs uses; `run_invariant` is its form for
properties of the state alone.
-/

namespace LogSpool.Spool

@[simp] theorem run_nil (s : Spool) : s.run [] = some (s, []) := rfl

theorem run_cons (s : Spool) (a : Action) (rest : List Action) :
    s.run (a :: rest) =
      (s.step a).bind fun r => (r.1.run rest).map fun q => (q.1, r.2 ++ q.2) := by
  simp only [run, Option.bind_eq_bind, Option.pure_def]
  cases s.step a with
  | none => rfl
  | some r =>
    simp only [Option.bind_some]
    cases r.1.run rest <;> rfl

theorem run_cons_of_transition {s t : Spool} {a : Action} {es : List Effect}
    (h : Transition s a t es) (rest : List Action) :
    s.run (a :: rest) = (t.run rest).map fun q => (q.1, es ++ q.2) := by
  rw [run_cons, h.step_eq, Option.bind_some]

theorem run_append (s : Spool) (before after : List Action) :
    s.run (before ++ after) =
      (s.run before).bind fun r => (r.1.run after).map fun q => (q.1, r.2 ++ q.2) := by
  induction before generalizing s with
  | nil => cases h : s.run after <;> simp [h]
  | cons a rest ih =>
    rw [List.cons_append, run_cons, run_cons]
    cases s.step a with
    | none => rfl
    | some r =>
      simp only [Option.bind_some, ih]
      cases r.1.run rest with
      | none => rfl
      | some q =>
        simp only [Option.bind_some, Option.map_some]
        cases q.1.run after <;> simp

/-- A run with a step in it is a run, a transition and another run. -/
theorem run_split {s u : Spool} {before after : List Action} {a : Action} {all : List Effect}
    (h : s.run (before ++ a :: after) = some (u, all)) :
    ∃ t v effects es more, s.run before = some (t, effects) ∧ Transition t a v es ∧
      v.run after = some (u, more) ∧ all = effects ++ (es ++ more) := by
  rw [run_append] at h
  obtain ⟨⟨t, effects⟩, ht, hlast⟩ := Option.bind_eq_some_iff.mp h
  obtain ⟨⟨w, gs⟩, hw, heq⟩ := Option.map_eq_some_iff.mp hlast
  cases heq
  rw [run_cons] at hw
  obtain ⟨⟨v, es⟩, hv, hw⟩ := Option.bind_eq_some_iff.mp hw
  obtain ⟨⟨x, more⟩, hx, heq⟩ := Option.map_eq_some_iff.mp hw
  cases heq
  exact ⟨t, v, effects, es, more, ht, .of_step hv, hx, rfl⟩

theorem run_concat {s u : Spool} {actions : List Action} {a : Action} {all : List Effect}
    (h : s.run (actions ++ [a]) = some (u, all)) :
    ∃ t effects es, s.run actions = some (t, effects) ∧ Transition t a u es ∧
      all = effects ++ es := by
  obtain ⟨t, v, effects, es, more, ht, step, hlast, rfl⟩ := run_split h
  cases hlast
  exact ⟨t, effects, es, ht, step, by rw [List.append_nil]⟩

theorem run_trans {s t u : Spool} {before after : List Action} {effects more : List Effect}
    (h : s.run before = some (t, effects)) (hafter : t.run after = some (u, more)) :
    s.run (before ++ after) = some (u, effects ++ more) := by
  rw [run_append, h, Option.bind_some, hafter, Option.map_some]

theorem run_join {s t u v : Spool} {before after : List Action} {a : Action}
    {effects es more : List Effect} (h : s.run before = some (t, effects))
    (step : Transition t a u es) (hafter : u.run after = some (v, more)) :
    s.run (before ++ a :: after) = some (v, effects ++ es ++ more) := by
  have hlast : t.run (a :: after) = some (v, es ++ more) := by
    rw [run_cons_of_transition step, hafter, Option.map_some]
  rw [run_trans h hlast, List.append_assoc]

/-- What is left of a run after the first part of it. -/
theorem run_rest {s t u : Spool} {before after : List Action} {effects all : List Effect}
    (h : s.run before = some (t, effects)) (hall : s.run (before ++ after) = some (u, all)) :
    ∃ more, t.run after = some (u, more) := by
  rw [run_append, h, Option.bind_some] at hall
  obtain ⟨⟨v, more⟩, hafter, heq⟩ := Option.map_eq_some_iff.mp hall
  cases heq
  exact ⟨more, hafter⟩

/-- The induction over runs: what holds at the start and is kept by every transition
after a run holds after every run. -/
theorem run_induction {s₀ : Spool} {P : List Action → Spool → List Effect → Prop}
    (base : P [] s₀ [])
    (next : ∀ {actions s effects a t es}, s₀.run actions = some (s, effects) →
      P actions s effects → Transition s a t es → P (actions ++ [a]) t (effects ++ es))
    {actions : List Action} {s : Spool} {effects : List Effect}
    (h : s₀.run actions = some (s, effects)) : P actions s effects := by
  induction actions using List.reverseRecOn generalizing s effects with
  | nil =>
    cases h
    exact base
  | append_singleton actions a ih =>
    obtain ⟨t, before, es, ht, ha, rfl⟩ := run_concat h
    exact next ht (ih ht) ha

theorem run_invariant {P : Spool → Prop}
    (preserve : ∀ {s a t es}, P s → Transition s a t es → P t)
    {s t : Spool} {actions : List Action} {effects : List Effect}
    (h : s.run actions = some (t, effects)) (hs : P s) : P t :=
  run_induction (P := fun _ t _ => P t) hs (fun _ ih ha => preserve ih ha) h

/-- What every transition of a kind keeps holds after every run of that kind. -/
theorem run_invariant_of {P : Spool → Prop} {Q : Action → Prop}
    (preserve : ∀ {s a t es}, P s → Q a → Transition s a t es → P t)
    {s t : Spool} {actions : List Action} {effects : List Effect}
    (h : s.run actions = some (t, effects)) (hall : ∀ a ∈ actions, Q a) (hs : P s) : P t := by
  refine run_induction (P := fun taken t _ => (∀ a ∈ taken, Q a) → P t) (fun _ => hs) ?_ h hall
  intro taken u _ a v _ _ ih step htaken
  have hbefore := ih fun b hb => htaken b (List.mem_append_left _ hb)
  exact preserve hbefore (htaken a (by simp)) step

end LogSpool.Spool
