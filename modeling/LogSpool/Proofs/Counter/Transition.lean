import LogSpool.Counter.Shared
import LogSpool.Proofs.Counter.Registry
set_option autoImplicit false

/-!
# Shared registries: steps and runs

`Transition` says what each step of a shared registry takes and does, and `run_induction` is the
one induction over its runs.  Counters that were given out stay given out, and names stay where
they stand: `kept_of_run`.
-/

namespace LogSpool.SharedRegistry

variable {s t u : SharedRegistry} {a : SharingAction} {actions : List SharingAction}
  {before effects es : List SharingEffect}

/-- A step of those who work with a registry. -/
inductive Transition (s : SharedRegistry) :
    SharingAction → SharedRegistry → List SharingEffect → Prop
  /-- A call finds the counter that it looks for. -/
  | found {caller : Nat} {name : String} {id : CounterId} (hfree : s.isFree caller = true)
      (hfind : s.registry.find? name = some id) :
      Transition s (.look caller name) (s.give ⟨name, id⟩) [.given caller ⟨name, id⟩]
  /-- It finds none. -/
  | missed {caller : Nat} {name : String} (hfree : s.isFree caller = true)
      (hfind : s.registry.find? name = none) :
      Transition s (.look caller name) { s with seeking := s.seeking.add caller name } []
  /-- A call that has found none comes back, alone. -/
  | inserted {caller : Nat} {name : String} (halone : s.listings.isEmpty = true)
      (hcall : s.seeking.find? caller = some name) :
      Transition s (.insert caller) (s.insert caller name).1
        [.given caller (s.insert caller name).2]
  /-- Somebody adds to a counter. -/
  | added {k : Nat} {handle : CounterHandle} (hhandle : s.handles[k]? = some handle) (n : UInt64) :
      Transition s (.add k n) (s.add handle n) [.added handle.name n]
  /-- A spool starts. -/
  | started {settings : SpoolSettings} {i j : Nat} {dropped written : CounterHandle}
      (hdropped : s.handles[i]? = some dropped) (hwritten : s.handles[j]? = some written)
      (hdroppedName : dropped.name = settings.droppedCounter)
      (hwrittenName : written.name = settings.writtenCounter) :
      Transition s (.start settings i j)
        { s with
          members := s.members ++ [⟨Spool.start settings.slots, settings, dropped.id, written.id⟩] }
        []
  /-- A spool takes a step, and counts what it counts. -/
  | counted {k : Nat} {member : CountedSpool} {a : Action} {next : Spool} {own : List Effect}
      (hmember : s.members[k]? = some member) (hstep : member.spool.step a = some (next, own)) :
      Transition s (.spool k a)
        (((Spool.countedFates own).map member.handle).foldl (fun s handle => s.add handle 1)
          { s with members := s.members.set k { member with spool := next } })
        (((Spool.countedFates own).map member.handle).map fun handle => .added handle.name 1)
  /-- A call starts to list all counters. -/
  | listing {caller : Nat} (hfree : s.isFree caller = true) :
      Transition s (.list caller)
        { s with
          listings := s.listings.add caller { rest := List.range s.registry.entries.size } }
        [.listing caller]
  /-- It comes to one of them. -/
  | visited {caller place : Nat} {l : Listing} {id : CounterId} {entry : String × Counter}
      (hlisting : s.listings.find? caller = some l) (hplace : l.rest[place]? = some id)
      (hentry : s.registry.entries[id]? = some entry) :
      Transition s (.visit caller place)
        { s with listings := s.listings.put caller (l.take place entry) } []
  /-- It is answered. -/
  | listed {caller : Nat} {taken : List (String × UInt64)}
      (hlisting : s.listings.find? caller = some ⟨[], taken⟩) :
      Transition s (.finish caller) { s with listings := s.listings.remove caller }
        [.listed caller (Keyed.ofList taken)]

theorem Transition.of_step (h : s.step a = some (t, es)) : Transition s a t es := by
  cases a with
  | look caller name =>
    simp only [step] at h
    split at h
    · next hfree =>
      split at h
      · next hfind =>
        cases h
        exact .found hfree hfind
      · next hfind =>
        cases h
        exact .missed hfree hfind
    · cases h
  | insert caller =>
    simp only [step] at h
    split at h
    · next halone =>
      obtain ⟨name, hcall, heq⟩ := Option.map_eq_some_iff.mp h
      cases heq
      exact .inserted halone hcall
    · cases h
  | add k n =>
    obtain ⟨handle, hhandle, heq⟩ := Option.map_eq_some_iff.mp h
    cases heq
    exact .added hhandle n
  | start settings i j =>
    simp only [step] at h
    split at h
    · next dropped written hdropped hwritten =>
      split at h
      · next hnames =>
        cases h
        exact .started hdropped hwritten hnames.1 hnames.2
      · cases h
    · cases h
  | spool k action =>
    obtain ⟨member, hmember, h⟩ := Option.bind_eq_some_iff.mp h
    obtain ⟨⟨next, own⟩, hstep, heq⟩ := Option.map_eq_some_iff.mp h
    cases heq
    exact .counted hmember hstep
  | list caller =>
    simp only [step] at h
    split at h
    · next hfree =>
      cases h
      exact .listing hfree
    · cases h
  | visit caller place =>
    obtain ⟨l, hlisting, h⟩ := Option.bind_eq_some_iff.mp h
    obtain ⟨id, hplace, h⟩ := Option.bind_eq_some_iff.mp h
    obtain ⟨entry, hentry, heq⟩ := Option.bind_eq_some_iff.mp h
    cases heq
    exact .visited hlisting hplace hentry
  | finish caller =>
    simp only [step] at h
    split at h
    · next hlisting =>
      cases h
      exact .listed hlisting
    · cases h

/-! ## Runs -/

/-- What every step keeps holds after every run. -/
theorem run_induction {P : SharedRegistry → List SharingEffect → Prop}
    (next : ∀ {s before a t es}, P s before → Transition s a t es → P t (before ++ es))
    (hs : P s before) (h : s.run actions = some (t, effects)) : P t (before ++ effects) := by
  induction actions generalizing s before effects with
  | nil =>
    cases h
    rwa [List.append_nil]
  | cons a rest ih =>
    simp only [run, Option.bind_eq_bind, Option.pure_def] at h
    obtain ⟨⟨u, es⟩, hu, h⟩ := Option.bind_eq_some_iff.mp h
    obtain ⟨⟨v, later⟩, hv, heq⟩ := Option.bind_eq_some_iff.mp h
    cases heq
    rw [← List.append_assoc]
    exact ih (next hs (.of_step hu)) hv

theorem run_of_step (h : s.step a = some (t, es)) : s.run [a] = some (t, es) := by
  simp [run, h]

theorem run_trans {more : List SharingAction} (h : s.run actions = some (t, effects))
    (hmore : t.run more = some (u, es)) : s.run (actions ++ more) = some (u, effects ++ es) := by
  induction actions generalizing s effects with
  | nil =>
    cases h
    exact hmore
  | cons a rest ih =>
    simp only [run, Option.bind_eq_bind, Option.pure_def] at h
    obtain ⟨⟨v, first⟩, hv, h⟩ := Option.bind_eq_some_iff.mp h
    obtain ⟨⟨w, later⟩, hw, heq⟩ := Option.bind_eq_some_iff.mp h
    cases heq
    simp [run, hv, ih hw]

/-! ## What stays -/

theorem addAll_frame (handles : List CounterHandle) (s : SharedRegistry) :
    let t := handles.foldl (fun s handle => s.add handle 1) s
    t.handles = s.handles ∧ t.registry.names = s.registry.names := by
  induction handles generalizing s with
  | nil => exact ⟨rfl, rfl⟩
  | cons handle rest ih =>
    obtain ⟨hhandles, hnames⟩ := ih (s.add handle 1)
    exact ⟨hhandles, hnames.trans (Registry.names_increment _ _ _)⟩

theorem kept_of_transition (step : Transition s a t es) :
    s.handles <+: t.handles ∧ s.registry.names <+: t.registry.names := by
  cases step with
  | found => exact ⟨List.prefix_append _ _, List.prefix_rfl⟩
  | inserted => exact ⟨List.prefix_append _ _, Registry.names_prefix_getOrInsert _ _⟩
  | added => exact ⟨List.prefix_rfl, by simp [add]⟩
  | @counted k member a next own hmember hstep =>
    obtain ⟨hhandles, hnames⟩ := addAll_frame ((Spool.countedFates own).map member.handle)
      { s with members := s.members.set k { member with spool := next } }
    rw [hhandles, hnames]
    exact ⟨List.prefix_rfl, List.prefix_rfl⟩
  | missed | started | listing | visited | listed => exact ⟨List.prefix_rfl, List.prefix_rfl⟩

/-- A run takes back no counter that was given out, and moves no name. -/
theorem kept_of_run (h : s.run actions = some (t, effects)) :
    s.handles <+: t.handles ∧ s.registry.names <+: t.registry.names := by
  let P (t : SharedRegistry) (_ : List SharingEffect) : Prop :=
    s.handles <+: t.handles ∧ s.registry.names <+: t.registry.names
  have hstart : P s [] := ⟨List.prefix_rfl, List.prefix_rfl⟩
  have hall : P t ([] ++ effects) := by
    refine run_induction (fun hkept step => ?_) hstart h
    obtain ⟨hhandles, hnames⟩ := kept_of_transition step
    exact ⟨hkept.1.trans hhandles, hkept.2.trans hnames⟩
  exact hall

end LogSpool.SharedRegistry
