import LogSpool.Proofs.Session.Bystanders
import LogSpool.Proofs.Session.Waiting
set_option autoImplicit false

/-!
# Sessions: shutdowns in vain

A session that shuts a station down and is told that the time is up is, but for who waits there, the
session that closed the station and let the time pass: `shutdown_timed_out`.  The two waits go on in
step, as nobody notices a poll that finds nothing.
-/

namespace LogSpool

/-! ## Polls in vain -/

namespace Spool

variable {s : Spool} {call : Nat} {late : Bool} {p : Polled} {e : Effect}

theorem WorkerPoll.silent (h : WorkerPoll s call late p) (hresult : p.result? ≠ some (.ok ()))
    (he : e ∈ p.effects) : e = .detached := by
  cases h with
  | gone => exact absurd rfl hresult
  | expired => exact List.mem_singleton.mp he
  | asleep => cases he

/-- A poll in vain has no effect that a session notices. -/
theorem Poll.silent (h : Poll s call late p) (hresult : p.result? ≠ some (.ok ()))
    (he : e ∈ p.effects) : e = .drained call ∨ e = .detached := by
  cases h with
  | drained | overtaken => exact absurd rfl hresult
  | expired | asleep => cases he
  | claims hw hawake hnone hphase hunclaimed hp =>
    exact (List.mem_cons.mp he).imp_right (hp.silent hresult)
  | joining hw hphase hp => exact .inr (hp.silent hresult he)

end Spool

namespace Session

variable {s t u : Session} {i : Nat} {station : Station} {D : List (Nat × Deferred)} {r : Runtime}
  {t₀ : Timed} {first : Timed.Move} {number deadline : Nat}

theorem Unattended.of_work_eq (h : Unattended i D s t) (hi : s.stations[i]? = some station)
    {next : Spool} (heq : next.work = station.spool.work) :
    Unattended i D (s.putSpool i next) t := by
  have hhandles : next.work.handles = station.spool.work.handles := congrArg Spool.handles heq
  have hspare : holding i D < next.handles := Nat.lt_of_lt_of_eq (h.spare station hi) hhandles.symm
  have hput := h.putSpool hi fun _ => hspare
  have hstation := h.station i
  rw [hi, Option.map_some] at hstation
  have hsame : (({ station with spool := next } : Station).without (i == i)).spool =
      (station.without (i == i)).spool := by
    simp [Station.without, heq]
  rwa [hsame, putSpool_self hstation] at hput

/-- A poll in vain is not noticed. -/
theorem Unattended.poll (h : Unattended i D s t) (hi : s.stations[i]? = some station)
    (hwaits : station.spool.Waits number)
    (hresult : (Session.poll ⟨i, number, deadline⟩ s).2 ≠ some (.ok ())) :
    Unattended i D (Session.poll ⟨i, number, deadline⟩ s).1 t := by
  have hpolled := Spool.poll_cases hwaits (deadline ≤ s.now)
  simp only [Session.poll, hi] at hresult ⊢
  refine List.foldlRecOn (motive := fun u => Unattended i D u t) _ _
    (h.of_work_eq hi hpolled.work_eq) fun u hu e he => ?_
  obtain rfl | rfl := hpolled.silent hresult he
  · exact hu
  · exact hu

/-- A call is told that its time is up only when it is. -/
theorem late_of_poll (hi : s.stations[i]? = some station) (hwaits : station.spool.Waits number)
    {result : WaitResult} (hresult : (poll ⟨i, number, deadline⟩ s).2 = some result)
    (hvain : result ≠ .ok ()) : deadline ≤ s.now := by
  have hpolled := Spool.poll_cases hwaits (deadline ≤ s.now)
  simp only [poll, hi] at hresult
  obtain hok | ⟨hlate, -⟩ := hpolled.result_cases hresult
  · exact absurd hok hvain
  · exact of_decide_eq_true hlate

/-! ## Letting time pass -/

/-- A look whether a time has come. -/
def lookAt (target : Nat) : Look Unit Unit := fun _ s =>
  (s, if target ≤ s.now then .inr () else .inl ())

theorem now_setClock (s : Session) (now : Nat) : (s.setClock now).now = now :=
  (stepwise_now now).keeps.wakeDue (s := { s with now }) rfl

theorem now_settle (s : Session) : s.settle.now = s.now := (stepwise_now s.now).keeps.settle rfl

theorem waitUntil_lookAt_of_late {limit now : Nat} (hlate : limit ≤ t.now) :
    waitUntil (lookAt limit) (fun _ => []) limit now () t = (t.settle, some ()) := by
  rw [waitUntil, lookAt, now_settle, if_pos hlate]

/-- A wait for a time that is to come goes on at the next time at which something is due. -/
theorem waitUntil_lookAt_of_early {limit now : Nat} (hearly : t.now < limit)
    (hnext : now < t.settle.nextTime [] limit ∧ t.settle.nextTime [] limit ≤ limit) :
    waitUntil (lookAt limit) (fun _ => []) limit now () t =
      if limit ≤ t.settle.nextTime [] limit then
        (t.settle.setClock (t.settle.nextTime [] limit), some ())
      else waitUntil (lookAt limit) (fun _ => []) limit (t.settle.nextTime [] limit) ()
        (t.settle.setClock (t.settle.nextTime [] limit)) := by
  rw [waitUntil, lookAt, now_settle, if_neg (Nat.not_le.mpr hearly)]
  dsimp only
  rw [if_pos hnext]
  simp only [lookAt, now_setClock]
  by_cases hlast : limit ≤ t.settle.nextTime [] limit
  · simp only [if_pos hlast]
  · simp only [if_neg hlast]

/-! ## Waits in vain -/

/-- What comes of a look: nothing, before the limit and unnoticed, or something, which is unnoticed
and not before the limit if it was in vain. -/
inductive Looked {σ α : Type} (i limit now : Nat) (J : Nat → Session → Prop) (vain : α → Prop)
    (D : List (Nat × Deferred)) (t : Session) : Session × (σ ⊕ α) → Prop where
  | nothing {u : Session} {more : σ} (hearly : now < limit) (hstill : J now u)
      (hsame : Unattended i D u t) : Looked i limit now J vain D t (u, .inl more)
  | something {u : Session} {a : α} (hvain : vain a → limit ≤ now ∧ Unattended i D u t) :
      Looked i limit now J vain D t (u, .inr a)

/-- As long as a property lasts a look is noticed by nobody who does not wait, unless it finds what
is looked for. -/
structure Futile {σ α : Type} (i limit : Nat) (look : Look σ α) (J : Nat → Session → Prop)
    (vain : α → Prop) : Prop where
  now : ∀ {now s}, J now s → s.now = now
  settle : ∀ {now s}, J now s → J now s.settle
  clock : ∀ {now s} later, J now s → now < later → later ≤ limit → J later (s.setClock later)
  look : ∀ {now s t D} wait, J now s → Unattended i D s t →
    Looked i limit now J vain D t (look wait s)

namespace Futile

variable {σ α : Type} {limit now : Nat} {look : Look σ α} {J : Nat → Session → Prop}
  {vain : α → Prop} {wait more : σ}

/-- When a look finds nothing, the wait for the limit goes on to the same instant. -/
theorem next (hf : Futile i limit look J vain) (h : J now s) (hsame : Unattended i D s t)
    (heq : look wait s.settle = (u, .inl more)) {later : Nat} (hnext : now < later ∧ later ≤ limit)
    (hlater : u.nextTime [] limit = later) :
    ∃ D' v, J later (u.setClock later) ∧ Unattended i D' (u.setClock later) v ∧
      waitUntil (lookAt limit) (fun _ => []) limit now () t =
        if limit ≤ later then (v, some ())
        else waitUntil (lookAt limit) (fun _ => []) limit later () v := by
  subst hlater
  obtain ⟨D', hsettled⟩ := hsame.settle
  have hlooked := hf.look wait (hf.settle h) hsettled
  rw [heq] at hlooked
  cases hlooked with
  | nothing hearly hstill hwaits =>
    have hthere : t.now = now := hsame.now_eq.trans (hf.now h)
    rw [← hthere] at hearly
    rw [← hwaits.nextTime [] limit] at hnext ⊢
    exact ⟨D', _, hf.clock _ hstill hnext.1 hnext.2, hwaits.setClock _,
      waitUntil_lookAt_of_early hearly hnext⟩

/-- A wait in vain is a wait for the limit, but for who waits. -/
theorem waitUntil (hf : Futile i limit look J vain) (wait : σ) (h : J now s)
    (hvain : ∀ a, (waitUntil look (fun _ => []) limit now wait s).2 = some a → vain a) :
    ∀ {t : Session} {D : List (Nat × Deferred)}, Unattended i D s t →
      ∃ D', Unattended i D' (waitUntil look (fun _ => []) limit now wait s).1
        (waitUntil (lookAt limit) (fun _ => []) limit now () t).1 := by
  fun_induction Session.waitUntil look (fun _ => []) limit now wait s with
  | case1 now wait s u a heq =>
    intro t D hsame
    obtain ⟨D', hsettled⟩ := hsame.settle
    have hlooked := hf.look wait (hf.settle h) hsettled
    rw [heq] at hlooked
    cases hlooked with
    | something hends =>
      obtain ⟨hlate, hlast⟩ := hends (hvain a rfl)
      have hthere : t.now = now := hsame.now_eq.trans (hf.now h)
      rw [waitUntil_lookAt_of_late (hthere ▸ hlate)]
      exact ⟨D', hlast⟩
  | case2 now wait s u later heq next hnext v a hagain =>
    intro t D hsame
    obtain ⟨D', w, hstill, hset, hwait⟩ := hf.next h hsame heq hnext rfl
    have hlooked := hf.look later hstill hset
    rw [hagain] at hlooked
    cases hlooked with
    | something hends =>
      obtain ⟨hlate, hlast⟩ := hends (hvain a rfl)
      rw [hwait, if_pos hlate]
      exact ⟨D', hlast⟩
  | case3 now wait s u later heq next hnext v last hagain ih =>
    intro t D hsame
    obtain ⟨D', w, hstill, hset, hwait⟩ := hf.next h hsame heq hnext rfl
    have hlooked := hf.look later hstill hset
    rw [hagain] at hlooked
    cases hlooked with
    | nothing hearly hmore hlast =>
      rw [hwait, if_neg (Nat.not_le.mpr hearly)]
      exact ih hmore hvain hlast
  | case4 now wait s u later heq next hnext =>
    intro t D hsame
    obtain ⟨D', hsettled⟩ := hsame.settle
    have hlooked := hf.look wait (hf.settle h) hsettled
    rw [heq] at hlooked
    cases hlooked with
    | nothing hearly hstill =>
      -- Before the limit there is always a next time.
      have hbounds := nextTime_bounds u [] limit
      rw [hf.now hstill] at hbounds
      exact absurd ⟨hbounds.2 hearly, hbounds.1⟩ hnext

theorem await (hf : Futile i limit look J vain) (hsame : Unattended i D s t)
    (hfirst : Looked i limit s.now J vain D t (look wait s))
    (hvain : ∀ a, (s.await look limit wait).2 = some a → vain a) :
    ∃ D', Unattended i D' (s.await look limit wait).1 (t.await (lookAt limit) limit ()).1 := by
  have hthere : t.now = s.now := hsame.now_eq
  unfold Session.await at hvain ⊢
  generalize look wait s = looked at hfirst hvain
  cases hfirst with
  | nothing hearly hstill hwaits =>
    simp only [lookAt, hthere, if_neg (Nat.not_le.mpr hearly)]
    simp only [hf.now hstill] at hvain ⊢
    exact hf.waitUntil _ hstill hvain hwaits
  | @something u a hends =>
    obtain ⟨hlate, hlast⟩ := hends (hvain a rfl)
    simp only [lookAt, hthere, if_pos hlate]
    exact ⟨D, hlast⟩

end Futile

theorem futile_lookAt (i limit : Nat) :
    Futile i limit (lookAt limit) (fun now s => s.now = now) fun _ => True where
  now h := h
  settle h := (now_settle _).trans h
  clock later _ _ _ := now_setClock _ later
  look {now s t D} wait h hsame := by
    subst h
    unfold lookAt
    split
    · next hlate => exact .something fun _ => ⟨hlate, hsame⟩
    · next hearly => exact .nothing (Nat.not_le.mp hearly) rfl hsame

/-- A look whether a call has its answer is in vain unless all is done. -/
theorem looked_lookFor (hcalm : Calm s) (hready : At i (({} : Calls Nat).add number deadline)
      (Pollable r t₀ first number deadline) s) (hsame : Unattended i D s t) (wait : Unit) :
    Looked i deadline s.now (Awaiting r t₀ first i number deadline) (· ≠ .ok ()) D t
      (lookFor ⟨i, number, deadline⟩ wait s) := by
  have hpolled := poll_ends hcalm hready
  obtain ⟨station, hi, hpollable⟩ := hready
  have hunseen := @Unattended.poll _ _ _ _ _ number deadline hsame hi hpollable.waits
  have hlate := fun result => @late_of_poll _ _ _ number deadline hi hpollable.waits result
  unfold lookFor
  generalize Session.poll ⟨i, number, deadline⟩ s = polled at hpolled hunseen hlate
  obtain ⟨u, result⟩ := polled
  obtain ⟨rfl, hearly, hwaiting⟩ | ⟨result, rfl, -⟩ := hpolled
  · exact .nothing hearly hwaiting (hunseen (by simp))
  · exact .something fun hvain =>
      ⟨hlate result rfl hvain, hunseen fun hok => hvain (Option.some.inj hok)⟩

theorem futile_lookFor (hlatest : deadline ≤ r.latest) :
    Futile i deadline (lookFor ⟨i, number, deadline⟩) (Awaiting r t₀ first i number deadline)
      (· ≠ .ok ()) where
  now h := h.1
  settle h := keeps_awaiting.settle h
  clock later h hlt hle := h.setClock (Nat.le_of_lt hlt) hle hlatest
  look wait h hsame := by
    have hlooked := looked_lookFor h.2.1 h.pollable hsame wait
    rwa [h.1] at hlooked

/-! ## Shutdowns in vain -/

theorem advance_eq (s : Session) (ms : Nat) :
    s.advance ms = (s.await (lookAt (s.now + ms)) (s.now + ms) ()).1.settle := rfl

theorem Unattended.advance (h : Unattended i D s t) (ms : Nat) :
    ∃ D', Unattended i D' (s.advance ms) (t.advance ms) := by
  have hf := futile_lookAt i (s.now + ms)
  obtain ⟨D', hwaited⟩ := hf.await h (hf.look () rfl h) fun _ _ => trivial
  rw [advance_eq, advance_eq, h.now_eq]
  exact hwaited.settle

theorem take_eq (hi : s.stations[i]? = some station) (a : Action) :
    s.take i a = (station.spool.tryStep a).2.foldl (applyEffect i)
      (s.putSpool i (station.spool.tryStep a).1) := by
  unfold take takeSeeing
  cases hstep : station.spool.step a with
  | none =>
    rw [stepSpool_of_stuck hi hstep, Spool.tryStep_of_none hstep, putSpool_self hi]
  | some r =>
    have step := Spool.Transition.of_step hstep
    rw [stepSpool_eq hi step, Spool.tryStep_eq step]

/-- To close a station is to put its spool into another state, and to report that if it is news. -/
theorem close_eq (hi : s.stations[i]? = some station) (hhandles : 0 < station.spool.handles)
    (hwrites : station.spool.writes.isEmpty = true) :
    s.close i = (station.spool.closingReports.foldl (applyEffect i)
      (s.putSpool i station.spool.shut)).wakeWorker i := by
  have hclosed := take_eq hi .close
  rw [Spool.tryStep_eq (.close hhandles hwrites)] at hclosed
  have hannounced := take_eq (station_putSpool hi station.spool.close) .announce
  rw [Spool.tryStep_announce, putSpool_putSpool] at hannounced
  rw [close, hclosed]
  exact congrArg (·.wakeWorker i) hannounced

/-- A call starts to shut a station down where another session closes it. -/
theorem unattended_shutBy (h : Unattended i D s t) (hi : s.stations[i]? = some station)
    (hwrites : station.spool.writes.isEmpty = true) (call : Nat) :
    Unattended i D ((station.spool.closingReports.foldl (applyEffect i)
      (s.putSpool i (station.spool.shutBy call))).wakeWorker i) (t.close i) := by
  have hspare := h.spare station hi
  have hhandles : 0 < station.spool.handles := Nat.lt_of_le_of_lt (Nat.zero_le _) hspare
  have hstation := h.station i
  rw [hi, Option.map_some, beq_self_eq_true] at hstation
  have hclose := close_eq hstation hhandles hwrites
  have hput := @Unattended.putSpool _ _ _ _ _ h _ hi (station.spool.shutBy call) fun _ => hspare
  rw [beq_self_eq_true, Station.spool_without] at hput
  rw [Station.spool_without] at hclose
  rw [hclose]
  exact (hput.applyEffects i _).wakeWorker i

/-- Whatever a session was asked to do before, and whatever its sinks do: if it shuts a station down
and the answer is that the time is up it is, but for who waits at that station, the session that only
closed the station and let the same time pass.  Besides the deferred actions somebody has a handle to
the station, as the caller of a shutdown has. -/
theorem shutdown_timed_out (h : Reached s) (hi : s.stations[i]? = some station)
    (hspare : holding i s.deferred < station.spool.handles) {ms : Nat}
    (hvain : (s.shutdown i ms).2 ≠ .ok ()) :
    (s.shutdown i ms).1.modifyStation i (·.without true) =
      ((s.close i).advance ms).modifyStation i (·.without true) := by
  let r := upTo (s.now + ms)
  have hhandles : 0 < station.spool.handles := Nat.lt_of_le_of_lt (Nat.zero_le _) hspare
  let t := s.modifyStation i (·.without true)
  have hsame : Unattended i s.deferred s t := ⟨rfl, rfl, fun other hother => by
    cases hi.symm.trans hother
    exact hspare⟩
  obtain ⟨u, hstarted, hshut, hcalm, hnow, hready⟩ :=
    @startShutdown_ready _ _ _ r h.calm hi hhandles ms (Nat.le_refl _)
  obtain ⟨hwrites, -⟩ := h.calm i station hi
  have hclosed : Unattended i s.deferred u (t.close i) := hshut ▸ unattended_shutBy hsame hi hwrites _
  -- The call that shuts down waits in vain.
  obtain ⟨result, hsome, -⟩ := await_ends hcalm hready (Nat.le_refl _)
  have hcall := awaitCall_eq hsome
  rw [shutdown, hstarted] at hvain ⊢
  dsimp only at hvain ⊢
  rw [hcall] at hvain ⊢
  have hfutile : Futile i (s.now + ms) (lookFor ⟨i, station.spool.newCall, s.now + ms⟩)
      (Awaiting r (station.timed s.now) (.shutdown station.spool.newCall ms) i
        station.spool.newCall (s.now + ms)) (· ≠ .ok ()) := futile_lookFor (Nat.le_refl _)
  have hfirst := looked_lookFor hcalm hready hclosed ()
  obtain ⟨D, hwaited⟩ := hfutile.await hclosed hfirst fun other hother => by
    cases hsome.symm.trans hother
    exact hvain
  obtain ⟨D', hsettled⟩ := hwaited.settle
  -- So does the time that passes.
  obtain ⟨D'', hpassed⟩ := (hsame.close i).advance ms
  have hthen : (t.close i).now = s.now := hclosed.now_eq.trans hnow
  rw [advance_eq (t.close i), hthen] at hpassed
  exact hsettled.rest.symm.trans hpassed.rest

end Session

end LogSpool
