import LogSpool.Proofs.Counter.Transition
set_option autoImplicit false

/-!
# Shared registries: what every step keeps

`Faithful` says that a registry has one counter for each name, which says what was added to the
counters given out under that name; `faithful_of_run` that this is so after every run.
`Listing.Follows` is the part of it about a list in the making, which sees the counters one after
the other while others go on to add to them.
-/

namespace LogSpool

open SharedRegistry (total)

@[simp] theorem SharedRegistry.total_append (name : String) (effects es : List SharingEffect) :
    total name (effects ++ es) = total name effects + total name es := by
  induction effects with
  | nil => exact (Nat.zero_add _).symm
  | cons effect rest ih => cases effect <;> simp [total, ih, Nat.add_assoc]

/-- A list in the making leaves out no counter, and shows of each what it said at some moment
since the list was started. -/
structure Listing.Follows (l : Listing) (caller : Nat) (r : Registry)
    (effects : List SharingEffect) : Prop where
  rest : ∀ id ∈ l.rest, id < r.names.length
  complete : ∀ id name, r.names[id]? = some name → id ∈ l.rest ∨ name ∈ l.taken.map (·.1)
  sound : ∀ entry ∈ l.taken, entry.1 ∈ r.names
  since : ∃ before during, effects = before ++ .listing caller :: during ∧
    .listing caller ∉ during ∧
    ∀ entry ∈ l.taken, ∃ past later, during = past ++ later ∧
      entry.2.toNat = total entry.1 (before ++ past) % UInt64.size

namespace Listing.Follows

variable {l : Listing} {caller : Nat} {r t : Registry} {effects es : List SharingEffect}

/-- A list goes on to follow the counters while others do something else. -/
theorem mono (h : l.Follows caller r effects) (hnames : t.names = r.names)
    (hes : .listing caller ∉ es) : l.Follows caller t (effects ++ es) where
  rest := hnames ▸ h.rest
  complete := hnames ▸ h.complete
  sound := hnames ▸ h.sound
  since := by
    obtain ⟨before, during, heffects, honce, htaken⟩ := h.since
    refine ⟨before, during ++ es, by simp [heffects], by simp [honce, hes], fun entry hentry => ?_⟩
    obtain ⟨past, later, hduring, hvalue⟩ := htaken entry hentry
    exact ⟨past, later ++ es, by simp [hduring], hvalue⟩

theorem of_start (caller : Nat) (r : Registry) (effects : List SharingEffect) :
    Follows { rest := List.range r.entries.size } caller r (effects ++ [.listing caller]) where
  rest := by simp [Registry.names]
  complete id name h := by
    obtain ⟨hlt, -⟩ := List.getElem?_eq_some_iff.mp h
    exact .inl (List.mem_range.mpr (by simpa [Registry.names] using hlt))
  sound := by simp
  since := ⟨effects, [], by simp⟩

/-- A list that comes to a counter goes on to follow them, if the counter says what was added
under its name. -/
theorem take (h : l.Follows caller r effects) {place : Nat} {id : CounterId}
    {entry : String × Counter} (hplace : l.rest[place]? = some id)
    (hentry : r.names[id]? = some entry.1)
    (hvalue : entry.2.value.toNat = total entry.1 effects % UInt64.size) :
    (l.take place entry).Follows caller r effects where
  rest other hother := h.rest other (List.mem_of_mem_eraseIdx hother)
  complete other name hname := by
    rcases h.complete other name hname with hleft | htaken
    · by_cases heq : other = id
      · right
        rw [heq, hentry] at hname
        simp [Listing.take, Option.some.inj hname]
      · left
        obtain ⟨k, hk⟩ := List.mem_iff_getElem?.mp hleft
        refine List.mem_eraseIdx_iff_getElem?.mpr ⟨k, ?_, hk⟩
        rintro rfl
        exact heq (Option.some.inj (hk.symm.trans hplace))
    · right
      simp only [Listing.take, List.map_append, List.mem_append]
      exact .inl htaken
  sound other hother := by
    rcases List.mem_append.mp hother with hbefore | hnow
    · exact h.sound other hbefore
    · cases List.mem_singleton.mp hnow
      exact List.mem_of_getElem? hentry
  since := by
    obtain ⟨before, during, heffects, honce, htaken⟩ := h.since
    refine ⟨before, during, heffects, honce, fun other hother => ?_⟩
    rcases List.mem_append.mp hother with hbefore | hnow
    · exact htaken other hbefore
    · cases List.mem_singleton.mp hnow
      refine ⟨during, [], (List.append_nil _).symm, hvalue.trans ?_⟩
      -- The start of the list adds nothing.
      simp [heffects, total]

end Listing.Follows

namespace SharedRegistry

variable {s t : SharedRegistry} {a : SharingAction} {actions : List SharingAction}
  {effects es : List SharingEffect}

theorem total_added (name : String) (handle : CounterHandle) (n : UInt64) :
    total name [.added handle.name n] = if name = handle.name then n.toNat else 0 := by
  simp [total, eq_comm]

/-! ## The invariant -/

/-- The registry has one counter for each name, which says what was added under the name. -/
structure Faithful (s : SharedRegistry) (effects : List SharingEffect) : Prop where
  distinct : s.registry.names.Nodup
  handles : ∀ handle ∈ s.handles, s.registry.find? handle.name = some handle.id
  given : ∀ caller handle, .given caller handle ∈ effects → handle ∈ s.handles
  members : ∀ member ∈ s.members, ∀ fate,
    s.registry.find? (member.handle fate).name = some (member.handle fate).id
  totals : ∀ name, (s.registry.valueOf name).toNat = total name effects % UInt64.size
  listings : ∀ caller l, s.listings.find? caller = some l → l.Follows caller s.registry effects

namespace Faithful

theorem empty : Faithful {} [] where
  distinct := List.nodup_nil
  handles := by simp
  given := by simp
  members := by simp
  totals name := by simp [Registry.valueOf, Registry.find?, total]
  listings _ _ h := by cases h

theorem value_eq (h : Faithful s effects) {name : String} {id : CounterId}
    (hfind : s.registry.find? name = some id) :
    (s.registry.value id).toNat = total name effects % UInt64.size := by
  have htotal := h.totals name
  rwa [Registry.valueOf, hfind] at htotal

/-- A step that gives a counter out, or nothing, and adds nothing to any. -/
theorem of_frame (h : Faithful s effects) (hregistry : t.registry = s.registry)
    (hquiet : ∀ name, total name es = 0)
    (hhandles : ∀ handle ∈ t.handles, handle ∈ s.handles ∨
      s.registry.find? handle.name = some handle.id)
    (hgiven : ∀ caller handle, .given caller handle ∈ effects ++ es → handle ∈ t.handles)
    (hmembers : ∀ member ∈ t.members, member ∈ s.members ∨
      ∀ fate, s.registry.find? (member.handle fate).name = some (member.handle fate).id)
    (hlistings : ∀ caller l, t.listings.find? caller = some l →
      l.Follows caller s.registry (effects ++ es)) :
    Faithful t (effects ++ es) where
  distinct := hregistry ▸ h.distinct
  handles handle hmem := by
    rw [hregistry]
    exact (hhandles handle hmem).elim (h.handles handle) id
  given := hgiven
  members member hmem := by
    rw [hregistry]
    exact (hmembers member hmem).elim (h.members member) id
  totals name := by
    rw [hregistry, total_append, hquiet, Nat.add_zero]
    exact h.totals name
  listings := hregistry ▸ hlistings

theorem add (h : Faithful s effects) {handle : CounterHandle}
    (hfind : s.registry.find? handle.name = some handle.id) (n : UInt64) :
    Faithful (s.add handle n) (effects ++ [.added handle.name n]) where
  distinct := by simpa [SharedRegistry.add] using h.distinct
  handles := by simpa [SharedRegistry.add] using h.handles
  given := by simpa [SharedRegistry.add] using h.given
  members := by simpa [SharedRegistry.add] using h.members
  totals name := by
    rw [SharedRegistry.add, Registry.valueOf_increment hfind, total_append, total_added]
    split
    · rw [UInt64.toNat_add, h.totals, Nat.mod_add_mod]
    · simpa using h.totals name
  listings caller l hlisting :=
    (h.listings caller l hlisting).mono (Registry.names_increment _ _ _) (by simp)

theorem addAll {handles : List CounterHandle} (h : Faithful s effects)
    (hfind : ∀ handle ∈ handles, s.registry.find? handle.name = some handle.id) :
    Faithful (handles.foldl (fun s handle => s.add handle 1) s)
      (effects ++ handles.map fun handle => .added handle.name 1) := by
  induction handles generalizing s effects with
  | nil => simpa using h
  | cons handle rest ih =>
    have hnext := ih (h.add (hfind handle List.mem_cons_self) 1) fun other hother => by
      simpa [SharedRegistry.add] using hfind other (List.mem_cons_of_mem _ hother)
    simpa using hnext

/-- A counter that is added says nothing yet, and is found under its name. -/
theorem insert (h : Faithful s effects) (halone : s.listings.isEmpty = true) (caller : Nat)
    (name : String) :
    Faithful (s.insert caller name).1 (effects ++ [.given caller (s.insert caller name).2]) where
  distinct := Registry.nodup_getOrInsert h.distinct name
  handles handle hmem := by
    rcases List.mem_append.mp hmem with hold | hnew
    · exact Registry.find?_of_longer (Registry.names_prefix_getOrInsert _ _) (h.handles handle hold)
    · cases List.mem_singleton.mp hnew
      exact Registry.find?_getOrInsert _ _
  given other handle hgiven := by
    rcases List.mem_append.mp hgiven with hold | hnew
    · exact List.mem_append_left _ (h.given other handle hold)
    · cases List.mem_singleton.mp hnew
      exact List.mem_append_right _ List.mem_cons_self
  members member hmem fate :=
    Registry.find?_of_longer (Registry.names_prefix_getOrInsert _ _) (h.members member hmem fate)
  totals other := by
    rw [total_append]
    simpa [SharedRegistry.insert, give, Registry.valueOf_getOrInsert, total] using h.totals other
  listings other l hlisting := by
    rw [show (s.insert caller name).1.listings = s.listings from rfl,
      Calls.isEmpty_iff.mp halone] at hlisting
    cases hlisting

theorem preserve (h : Faithful s effects) (step : Transition s a t es) :
    Faithful t (effects ++ es) := by
  have hothers : ∀ {es : List SharingEffect} {caller l}, s.listings.find? caller = some l →
      .listing caller ∉ es → l.Follows caller s.registry (effects ++ es) :=
    fun hlisting hes => (h.listings _ _ hlisting).mono rfl hes
  cases step with
  | @found caller name id hfree hfind =>
    refine h.of_frame rfl (fun _ => rfl) (fun handle hmem => ?_) (fun other handle hgiven => ?_)
      (fun _ => .inl) fun _ _ hlisting => hothers hlisting (by simp)
    · rcases List.mem_append.mp hmem with hold | hnew
      · exact .inl hold
      · cases List.mem_singleton.mp hnew
        exact .inr hfind
    · rcases List.mem_append.mp hgiven with hold | hnew
      · exact List.mem_append_left _ (h.given other handle hold)
      · cases List.mem_singleton.mp hnew
        exact List.mem_append_right _ List.mem_cons_self
  | missed =>
    refine h.of_frame rfl (fun _ => rfl) (fun _ => .inl) ?_ (fun _ => .inl)
      fun _ _ hlisting => hothers hlisting (by simp)
    simpa using h.given
  | @inserted caller name halone hcall => exact h.insert halone caller name
  | added hhandle n => exact h.add (h.handles _ (List.mem_of_getElem? hhandle)) n
  | @started settings i j dropped written hdropped hwritten hdroppedName hwrittenName =>
    refine h.of_frame rfl (fun _ => rfl) (fun _ => .inl) ?_ (fun member hmem => ?_)
      fun _ _ hlisting => hothers hlisting (by simp)
    · simpa using h.given
    · rcases List.mem_append.mp hmem with hold | hnew
      · exact .inl hold
      · cases List.mem_singleton.mp hnew
        have hfoundDropped := h.handles dropped (List.mem_of_getElem? hdropped)
        have hfoundWritten := h.handles written (List.mem_of_getElem? hwritten)
        rw [hdroppedName] at hfoundDropped
        rw [hwrittenName] at hfoundWritten
        refine .inr fun fate => ?_
        cases fate with
        | written => exact hfoundWritten
        | dropped => exact hfoundDropped
  | @counted k member a next own hmember hstep =>
    have hcounts := h.members member (List.mem_of_getElem? hmember)
    refine addAll ?_ fun handle hmem => ?_
    · rw [← List.append_nil effects]
      refine h.of_frame rfl (fun _ => rfl) (fun _ => .inl) (by simpa using h.given)
        (fun other hother => ?_) fun _ _ hlisting => hothers hlisting (by simp)
      rcases List.mem_or_eq_of_mem_set hother with hold | rfl
      · exact .inl hold
      · exact .inr hcounts
    · obtain ⟨fate, -, rfl⟩ := List.mem_map.mp hmem
      exact hcounts fate
  | @listing caller hfree =>
    refine h.of_frame rfl (fun _ => rfl) (fun _ => .inl) ?_ (fun _ => .inl)
      fun other l hlisting => ?_
    · simpa using h.given
    · rcases Calls.find?_of_add hlisting with ⟨rfl, rfl⟩ | ⟨hne, hlisting⟩
      · exact .of_start other s.registry effects
      · exact hothers hlisting (by simpa using hne)
  | @visited caller place l id entry hlisting hplace hentry =>
    refine h.of_frame rfl (fun _ => rfl) (fun _ => .inl) ?_ (fun _ => .inl)
      fun other m hother => ?_
    · simpa using h.given
    · rcases Calls.find?_of_put hother with ⟨rfl, rfl⟩ | ⟨-, hother⟩
      · have hname : s.registry.names[id]? = some entry.1 := by simp [Registry.names, hentry]
        have hvalue := h.value_eq ((Registry.find?_eq_some_iff h.distinct).mpr hname)
        rw [Registry.value, hentry] at hvalue
        rw [List.append_nil]
        exact (h.listings other l hlisting).take hplace hname hvalue
      · exact hothers hother (by simp)
  | @listed caller taken hlisting =>
    refine h.of_frame rfl (fun _ => rfl) (fun _ => .inl) ?_ (fun _ => .inl)
      fun other m hother => hothers (Calls.find?_of_remove hother).2 (by simp)
    simpa using h.given

end Faithful

theorem faithful_of_run (h : ({} : SharedRegistry).run actions = some (s, effects)) :
    Faithful s effects := by
  have hrun := run_induction (fun h step => Faithful.preserve h step) Faithful.empty h
  rwa [List.nil_append] at hrun

end SharedRegistry

end LogSpool
