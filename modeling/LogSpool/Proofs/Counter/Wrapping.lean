import LogSpool.Proofs.Counter.Sharing
set_option autoImplicit false

/-!
# Shared registries: one list after another

A list that is asked for after another was answered shows every name of the other.  What it shows
under a name is no less, unless additions in between went past the largest value of a counter:
`wraps` counts those additions, and each of them takes 2^64 off what the counter says.

Main result:

* `lists_rise_unless_wrapped`: whatever many threads ask for, add, count and list in between, the
  later of two lists has all names of the earlier one, and under each of them what the earlier one
  has there and all that was added between the two readings, less 2^64 for each addition that
  wrapped around.
-/

namespace LogSpool

/-- An addition goes past the largest value of a counter. -/
def Counter.wrapsAt (c : Counter) (n : UInt64) : Bool :=
  decide (UInt64.size ≤ c.value.toNat + n.toNat)

/-- What a counter says after an addition is the sum, less 2^64 if the addition goes past the
largest value. -/
theorem Counter.increment_add_wrapsAt (c : Counter) (n : UInt64) :
    (c.increment n).value.toNat + UInt64.size * (c.wrapsAt n).toNat =
      c.value.toNat + n.toNat := by
  have hvalue := c.value.toNat_lt_size
  have hn := n.toNat_lt_size
  rw [Counter.increment, UInt64.toNat_add, Counter.wrapsAt]
  by_cases hwraps : UInt64.size ≤ c.value.toNat + n.toNat
  · rw [decide_eq_true hwraps, Bool.toNat_true]
    simp only [UInt64.size] at *
    omega
  · rw [decide_eq_false hwraps, Bool.toNat_false]
    simp only [UInt64.size] at *
    omega

namespace SharedRegistry

variable {s t : SharedRegistry} {actions more : List SharingAction}
  {effects later : List SharingEffect} {name : String} {v w : UInt64}

/-! ## Additions that wrap around -/

/-- How many additions under a name go past the largest value, from what its counter says. -/
def wraps (name : String) : Counter → List SharingEffect → Nat
  | _, [] => 0
  | c, .added other n :: rest =>
    if other = name then (c.wrapsAt n).toNat + wraps name (c.increment n) rest
    else wraps name c rest
  | c, _ :: rest => wraps name c rest

/-- A counter wraps around once for each 2^64 in the sum. -/
theorem wraps_eq_div (name : String) (c : Counter) (effects : List SharingEffect) :
    wraps name c effects = (c.value.toNat + total name effects) / UInt64.size := by
  induction effects generalizing c with
  | nil => exact (Nat.div_eq_of_lt c.value.toNat_lt_size).symm
  | cons effect rest ih =>
    cases effect with
    | added other n =>
      by_cases hname : other = name
      · -- Value and addition are both below 2^64, so one addition carries at most once.
        simp only [wraps, total, if_pos hname, ih]
        rw [← Nat.add_assoc, ← c.increment_add_wrapsAt n, Nat.add_right_comm,
          Nat.add_mul_div_left _ _ (by decide : 0 < UInt64.size), Nat.add_comm]
      · simp [wraps, total, hname, ih]
    | given | listing | listed => simp [wraps, total, ih]

/-- A counter goes from one value to another while so much is added under its name. -/
structure Rises (name : String) (effects : List SharingEffect) (v w : UInt64) : Prop where
  /-- Each addition that wraps around takes 2^64 off the sum. -/
  sum : w.toNat + UInt64.size * wraps name ⟨v⟩ effects = v.toNat + total name effects
  /-- The counter says no less, unless more was taken off than was added. -/
  le_iff : v ≤ w ↔ UInt64.size * wraps name ⟨v⟩ effects ≤ total name effects
  /-- Nothing is taken off as long as the sum is within the range of a counter. -/
  unwrapped : wraps name ⟨v⟩ effects = 0 ↔ v.toNat + total name effects < UInt64.size

theorem Rises.of_sum (h : w.toNat = (v.toNat + total name effects) % UInt64.size) :
    Rises name effects v w := by
  have hwraps : wraps name ⟨v⟩ effects = (v.toNat + total name effects) / UInt64.size :=
    wraps_eq_div name ⟨v⟩ effects
  have hsum : w.toNat + UInt64.size * wraps name ⟨v⟩ effects = v.toNat + total name effects := by
    rw [h, hwraps]
    exact Nat.mod_add_div _ _
  refine ⟨hsum, ?_, ?_⟩
  · rw [UInt64.le_iff_toNat_le]
    omega
  · rw [hwraps, Nat.div_eq_zero_iff]
    simp [UInt64.size]

/-! ## Lists that are made at once -/

/-- What a snapshot shows at some instant is still shown at every later one, with what was added
since. -/
theorem rises_of_run (h : ({} : SharedRegistry).run actions = some (s, effects))
    (hmore : s.run more = some (t, later)) (hv : Keyed.get? s.registry.snapshot name = some v) :
    ∃ w, Keyed.get? t.registry.snapshot name = some w ∧ Rises name later v w := by
  have hbefore := faithful_of_run h
  have hafter := faithful_of_run (run_trans h hmore)
  obtain ⟨hname, rfl⟩ := Registry.of_get?_snapshot hbefore.distinct hv
  have hkept := (kept_of_run hmore).2.subset hname
  refine ⟨_, Registry.get?_snapshot hafter.distinct hkept, .of_sum ?_⟩
  rw [hafter.totals, hbefore.totals, total_append, Nat.mod_add_mod]

/-! ## Lists that others come between -/

/-- Where something stands in the back of a list, all of the front is before its last place. -/
theorem prefix_of_last {α : Type} {x : α} {front back before during : List α}
    (h : front ++ back = before ++ x :: during) (hback : x ∈ back) (hlast : x ∉ during) :
    front <+: before := by
  obtain ⟨between, rfl, -⟩ | ⟨between, rfl, hrest⟩ := List.append_eq_append_iff.mp h
  · exact List.prefix_append _ _
  · cases between with
    | nil => exact (List.append_nil before).symm ▸ List.prefix_rfl
    | cons y rest =>
      obtain ⟨-, rfl⟩ := List.cons.inj hrest
      exact absurd (List.mem_append_right rest hback) hlast

/-- What a list shows under a name is what was added under it by some moment of the run, which
comes after all that happened before the list was asked for. -/
theorem Faithful.reading (h : Faithful s effects) {caller : Nat} {result : List (String × UInt64)}
    (hstep : s.step (.finish caller) = some (t, [.listed caller result]))
    (hv : Keyed.get? result name = some v) :
    ∃ past, past <+: effects ∧ v.toNat = total name past % UInt64.size ∧
      ∀ front back, effects = front ++ back → .listing caller ∈ back → front <+: past := by
  obtain ⟨-, -, before, during, heffects, honce, hshown⟩ := h.listed hstep
  obtain ⟨past, rest, rfl, hvalue⟩ := hshown name v hv
  refine ⟨before ++ .listing caller :: past, ⟨rest, by simp [heffects]⟩, ?_,
    fun front back heq hback => ?_⟩
  · simpa [total] using hvalue
  · exact (prefix_of_last (heq.symm.trans heffects) hback honce).trans (List.prefix_append _ _)

/-- Whatever is asked of a registry, added to its counters and counted by the spools that use them,
in whatever order: a list that is made at once has all names of one made before it, and a list that
others come between has all names of one that was answered before it was asked for.  Under each name
it has what the list before has there and all that was added between the two readings, less 2^64 for
each addition that went past the largest value of a counter.  So it has no less unless more is taken
off than was added, and nothing is taken off as long as the sum stays below 2^64. -/
theorem lists_rise_unless_wrapped
    (h : ({} : SharedRegistry).run actions = some (s, effects)) :
    (∀ more t later, s.run more = some (t, later) →
      ∀ name v, Keyed.get? s.registry.snapshot name = some v →
        ∃ w, Keyed.get? t.registry.snapshot name = some w ∧ Rises name later v w) ∧
    ∀ c first t more u middle d second x,
      s.step (.finish c) = some (t, [.listed c first]) →
      t.run more = some (u, middle) → .listing d ∈ middle →
      u.step (.finish d) = some (x, [.listed d second]) →
      ∀ name v, Keyed.get? first name = some v →
        ∃ w past gap, Keyed.get? second name = some w ∧
          past <+: effects ∧ effects ++ [.listed c first] <+: past ++ gap ∧
          past ++ gap <+: effects ++ .listed c first :: middle ∧ Rises name gap v w := by
  refine ⟨fun more t later hmore name v => rises_of_run h hmore, ?_⟩
  intro c first t more u middle d second x hfirst hmore hasked hsecond name v hv
  have hbefore := faithful_of_run h
  have hkept := run_trans (run_of_step hfirst) hmore
  have hafter := faithful_of_run (run_trans h hkept)
  -- The name is still there when the second list is answered.
  have hname := (hbefore.listed hfirst).2.1 name |>.mp (by rw [hv]; rfl)
  obtain ⟨w, hw⟩ := Option.isSome_iff_exists.mp
    ((hafter.listed hsecond).2.1 name |>.mpr ((kept_of_run hkept).2.subset hname))
  obtain ⟨past, hpast, hvalue, -⟩ := hbefore.reading hfirst hv
  obtain ⟨all, hall, hother, hlate⟩ := hafter.reading hsecond hw
  -- The second reading comes after the first answer, so it comes after the first reading.
  have hanswered : effects ++ [.listed c first] <+: all :=
    hlate (effects ++ [.listed c first]) middle (by simp) hasked
  obtain ⟨gap, rfl⟩ := hpast.trans ((List.prefix_append _ _).trans hanswered)
  refine ⟨w, past, gap, hw, hpast, hanswered, by simpa using hall, .of_sum ?_⟩
  rw [hother, hvalue, total_append, Nat.mod_add_mod]

/-- A counter that says all it can and one that says 5, and a list that has come to both. -/
def brimming : List SharingAction :=
  [.look 0 "lost", .insert 0, .look 0 "kept", .insert 0, .add 0 18446744073709551615, .add 1 5,
    .list 1, .visit 1 0, .visit 1 0]

/-- While the next list is made, a spool drops a record, which it counts in the first of them, and
somebody adds to the other. -/
def spilling : List SharingAction :=
  [.start { capacity := 1, droppedCounter := "lost", writtenCounter := "kept" } 0 1,
    .spool 0 (.enter 0 [1]), .spool 0 (.advance 0), .spool 0 (.enter 1 [2]), .list 2, .add 1 7,
    .visit 2 1, .spool 0 (.advance 1), .spool 0 (.advance 1), .visit 2 0]

/-- The second list shows less of what was lost than the first one, although one record more was
lost, and more of what was kept.  A snapshot at once shows less as well: one addition wrapped
around. -/
theorem lists_rise_unless_wrapped_spilling :
    ∃ s t u x effects middle, ({} : SharedRegistry).run brimming = some (s, effects) ∧
      s.step (.finish 1) =
        some (t, [.listed 1 [("kept", 5), ("lost", 18446744073709551615)]]) ∧
      t.run spilling = some (u, middle) ∧ .listing 2 ∈ middle ∧
      u.step (.finish 2) = some (x, [.listed 2 [("kept", 12), ("lost", 0)]]) ∧
      (∃ gap, Rises "kept" gap 5 12) ∧
      (∃ gap, Rises "lost" gap 18446744073709551615 0 ∧
        total "lost" gap < UInt64.size * wraps "lost" ⟨18446744073709551615⟩ gap) ∧
      Keyed.get? u.registry.snapshot "lost" = some 0 ∧
      Rises "lost" middle 18446744073709551615 0 ∧
      wraps "lost" ⟨18446744073709551615⟩ middle = 1 := by
  obtain ⟨s, t, u, x, effects, middle, hrun, hfirst, hmore, hmiddle, hsecond, hnow⟩ :
      ∃ s t u x effects middle, ({} : SharedRegistry).run brimming = some (s, effects) ∧
        s.step (.finish 1) =
          some (t, [.listed 1 [("kept", 5), ("lost", 18446744073709551615)]]) ∧
        t.run spilling = some (u, middle) ∧
        middle = [.listing 2, .added "kept" 7, .added "lost" 1] ∧
        u.step (.finish 2) = some (x, [.listed 2 [("kept", 12), ("lost", 0)]]) ∧
        Keyed.get? t.registry.snapshot "lost" = some 18446744073709551615 := by
    -- The search for a name in an array has to be unfolded for this.
    with_unfolding_all exact ⟨_, _, _, _, _, _, rfl, rfl, rfl, rfl, rfl, rfl⟩
  have hasked : .listing 2 ∈ middle := by simp [hmiddle]
  obtain ⟨-, hlists⟩ := lists_rise_unless_wrapped hrun
  have hrises := hlists 1 _ t spilling u middle 2 _ x hfirst hmore hasked hsecond
  obtain ⟨kept, -, keptGap, hkept, -, -, -, hkeptRises⟩ := hrises "kept" 5 rfl
  obtain ⟨lost, -, lostGap, hlost, -, -, -, hlostRises⟩ := hrises "lost" 18446744073709551615 rfl
  cases hkept
  cases hlost
  have hless : total "lost" lostGap <
      UInt64.size * wraps "lost" ⟨18446744073709551615⟩ lostGap := by
    by_contra hmore
    exact absurd (hlostRises.le_iff.mpr (Nat.le_of_not_lt hmore)) (by decide)
  -- One after the other, the same without a list in the making.
  obtain ⟨hsnapshots, -⟩ := lists_rise_unless_wrapped (run_trans hrun (run_of_step hfirst))
  obtain ⟨w, hw, hwRises⟩ := hsnapshots spilling u middle hmore "lost" _ hnow
  have hwraps : wraps "lost" ⟨18446744073709551615⟩ middle = 1 := by rw [hmiddle]; decide
  have hzero : w = 0 := by
    have hsum := hwRises.sum
    rw [hwraps, hmiddle] at hsum
    refine UInt64.toNat_inj.mp ?_
    simpa [total, UInt64.size] using hsum
  rw [hzero] at hw hwRises
  exact ⟨s, t, u, x, effects, middle, hrun, hfirst, hmore, hasked, hsecond, ⟨keptGap, hkeptRises⟩,
    ⟨lostGap, hlostRises, hless⟩, hw, hwRises, hwraps⟩

end SharedRegistry

end LogSpool
