import Chpok.Kernel.TimePartitioning

/-! The next periodic processing point of a partition (`get_next_periodic_processing_start`):
the start of its next slot that is marked for that, counted from the slot in force. -/

namespace Chpok

namespace ModuleSched

variable {c : ModuleSched} {s t : SchedRun} {first : Int} {e m n partition : Nat}
  {times later : List Int}

/-- The `m`-th slot since the start is a processing point of the partition. -/
def Marked (c : ModuleSched) (partition m : Nat) : Prop :=
  ∃ slot, c.slots[m % c.slots.length]? = some slot ∧ slot.periodicProcessingStart = true ∧
    slot.partition = partition

theorem n_eq (hsize : c.slots.length ≤ 255) : c.n = c.slots.length :=
  Nat.mod_eq_of_lt (Nat.lt_succ_of_le hsize)

/-- The loop looks at one slot after the other. -/
theorem nextProcessingStart_spec (hsize : c.slots.length ≤ 255) (first : Int) (partition e n : Nat) :
    (∀ r, c.nextProcessingStart partition n (e % c.slots.length) (c.nominalStart first (e + 1)) = some r →
      ∃ m, e < m ∧ m ≤ e + n ∧ c.Marked partition m ∧ (∀ j, e < j → j < m → ¬ c.Marked partition j) ∧
        r = c.nominalStart first m) ∧
    (c.nextProcessingStart partition n (e % c.slots.length) (c.nominalStart first (e + 1)) = none →
      ∀ j, e < j → j ≤ e + n → ¬ c.Marked partition j) := by
  induction n generalizing e with
  | zero =>
    refine ⟨nofun, fun _ j hj hle => ?_⟩
    omega
  | succ n ih =>
    have hindex : (if e % c.slots.length + 1 = c.slots.length then 0 else e % c.slots.length + 1) =
        (e + 1) % c.slots.length := by
      by_cases hlast : e % c.slots.length + 1 = c.slots.length
      · rw [if_pos hlast, (SlotClock.succ_of_last c.length_pos hlast).1]
      · rw [if_neg hlast, (SlotClock.succ_of_not_last c.length_pos hlast).1]
    obtain ⟨next, hnext, -⟩ := c.getElem_mod (e + 1)
    have hmarked : c.Marked partition (e + 1) ↔
        next.periodicProcessingStart = true ∧ next.partition = partition := by
      unfold Marked
      rw [hnext]
      simp
    rw [nextProcessingStart, n_eq hsize, hindex, hnext, Option.bind_some]
    by_cases hstart : next.periodicProcessingStart = true ∧ next.partition = partition
    · rw [if_pos hstart]
      refine ⟨fun r hr => ?_, nofun⟩
      refine ⟨e + 1, by omega, by omega, hmarked.mpr hstart, fun j hj hlt => ?_, ?_⟩
      · omega
      · exact (Option.some.inj hr).symm
    · rw [if_neg hstart, ← nominalStart_succ hnext]
      obtain ⟨hfound, hmissing⟩ := ih (e + 1)
      have hnot : ¬ c.Marked partition (e + 1) := fun h => hstart (hmarked.mp h)
      constructor
      · intro r hr
        obtain ⟨m, hlt, hle, hm, hbefore, hr⟩ := hfound r hr
        refine ⟨m, by omega, by omega, hm, fun j hj hjm => ?_, hr⟩
        rcases Nat.lt_or_ge (e + 1) j with hlt | hge
        · exact hbefore j hlt hjm
        · obtain rfl : j = e + 1 := by omega
          exact hnot
      · intro hnone j hj hle
        rcases Nat.lt_or_ge (e + 1) j with hlt | hge
        · exact hmissing hnone j hlt (by omega)
        · obtain rfl : j = e + 1 := by omega
          exact hnot

theorem exists_marked {slot : SchedSlot} (hslot : slot ∈ c.slots)
    (hstart : slot.periodicProcessingStart = true) (e : Nat) :
    ∃ m, e < m ∧ m ≤ e + c.slots.length ∧ c.Marked slot.partition m := by
  obtain ⟨i, hi, hget⟩ := List.getElem_of_mem hslot
  obtain ⟨m, hlt, hle, hm⟩ := SlotClock.exists_next hi e
  refine ⟨m, hlt, hle, slot, ?_, hstart, rfl⟩
  rw [hm, List.getElem?_eq_getElem hi, hget]

theorem nominalStart_frame (e : Nat) :
    c.nominalStart first (e + c.slots.length) = c.nominalStart first e + c.majorFrame := by
  have htotal : SlotClock.total c.durations (c.durations.length + e) =
      c.durations.sum + SlotClock.total c.durations e := SlotClock.total_add_length
  rw [durations_length, durations, ← c.major, ← durations] at htotal
  rw [nominalStart, nominalStart, Nat.add_comm, htotal]
  ring

/-! The scheduler in the slots -/

/-- The current partition is the one of the current slot. -/
def OnSlot (c : ModuleSched) (s : SchedRun) : Prop :=
  ∃ slot, c.slots[s.sched.currentSlot]? = some slot ∧ s.sched.currentPartition = slot.partition

theorem start_onSlot {now : Int} (h : c.start now = some s) : c.OnSlot s := by
  obtain ⟨sched, hsched, rfl⟩ := Option.map_eq_some_iff.mp h
  obtain ⟨slot, hslot, rfl⟩ := Option.map_eq_some_iff.mp hsched
  exact ⟨slot, hslot, rfl⟩

theorem step_onSlot {now : Int} (hs : c.OnSlot s) (h : c.step s now = some t) : c.OnSlot t := by
  obtain ⟨r, hr, rfl⟩ := Option.map_eq_some_iff.mp h
  unfold pokSched at hr
  rw [if_neg (not_not.mpr rfl)] at hr
  by_cases hearly : now < s.sched.nextDeadline
  · rw [if_pos hearly] at hr
    obtain rfl := Option.some.inj hr
    exact hs
  · rw [if_neg hearly] at hr
    obtain ⟨next, hnext, rfl⟩ := Option.map_eq_some_iff.mp hr
    exact ⟨next, hnext, rfl⟩

theorem step_entered {now : Int} (h : c.step s now = some t) : s.entered <+: t.entered := by
  obtain ⟨r, -, rfl⟩ := Option.map_eq_some_iff.mp h
  dsimp only
  split_ifs
  · exact List.prefix_append _ _
  · exact List.prefix_refl _

theorem exec_entered (h : Run.exec c.step s later = some t) : s.entered <+: t.entered := by
  induction later generalizing s with
  | nil =>
    obtain rfl := Option.some.inj h
    exact List.prefix_refl _
  | cons now later ih =>
    obtain ⟨r, hr, hrest⟩ := Run.exec_cons.mp h
    exact (step_entered hr).trans (ih hrest)

theorem advance_entered {now : Int} (hs : c.InSlot first e s) (hdue : s.sched.nextDeadline ≤ now)
    (ht : c.InSlot first (e + 1) t) (h : c.step s now = some t) :
    t.entered[e + 1]? = some ((e + 1) % c.slots.length, now) := by
  obtain ⟨r, hr, rfl⟩ := Option.map_eq_some_iff.mp h
  have henters : r.2 = true := by
    unfold pokSched at hr
    rw [if_neg (not_not.mpr rfl), if_neg (not_lt.mpr hdue)] at hr
    obtain ⟨next, -, rfl⟩ := Option.map_eq_some_iff.mp hr
    rfl
  have hslot : r.1.currentSlot = (e + 1) % c.slots.length := ht.slot
  simp [henters, hslot, ← hs.count]

/-- A scheduler that is called at the start of every slot enters the slots at their starts. -/
theorem entered_on_time (hsize : c.slots.length ≤ 255) (hs : c.InSlot first e s) (hsorted : later.Pairwise (· ≤ ·)) (hm : e < m)
    (hevery : ∀ j, e < j → j ≤ m → c.nominalStart first j ∈ later)
    (h : Run.exec c.step s later = some t) :
    t.entered[m]? = some (m % c.slots.length, c.nominalStart first m) := by
  induction later generalizing e s with
  | nil => cases hevery m hm (Nat.le_refl m)
  | cons now later ih =>
    obtain ⟨r, hr, hrest⟩ := Run.exec_cons.mp h
    obtain ⟨hfirst, hsorted'⟩ := List.pairwise_cons.mp hsorted
    have hnext := hevery (e + 1) (Nat.lt_succ_self e) hm
    by_cases hdue : s.sched.nextDeadline ≤ now
    · have hnow : now = c.nominalStart first (e + 1) := by
        apply le_antisymm
        · rcases List.mem_cons.mp hnext with he | hmem
          · exact he.ge
          · exact hfirst _ hmem
        · exact hs.deadline ▸ hdue
      obtain ⟨r', hr', hin⟩ := hs.advance (Nat.le_succ_of_le hsize) hdue
      obtain rfl : r = r' := Option.some.inj (hr.symm.trans hr')
      rcases Nat.lt_or_ge (e + 1) m with hlt | hge
      · apply ih hin hsorted' hlt _ hrest
        intro j hj hle
        apply (List.mem_cons.mp (hevery j (by omega) hle)).resolve_left
        have hlater : c.nominalStart first (e + 1) < c.nominalStart first j :=
          nominalStart_strictMono hj
        omega
      · obtain rfl : m = e + 1 := by omega
        have hentered := advance_entered hs hdue hin hr
        rw [← hnow]
        obtain ⟨after, hafter⟩ := exec_entered hrest
        have hlt : e + 1 < r.entered.length := by
          rw [hin.count]
          exact Nat.lt_succ_self _
        rw [← hafter, List.getElem?_append_left hlt, hentered]
    · obtain ⟨r', hr', hin⟩ := hs.stay (not_le.mp hdue)
      obtain rfl : r = r' := Option.some.inj (hr.symm.trans hr')
      apply ih hin hsorted' hm _ hrest
      intro j hj hle
      apply (List.mem_cons.mp (hevery j hj hle)).resolve_left
      have hlater : c.nominalStart first (e + 1) ≤ c.nominalStart first j :=
        nominalStart_strictMono.monotone hj
      rw [hs.deadline] at hdue
      omega

theorem exec_onSlot (hs : c.OnSlot s) (h : Run.exec c.step s later = some t) : c.OnSlot t :=
  Run.invariant (fun _ _ _ hs hstep => step_onSlot hs hstep) hs h

/-- Two partitions; the first one has its processing point in the first of two slots. -/
def twoPartitions : ModuleSched where
  slots := [⟨10, 0, true⟩, ⟨20, 1, true⟩, ⟨5, 0, false⟩]
  majorFrame := 35
  nonempty := nofun
  positive := by decide
  major := by decide

end ModuleSched

end Chpok
