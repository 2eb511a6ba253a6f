import Chpok.Kernel.Sched
import Chpok.Library.SlotClock
import Chpok.Library.Run
import Mathlib.Tactic.Ring
import Mathlib.Data.Int.ConditionallyCompleteOrder

/-! Time partitioning without drift. The deadline of a slot is computed from the nominal one
of the slot before, so that late calls do not shift the schedule. -/

namespace Chpok

namespace ModuleSched

variable {c : ModuleSched} {s t : SchedRun} {now first : Int} {e : Nat}

def durations (c : ModuleSched) : List Int := c.slots.map SchedSlot.duration

/-- The nominal start of the `e`-th slot, counted from the first frame. -/
def nominalStart (c : ModuleSched) (first : Int) (e : Nat) : Int :=
  first + SlotClock.total c.durations e

theorem durations_length : c.durations.length = c.slots.length := List.length_map _

theorem length_pos : 0 < c.slots.length := List.length_pos_iff.mpr c.nonempty

theorem nominalStart_zero : c.nominalStart first 0 = first := by
  rw [nominalStart, SlotClock.total_zero, Int.add_zero]

theorem nominalStart_succ {slot : SchedSlot} (h : c.slots[e % c.slots.length]? = some slot) :
    c.nominalStart first (e + 1) = c.nominalStart first e + slot.duration := by
  have hget : c.durations.getD (e % c.durations.length) 0 = slot.duration := by
    rw [List.getD_eq_getElem?_getD, durations_length, durations, List.getElem?_map, h]
    rfl
  rw [nominalStart, SlotClock.total_succ, hget, nominalStart, Int.add_assoc]

theorem nominalStart_eq : c.nominalStart first e =
    first + (e / c.slots.length : Nat) * c.majorFrame +
      (c.durations.take (e % c.slots.length)).sum := by
  have hlt : e % c.slots.length < c.slots.length := Nat.mod_lt _ c.length_pos
  have hle : e % c.slots.length ≤ c.durations.length := durations_length.symm ▸ Nat.le_of_lt hlt
  have hsplit : e / c.slots.length * c.durations.length + e % c.slots.length = e := by
    rw [durations_length]
    exact Nat.div_add_mod' e c.slots.length
  have htotal := SlotClock.total_frames c.durations (e / c.slots.length) (e % c.slots.length)
  rw [hsplit, SlotClock.total_of_le hle, durations, ← c.major, ← durations] at htotal
  have hframes : (e / c.slots.length) • c.majorFrame =
      (e / c.slots.length : Nat) * c.majorFrame := Int.nsmul_eq_mul _ _
  rw [nominalStart, htotal, hframes, Int.add_assoc]

theorem getElem_mod (e : Nat) : ∃ slot, c.slots[e % c.slots.length]? = some slot ∧
    0 < slot.duration := by
  have hlt : e % c.slots.length < c.slots.length := Nat.mod_lt _ c.length_pos
  exact ⟨_, List.getElem?_eq_getElem hlt, c.positive _ (List.getElem_mem hlt)⟩

theorem nominalStart_strictMono : StrictMono (c.nominalStart first) := by
  apply strictMono_nat_of_lt_succ
  intro e
  obtain ⟨slot, hslot, hpos⟩ := c.getElem_mod e
  rw [nominalStart_succ hslot]
  omega

/-- The scheduler is in the `e`-th slot since the start. -/
structure InSlot (c : ModuleSched) (first : Int) (e : Nat) (s : SchedRun) : Prop where
  slot : s.sched.currentSlot = e % c.slots.length
  deadline : s.sched.nextDeadline = c.nominalStart first (e + 1)
  major : s.sched.nextMajorFrame = first + ((e / c.slots.length : Nat) + 1) * c.majorFrame
  count : s.entered.length = e + 1
  order : ∀ i slot time, s.entered[i]? = some (slot, time) →
    slot = i % c.slots.length ∧ c.nominalStart first i ≤ time

theorem start_inSlot (c : ModuleSched) (first : Int) :
    ∃ s, c.start first = some s ∧ c.InSlot first 0 s := by
  obtain ⟨slot, hslot, -⟩ := c.getElem_mod 0
  have hzero : c.slots[0]? = some slot := by rwa [Nat.zero_mod] at hslot
  refine ⟨_, by rw [start, pokSchedRestart, hzero]; rfl, (Nat.zero_mod _).symm, ?_, ?_, rfl, ?_⟩
  · rw [nominalStart_succ hslot, nominalStart_zero]
    exact Int.add_comm _ _
  · rw [Nat.zero_div]
    simp
  · intro i slot' time hi
    obtain ⟨hi, he⟩ := List.getElem?_eq_some_iff.mp hi
    have hi0 : i = 0 := Nat.lt_one_iff.mp hi
    subst hi0
    obtain ⟨rfl, rfl⟩ := Prod.mk.inj he
    exact ⟨(Nat.zero_mod _).symm, nominalStart_zero.le⟩

theorem InSlot.stay (hs : c.InSlot first e s) (hearly : now < s.sched.nextDeadline) :
    ∃ t, c.step s now = some t ∧ c.InSlot first e t := by
  have hsched : c.pokSched { s.sched with needRecheck := true } now =
      some ({ s.sched with needRecheck := false }, false) := by
    rw [pokSched, if_neg (not_not.mpr rfl), if_pos hearly]
  refine ⟨{ s with sched := { s.sched with needRecheck := false } }, ?_, hs.slot, hs.deadline,
    hs.major, hs.count, hs.order⟩
  rw [ModuleSched.step, hsched]
  rfl

/-- Up to 256 slots the 8-bit numbers tell the last slot: of 256 slots the number is 0, as is the
successor of the last one. -/
theorem succ_eq_n {i : Nat} (hsize : c.slots.length ≤ 256) (hi : i < c.slots.length) :
    (i + 1) % 256 = c.n ↔ i + 1 = c.slots.length := by
  unfold n
  omega

/-- The next slot is entered; after the last one that is the first slot of the next frame. -/
theorem InSlot.advance (hsize : c.slots.length ≤ 256) (hs : c.InSlot first e s)
    (hdue : s.sched.nextDeadline ≤ now) :
    ∃ t, c.step s now = some t ∧ c.InSlot first (e + 1) t := by
  obtain ⟨next, hnext, -⟩ := c.getElem_mod (e + 1)
  have hlt : e % c.slots.length < c.slots.length := Nat.mod_lt _ c.length_pos
  have hwraps := succ_eq_n hsize hlt
  obtain ⟨major, hmajor, hsched⟩ : ∃ major,
      major = first + (((e + 1) / c.slots.length : Nat) + 1) * c.majorFrame ∧
      c.pokSched { s.sched with needRecheck := true } now = some ({ s.sched with
        needRecheck := false
        nextMajorFrame := major
        currentSlot := (e + 1) % c.slots.length
        nextDeadline := s.sched.nextDeadline + next.duration
        currentPartition := next.partition }, true) := by
    rw [pokSched, if_neg (not_not.mpr rfl), if_neg (not_lt.mpr hdue)]
    dsimp only
    rw [hs.slot]
    by_cases hlast : e % c.slots.length + 1 = c.slots.length
    · obtain ⟨hmod, hdiv⟩ := SlotClock.succ_of_last c.length_pos hlast
      rw [hmod] at hnext
      refine ⟨s.sched.nextMajorFrame + c.majorFrame, ?_, ?_⟩
      · rw [hs.major, hdiv]
        push_cast
        ring
      · rw [if_pos (hwraps.mpr hlast), if_pos (hwraps.mpr hlast), hnext, hmod]
        rfl
    · obtain ⟨hmod, hdiv⟩ := SlotClock.succ_of_not_last c.length_pos hlast
      rw [hmod] at hnext
      refine ⟨s.sched.nextMajorFrame, ?_, ?_⟩
      · rw [hs.major, hdiv]
      · have hsmall : (e % c.slots.length + 1) % 256 = e % c.slots.length + 1 :=
          Nat.mod_eq_of_lt (by omega)
        rw [if_neg (mt hwraps.mp hlast), if_neg (mt hwraps.mp hlast), hsmall, hnext, hmod]
        rfl
  refine ⟨_, by rw [ModuleSched.step, hsched]; rfl, rfl, ?_, hmajor, ?_, ?_⟩
  · rw [nominalStart_succ hnext, ← hs.deadline]
  · change (s.entered ++ [((e + 1) % c.slots.length, now)]).length = _
    rw [List.length_append, hs.count]
    rfl
  · intro i slot time hi
    change (s.entered ++ [((e + 1) % c.slots.length, now)])[i]? = _ at hi
    rcases Nat.lt_trichotomy i (e + 1) with hlt | rfl | hgt
    · rw [List.getElem?_append_left (by rw [hs.count]; exact hlt)] at hi
      exact hs.order i slot time hi
    · rw [List.getElem?_append_right hs.count.le, hs.count, Nat.sub_self] at hi
      obtain ⟨rfl, rfl⟩ := Prod.mk.inj (Option.some.inj hi)
      exact ⟨rfl, hs.deadline ▸ hdue⟩
    · rw [List.getElem?_eq_none (by rw [List.length_append, hs.count]; exact hgt)] at hi
      cases hi

theorem InSlot.step (hsize : c.slots.length ≤ 256) (hs : c.InSlot first e s) (now : Int) :
    ∃ t, c.step s now = some t ∧ c.InSlot first (SlotClock.tick (c.nominalStart first) e now) t := by
  rw [SlotClock.tick, ← hs.deadline]
  by_cases hdue : s.sched.nextDeadline ≤ now
  · rw [if_pos hdue]
    exact hs.advance hsize hdue
  · rw [if_neg hdue]
    exact hs.stay (not_le.mp hdue)

theorem InSlot.run (hsize : c.slots.length ≤ 256) (hs : c.InSlot first e s) (times : List Int) :
    ∃ t, Run.exec c.step s times = some t ∧
      c.InSlot first (SlotClock.run (c.nominalStart first) e times) t := by
  induction times generalizing e s with
  | nil => exact ⟨s, rfl, hs⟩
  | cons now times ih =>
    obtain ⟨m, hm, hslot⟩ := hs.step hsize now
    obtain ⟨t, ht, hrun⟩ := ih hslot
    exact ⟨t, Run.exec_cons.mpr ⟨m, hm, ht⟩, hrun⟩

/-- Slots of one nanosecond, all of them for the first partition. -/
def unitSlots (k : Nat) : ModuleSched where
  slots := List.replicate (k + 1) ⟨1, 0, true⟩
  majorFrame := (k + 1 : Nat)
  nonempty := nofun
  positive := fun slot hslot => by
    rw [List.eq_of_mem_replicate hslot]
    exact Int.one_pos
  major := by simp

@[simp] theorem unitSlots_n (k : Nat) : (unitSlots k).n = (k + 1) % 256 := by
  rw [n, unitSlots, List.length_replicate]

end ModuleSched

end Chpok
