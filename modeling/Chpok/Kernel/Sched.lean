import Mathlib.Algebra.BigOperators.Group.List.Basic
import Mathlib.Data.Option.Basic
import Mathlib.Algebra.Order.Ring.Int

/-! Scheduling of partitions (`kernel/core/sched.c`): the slots of the module schedule are
entered one after another, and the frame is repeated. Times are in nanoseconds. -/

namespace Chpok

/-- `pok_sched_slot_t` -/
structure SchedSlot where
  duration : Int
  partition : Nat
  periodicProcessingStart : Bool
  deriving DecidableEq, Repr

/-- `pok_module_sched` and `pok_config_scheduling_major_frame`, as the configurator generates
them. -/
structure ModuleSched where
  slots : List SchedSlot
  majorFrame : Int
  nonempty : slots ≠ []
  positive : ∀ slot ∈ slots, 0 < slot.duration
  major : majorFrame = (slots.map SchedSlot.duration).sum

/-- The static variables of the scheduler, and the current partition. -/
structure Sched where
  firstFrameStarts : Int
  nextDeadline : Int
  nextMajorFrame : Int
  currentSlot : Nat
  currentPartition : Nat
  needRecheck : Bool
  deriving DecidableEq, Repr

namespace ModuleSched

/-- `pok_module_sched_n`, a `uint8_t` -/
def n (c : ModuleSched) : Nat := c.slots.length % 256

/-- `pok_sched_restart`. A read outside the array has no result. -/
def pokSchedRestart (c : ModuleSched) (now : Int) : Option Sched :=
  c.slots[0]?.map fun slot =>
    { firstFrameStarts := now
      nextDeadline := slot.duration + now
      nextMajorFrame := now + c.majorFrame
      currentSlot := 0
      currentPartition := slot.partition
      needRecheck := false }

/-- `pok_sched`, and whether it has entered a slot. The number of the current slot has 8 bits, as
has the number of slots. -/
def pokSched (c : ModuleSched) (s : Sched) (now : Int) : Option (Sched × Bool) :=
  if ¬ s.needRecheck then some (s, false)
  else if now < s.nextDeadline then some ({ s with needRecheck := false }, false)
  else
    let wraps := (s.currentSlot + 1) % 256 = c.n
    let slot := if wraps then 0 else (s.currentSlot + 1) % 256
    c.slots[slot]?.map fun next =>
      ({ s with
          needRecheck := false
          nextMajorFrame := if wraps then s.nextMajorFrame + c.majorFrame else s.nextMajorFrame
          currentSlot := slot
          nextDeadline := s.nextDeadline + next.duration
          currentPartition := next.partition }, true)

/-- The loop of `get_next_periodic_processing_start` -/
def nextProcessingStart (c : ModuleSched) (partition : Nat) : Nat → Nat → Int → Option Int
  | 0, _, _ => none
  | n + 1, slot, offset =>
    let index := if slot + 1 = c.n then 0 else slot + 1
    c.slots[index]?.bind fun next =>
      if next.periodicProcessingStart ∧ next.partition = partition then some offset
      else nextProcessingStart c partition n index (offset + next.duration)

/-- `get_next_periodic_processing_start`. The assertion at its end has no result. -/
def getNextPeriodicProcessingStart (c : ModuleSched) (s : Sched) : Option Int :=
  nextProcessingStart c s.currentPartition c.n s.currentSlot s.nextDeadline

end ModuleSched

/-- The scheduler with the slots entered so far and the times at which that was done. -/
structure SchedRun where
  sched : Sched
  entered : List (Nat × Int)

namespace ModuleSched

/-- `pok_sched` is called at the time `now` and has to recheck. -/
def step (c : ModuleSched) (s : SchedRun) (now : Int) : Option SchedRun :=
  (c.pokSched { s.sched with needRecheck := true } now).map fun r =>
    { sched := r.1
      entered := if r.2 then s.entered ++ [(r.1.currentSlot, now)] else s.entered }

def start (c : ModuleSched) (now : Int) : Option SchedRun :=
  (c.pokSchedRestart now).map fun s => { sched := s, entered := [(s.currentSlot, now)] }

end ModuleSched

end Chpok
