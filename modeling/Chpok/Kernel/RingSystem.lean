import Chpok.Kernel.QueuingPort

/-! The partitions with their ports, event rings and timers. Timer events come from
`pok_sched_on_time_changed` and from the end of `pok_sched` (`kernel/core/sched.c`), and the timer is
set by `sched_arinc` (`kernel/core/sched_arinc.c`). -/

namespace Chpok

/-- `timer` is the field of `pok_partition_t`; zero stands for no timer. `timerSet` tells the two
places behind the loop in `sched_arinc` apart: before and after `pok_partition_set_timer`. -/
structure RingSystem extends PortSystem where
  timer : Nat → Int
  timerSet : Nat → Bool

/-- `setTimer` is `pok_partition_set_timer` with the time of the first delayed event, and
`timeChanged` is the check of the timer at an interrupt, or when the partition is switched to. A
partition in its IDLE mode, or one that does not have the processor, makes no step of its own. -/
inductive RingInput where
  | port (e : PortInput)
  | setTimer (timer : Int)
  | timeChanged (now : Int)
  deriving DecidableEq

namespace RingSystem

/-- A timer that has expired becomes an event. -/
def timeChanged (s : RingSystem) (p : Nat) (now : Int) : Option RingSystem :=
  if s.timer p ≠ 0 ∧ s.timer p ≤ now then
    ((s.partitions p).addEvent ⟨0, .timer⟩).map fun part =>
      { s with
        toPortSystem := s.setPartition p part
        timer := Function.update s.timer p 0 }
  else some s

/-- One step of partition `e.1`. The timer is set before it is compared with the time. -/
def step (s : RingSystem) (e : Nat × RingInput) : Option RingSystem :=
  match e.2 with
  | .port .timerEvent => none
  | .port i =>
    if (s.partitions e.1).point = .timer ∧ s.timerSet e.1 = false ∧ i ≠ .restart then none
    else
      (s.toPortSystem.step (e.1, i)).map fun ports =>
        { s with
          toPortSystem := ports
          timerSet := Function.update s.timerSet e.1 false }
  | .setTimer timer =>
    if (s.partitions e.1).point = .timer ∧ s.timerSet e.1 = false then
      some { s with
        timer := Function.update s.timer e.1 timer
        timerSet := Function.update s.timerSet e.1 true }
    else none
  | .timeChanged now => s.timeChanged e.1 now

end RingSystem

end Chpok
