import Chpok.Kernel.Channel

/-! The ring of events of a partition (`kernel/core/partition.c`) and the code that drains it
(`kernel/core/sched_arinc.c`). An event is added with preemption disabled, in one step; the
consumer may be interrupted before each of its accesses to shared fields. -/

namespace Chpok

/-- The part of `pok_partition_t` that is about events. -/
structure PartitionEvents where
  events : Nat → PartitionEvent
  eventMax : Nat
  eventBegin : Nat
  eventEnd : Nat
  isEvent : Bool
  preemptLocalDisabled : Bool

namespace PartitionEvents

/-- `pok_partition_add_event`. A failed assertion has no result. -/
def addEvent (p : PartitionEvents) (event : PartitionEvent) : Option PartitionEvents :=
  let setEvent := p.eventEnd = p.eventBegin
  if p.eventMax = 0 then none
  else
    let next := if p.eventMax < (p.eventEnd + 1) % 65536 then 0 else (p.eventEnd + 1) % 65536
    if next = p.eventBegin then none
    else
      some { p with
        events := Function.update p.events p.eventEnd event
        eventEnd := next
        isEvent := if setEvent then true else p.isEvent }

/-- The position that `pok_partition_get_event` stores after it has read a slot. -/
def nextBegin (p : PartitionEvents) (start : Nat) : Nat :=
  if start = p.eventMax then 0 else (start + 1) % 65536

/-- `start_partition` -/
def startPartition (p : PartitionEvents) : PartitionEvents :=
  { p with isEvent := false, eventBegin := 0, eventEnd := 0, preemptLocalDisabled := true }

end PartitionEvents

/-- Where the partition is: in user code, in the kernel with local preemption disabled, at
the access to a shared field that comes next in `sched_arinc` and `pok_partition_get_event`,
behind the drain loop, or about to look at `is_event` again at the end of
`pok_preemption_local_enable`. -/
inductive DrainPoint where
  | user
  | kernel
  | testFlag
  | resetFlag
  | readBegin
  | readEnd (start : Nat)
  | readSlot (start : Nat)
  | storeBegin (start : Nat) (event : PartitionEvent)
  | drained
  | lookAgain
  deriving DecidableEq, Repr

/-- The events with all that have been added and consumed so far. -/
structure DrainSystem where
  ring : PartitionEvents
  point : DrainPoint
  added : List PartitionEvent
  consumed : List PartitionEvent

inductive DrainInput where
  | addEvent (event : PartitionEvent)
  | localDisable
  | localEnable
  | onEvent
  | advance
  | again
  | flagReset
  | onEventEnd (toUser : Bool)
  deriving DecidableEq, Repr

namespace DrainSystem

/-- The next access of the consumer to a shared field. -/
def advance (s : DrainSystem) : Option DrainSystem :=
  match s.point with
  | .testFlag => some { s with point := if s.ring.isEvent then .resetFlag else .drained }
  | .resetFlag => some { s with ring := { s.ring with isEvent := false }, point := .readBegin }
  | .readBegin => some { s with point := .readEnd s.ring.eventBegin }
  | .readEnd start =>
    some { s with point := if s.ring.eventEnd = start then .drained else .readSlot start }
  | .readSlot start => some { s with point := .storeBegin start (s.ring.events start) }
  | .storeBegin start event =>
    some { s with
      ring := { s.ring with eventBegin := s.ring.nextBegin start }
      point := .readBegin
      consumed := s.consumed ++ [event] }
  | .lookAgain =>
    -- The condition of the loop in `pok_preemption_local_enable`
    if s.ring.isEvent then
      some { s with ring := { s.ring with preemptLocalDisabled := true }, point := .testFlag }
    else some { s with point := .user }
  | _ => none

def step (s : DrainSystem) : DrainInput → Option DrainSystem
  | .addEvent event =>
    (s.ring.addEvent event).map fun ring => { s with ring, added := s.added ++ [event] }
  | .localDisable =>
    if s.point = .user then
      some { s with ring := { s.ring with preemptLocalDisabled := true }, point := .kernel }
    else none
  | .localEnable => if s.point = .kernel then some { s with point := .testFlag } else none
  | .onEvent =>
    -- From an interrupt, or when global preemption is enabled
    if (s.point = .user ∨ s.point = .lookAgain) ∧ ¬ s.ring.preemptLocalDisabled ∧ s.ring.isEvent then
      some { s with ring := { s.ring with preemptLocalDisabled := true }, point := .testFlag }
    else none
  | .advance => s.advance
  | .again => if s.point = .drained then some { s with point := .testFlag } else none
  | .flagReset =>
    if s.point = .drained then
      some { s with ring := { s.ring with preemptLocalDisabled := false }, point := .lookAgain }
    else none
  | .onEventEnd toUser =>
    -- The end of the loop that has called `on_event`, with global preemption disabled
    if s.point = .drained then
      if s.ring.isEvent then some { s with point := .testFlag }
      else
        some { s with
          ring := { s.ring with preemptLocalDisabled := false }
          point := if toUser then .user else .lookAgain }
    else none

/-- `start_partition` has run. -/
def boot (ring : PartitionEvents) : DrainSystem where
  ring := ring.startPartition
  point := .kernel
  added := []
  consumed := []

end DrainSystem

end Chpok
