import Chpok.Kernel.Channel
import Chpok.Library.Run

/-! Queuing ports of all partitions (`kernel/core/port.c`) and the part of the local
scheduler that serves them (`kernel/core/sched_arinc.c`). One step is the code of a
partition up to the end of its next operation on a channel or on an event ring, so
other partitions may act between any two steps. -/

namespace Chpok

/-- `pok_queuing_discipline_t` -/
inductive QueuingDiscipline where
  | fifo
  | priority
  deriving DecidableEq, Repr

/-- What a blocked thread keeps for the queue it is in: `wait_priority` and `wait_len`. -/
structure PortWaiter where
  thread : Nat
  waitPriority : Nat
  waitLen : Nat
  deriving DecidableEq, Repr

/-- `pok_port_queuing_t`; the channel is given by its index. -/
structure QueuingPort where
  waiters : List PortWaiter
  channel : Nat
  direction : Side
  discipline : QueuingDiscipline
  isCreated : Bool
  deriving DecidableEq, Repr

/-- `pok_thread_wq_add_prio` -/
def threadWqAddPrio : List PortWaiter → PortWaiter → List PortWaiter
  | [], t => [t]
  | other :: rest, t =>
    if other.waitPriority < t.waitPriority then t :: other :: rest
    else other :: threadWqAddPrio rest t

/-- `pok_thread_wq_add_common` -/
def threadWqAddCommon (waiters : List PortWaiter) (t : PortWaiter) :
    QueuingDiscipline → List PortWaiter
  | .fifo => waiters ++ [t]
  | .priority => threadWqAddPrio waiters t

namespace QueuingPort

/-- `pok_port_queuing_init` -/
def init (port : QueuingPort) : QueuingPort := { port with waiters := [], isCreated := false }

/-- `pok_thread_wq_remove`, for the threads of a list. -/
def remove (port : QueuingPort) (threads : List Nat) : QueuingPort :=
  { port with waiters := port.waiters.filter fun t => t.thread ∉ threads }

end QueuingPort

/-- Where the code of a partition stands: outside the sections with local preemption
disabled, in a call that found a message or a free slot, in `sched_arinc`, in
`port_queuing_fired`, or about to enable local preemption. -/
inductive PortPoint where
  | outside
  | consume (id : Nat)
  | produce (id len : Nat)
  | again
  | drain
  | fired (id : Nat)
  | firedConsume (id : Nat)
  | firedProduce (id len : Nat)
  | timer
  | enable
  deriving DecidableEq, Repr

structure PortPartition where
  generation : Nat
  normal : Bool
  ports : List QueuingPort
  events : List PartitionEvent
  eventMax : Nat
  isEvent : Bool
  point : PortPoint
  deriving DecidableEq, Repr

namespace PortPartition

/-- `pok_partition_add_event`. An overfull ring fails an assertion. -/
def addEvent (part : PortPartition) (event : PartitionEvent) : Option PortPartition :=
  if part.events.length < part.eventMax then
    some { part with
      events := part.events ++ [event]
      isEvent := part.isEvent || part.events.isEmpty }
  else none

/-- `get_port_queuing`. The entry behind the last one passes the check; there is no port
to be read there. -/
def getPortQueuing (part : PortPartition) (id : Nat) : Option (Option QueuingPort) :=
  if part.ports.length < id then some none
  else part.ports[id]?.map fun port => if port.isCreated then some port else none

def setPort (part : PortPartition) (id : Nat) (port : QueuingPort) : PortPartition :=
  { part with ports := part.ports.set id port }

/-- Threads whose wait ends by a timeout or a STOP leave the queue they are in. -/
def remove (part : PortPartition) (threads : List Nat) : PortPartition :=
  { part with ports := part.ports.map (·.remove threads) }

/-- A running thread is in no queue. -/
def Waits (part : PortPartition) (thread : Nat) : Prop :=
  ∃ port ∈ part.ports, ∃ t ∈ port.waiters, t.thread = thread

instance (part : PortPartition) (thread : Nat) : Decidable (part.Waits thread) :=
  inferInstanceAs (Decidable (∃ port ∈ part.ports, ∃ t ∈ port.waiters, t.thread = thread))

/-- `pok_partition_reset`, `start_partition` and `partition_arinc_start`. -/
def restart (part : PortPartition) : PortPartition :=
  { part with
    generation := nextGeneration part.generation
    normal := false
    ports := part.ports.map QueuingPort.init
    events := []
    isEvent := false
    point := .outside }

end PortPartition

/-- `part` gives the partition at each side of a channel. -/
structure PortSystem where
  partitions : Nat → PortPartition
  channels : Nat → ChannelQueuing
  part : Nat → Side → Nat

/-- What the code of a partition does next. `mayWait` says that the timeout is not zero,
that preemption is not locked and that the caller is not the error handler. `resume` goes
on with the section that has been begun: `due` says whether the timer has expired
meanwhile, `expired` which waits have, and `bytes` is what a sender's buffer holds. -/
inductive PortInput where
  | create (id messageSize maxNbMessage : Nat) (direction : Side) (discipline : QueuingDiscipline)
  | setModeNormal
  | receive (id thread priority : Nat) (mayWait : Bool)
  | send (id thread priority len : Nat) (mayWait : Bool)
  | clear (id : Nat)
  | stop (thread : Nat)
  | timerEvent
  | onEvent
  | restart
  | resume (due : Bool) (expired : List Nat) (bytes : List UInt8)
  deriving DecidableEq

namespace PortSystem

def setPartition (s : PortSystem) (p : Nat) (part : PortPartition) : PortSystem :=
  { s with partitions := Function.update s.partitions p part }

def setChannel (s : PortSystem) (ch : Nat) (channel : ChannelQueuing) : PortSystem :=
  { s with channels := Function.update s.channels ch channel }

def setPoint (s : PortSystem) (p : Nat) (point : PortPoint) : PortSystem :=
  s.setPartition p { s.partitions p with point := point }

/-- The event that an operation raises at the other side of its channel. -/
def notify (s : PortSystem) (ch : Nat) (side : Side) : Option PartitionEvent → Option PortSystem
  | none => some s
  | some event =>
    ((s.partitions (s.part ch side)).addEvent event).map (s.setPartition (s.part ch side))

def sideGeneration (s : PortSystem) (ch : Nat) (side : Side) : Nat :=
  (s.partitions (s.part ch side)).generation

/-- `port_queuing_receive`, without the copy of the message to the thread. -/
def portQueuingReceive (s : PortSystem) (ch : Nat) : Option PortSystem :=
  ((s.channels ch).rConsumeMessage (s.sideGeneration ch .send)).bind fun r =>
    (s.setChannel ch r.1).notify ch .send r.2.2

/-- `port_queuing_send` after `s_get_message` has given the slot. -/
def portQueuingSend (s : PortSystem) (ch : Nat) (bytes : List UInt8) : Option PortSystem :=
  (((s.channels ch).fill (s.channels ch).send.nextMessage bytes).sProduceMessage
    (s.sideGeneration ch .recv) bytes.length).bind fun r =>
    (s.setChannel ch r.1).notify ch .recv r.2

/-- The caller joins the waiters and its section ends. -/
def block (s : PortSystem) (p id : Nat) (port : QueuingPort) (t : PortWaiter) : PortSystem :=
  s.setPartition p { (s.partitions p).setPort id { port with
    waiters := threadWqAddCommon port.waiters t port.discipline } with point := .again }

/-- `pok_port_queuing_receive` up to the channel operation. -/
def receive (s : PortSystem) (p id : Nat) (port : QueuingPort) (t : PortWaiter)
    (mayWait : Bool) : Option PortSystem :=
  if port.direction ≠ .recv then some s
  else if port.waiters ≠ [] then
    some (if mayWait then s.block p id port t else s.setPoint p .again)
  else ((s.channels port.channel).rGetMessage mayWait).map fun r =>
    match r.2 with
    | some _ => (s.setChannel port.channel r.1).setPoint p (.consume id)
    | none =>
      if mayWait then (s.setChannel port.channel r.1).block p id port t
      else (s.setChannel port.channel r.1).setPoint p .again

/-- `pok_port_queuing_send` up to the channel operation. -/
def send (s : PortSystem) (p id : Nat) (port : QueuingPort) (t : PortWaiter)
    (mayWait : Bool) : Option PortSystem :=
  if port.direction ≠ .send then some s
  else if t.waitLen = 0 ∨ (s.channels port.channel).maxMessageSize < t.waitLen then some s
  else if port.waiters ≠ [] then
    some (if mayWait then s.block p id port t else s.setPoint p .again)
  else ((s.channels port.channel).sGetMessage mayWait).map fun r =>
    match r.2 with
    | some _ => (s.setChannel port.channel r.1).setPoint p (.produce id t.waitLen)
    | none =>
      if mayWait then (s.setChannel port.channel r.1).block p id port t
      else (s.setChannel port.channel r.1).setPoint p .again

/-- `pok_channel_queuing_side_init` for the side of a port. -/
def sideInit (s : PortSystem) (p id : Nat) (port : QueuingPort) : PortSystem :=
  s.setChannel port.channel
    ((s.channels port.channel).sideInit port.direction (s.partitions p).generation id)

/-- `pok_port_queuing_clear` up to the channel operation. -/
def clear (s : PortSystem) (p id : Nat) (port : QueuingPort) : PortSystem :=
  if port.direction ≠ .recv then s else (s.sideInit p id port).setPoint p .again

/-- `pok_port_queuing_create` of the port that has been found by its name. -/
def create (s : PortSystem) (p id : Nat) (port : QueuingPort) (messageSize maxNbMessage : Nat)
    (direction : Side) (discipline : QueuingDiscipline) : PortSystem :=
  if port.isCreated then s
  else if messageSize ≠ (s.channels port.channel).maxMessageSize then s
  else if direction ≠ port.direction then s
  else if maxNbMessage ≠ (match direction with
      | .recv => (s.channels port.channel).recv.maxNbMessage
      | .send => (s.channels port.channel).send.maxNbMessage) then s
  else if (s.partitions p).normal then s
  else
    (s.setPartition p ((s.partitions p).setPort id
      { port with isCreated := true, discipline := discipline })).sideInit p id port

/-- `pok_thread_wq_wake_up` leaves the `rest` of the waiters. -/
def wakeUp (s : PortSystem) (p id : Nat) (port : QueuingPort) (rest : List PortWaiter)
    (point : PortPoint) : PortSystem :=
  s.setPartition p { (s.partitions p).setPort id { port with waiters := rest } with
    point := point }

/-- One pass of the loop in `port_queuing_fired`, up to the channel operation. -/
def portQueuingFired (s : PortSystem) (p id : Nat) (port : QueuingPort) : Option PortSystem :=
  match port.waiters with
  | [] => some (s.setPoint p .drain)
  | t :: rest =>
    match port.direction with
    | .recv => ((s.channels port.channel).rGetMessage true).map fun r =>
      match r.2 with
      | none => (s.setChannel port.channel r.1).setPoint p .drain
      | some _ => (s.setChannel port.channel r.1).wakeUp p id port rest (.firedConsume id)
    | .send => ((s.channels port.channel).sGetMessage true).map fun r =>
      match r.2 with
      | none => (s.setChannel port.channel r.1).setPoint p .drain
      | some _ =>
        (s.setChannel port.channel r.1).wakeUp p id port rest (.firedProduce id t.waitLen)

/-- The next operation of a section that has been begun. -/
def resume (s : PortSystem) (p : Nat) (due : Bool) (expired : List Nat) (bytes : List UInt8) :
    Option PortSystem :=
  match (s.partitions p).point with
  | .outside => none
  | .consume id => (s.partitions p).ports[id]?.bind fun port =>
    (s.portQueuingReceive port.channel).map (·.setPoint p .again)
  | .produce id len => (s.partitions p).ports[id]?.bind fun port =>
    if bytes.length = len then
      (s.portQueuingSend port.channel bytes).map (·.setPoint p .again)
    else none
  | .again =>
    if (s.partitions p).isEvent then
      some (s.setPartition p { s.partitions p with isEvent := false, point := .drain })
    else some (s.setPoint p .timer)
  | .drain =>
    match (s.partitions p).events with
    | [] => some (s.setPoint p .timer)
    | event :: rest =>
      match event.eventType with
      | .timer =>
        some (s.setPartition p { (s.partitions p).remove expired with events := rest })
      | .portSendAvailable | .portReceiveAvailable =>
        some (s.setPartition p { s.partitions p with
          events := rest, point := .fired event.handlerId })
  | .fired id => (s.partitions p).ports[id]?.bind fun port => s.portQueuingFired p id port
  | .firedConsume id => (s.partitions p).ports[id]?.bind fun port =>
    (s.portQueuingReceive port.channel).map (·.setPoint p (.fired id))
  | .firedProduce id len => (s.partitions p).ports[id]?.bind fun port =>
    if bytes.length = len then
      (s.portQueuingSend port.channel bytes).map (·.setPoint p (.fired id))
    else none
  | .timer =>
    if due then
      some (s.setPartition p { (s.partitions p).remove expired with point := .again })
    else some (s.setPoint p .enable)
  | .enable => some (s.setPoint p (if (s.partitions p).isEvent then .again else .outside))

/-- A call on a created port; any other is refused with an error code. -/
def call (s : PortSystem) (p id : Nat) (f : QueuingPort → Option PortSystem) :
    Option PortSystem :=
  if (s.partitions p).point = .outside then
    ((s.partitions p).getPortQueuing id).bind fun port => port.elim (some s) f
  else none

/-- One step of partition `e.1`. -/
def step (s : PortSystem) (e : Nat × PortInput) : Option PortSystem :=
  match e.2 with
  | .create id messageSize maxNbMessage direction discipline =>
    if (s.partitions e.1).point = .outside then
      (s.partitions e.1).ports[id]?.map fun port =>
        s.create e.1 id port messageSize maxNbMessage direction discipline
    else none
  | .setModeNormal =>
    if (s.partitions e.1).point = .outside then
      some (s.setPartition e.1 { s.partitions e.1 with normal := true, point := .again })
    else none
  | .receive id thread priority mayWait => s.call e.1 id fun port =>
    if (s.partitions e.1).Waits thread then none
    else s.receive e.1 id port ⟨thread, priority, 0⟩ (mayWait && (s.partitions e.1).normal)
  | .send id thread priority len mayWait => s.call e.1 id fun port =>
    if (s.partitions e.1).Waits thread then none
    else s.send e.1 id port ⟨thread, priority, len⟩ (mayWait && (s.partitions e.1).normal)
  | .clear id => s.call e.1 id fun port => some (s.clear e.1 id port)
  | .stop thread =>
    if (s.partitions e.1).point = .outside then
      some (s.setPartition e.1
        { (s.partitions e.1).remove [thread] with point := .again })
    else none
  | .timerEvent =>
    ((s.partitions e.1).addEvent ⟨0, .timer⟩).map (s.setPartition e.1)
  | .onEvent =>
    if (s.partitions e.1).point = .outside ∧ (s.partitions e.1).isEvent then
      some (s.setPoint e.1 .again)
    else none
  | .restart => some (s.setPartition e.1 (s.partitions e.1).restart)
  | .resume due expired bytes => s.resume e.1 due expired bytes

end PortSystem

end Chpok
