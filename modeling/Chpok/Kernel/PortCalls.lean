import Chpok.Kernel.QueuingPort
import Chpok.Kernel.TimeSums

/-! The calls of a partition on its ports (`kernel/core/port.c`), each from its beginning to its
return or to the wait of its caller. A table is the memory from its start on, of which the first
entries are the ports of the partition. -/

namespace Chpok

inductive PortTable where
  | queuing
  | sampling
  deriving DecidableEq, Repr

/-- What the calls return, or leave as the result of a wait. -/
inductive PortErrno where
  | ok
  | einval
  | unavailable
  | toomany
  | exists
  | efault
  | port
  | direction
  | empty
  | full
  | mode
  | timeout
  deriving DecidableEq, Repr

/-- The values of `pok_ret_t` -/
def PortErrno.code : PortErrno → Nat
  | .ok => 0
  | .einval => 1
  | .unavailable => 2
  | .toomany => 5
  | .exists => 7
  | .efault => 11
  | .timeout => 250
  | .mode => 251
  | .port => 301
  | .direction => 303
  | .empty => 308
  | .full => 311

/-- What a call leaves in the variables of its caller. -/
inductive PortData where
  | nothing
  | message (bytes : List UInt8)
  | sample (bytes : List UInt8) (validity : Bool)
  | queuingStatus (nbMessage maxNbMessage maxMessageSize : Nat) (direction : Side)
      (waitingProcesses : Nat)
  | samplingStatus (size : Nat) (direction : PortDirection) (refresh : Int) (validity : Bool)
  deriving DecidableEq, Repr

/-- What the ports need of a thread: `blocked` is the timeout of its wait. -/
structure PortThread where
  priority : Nat
  waitLen : Nat
  waitResult : PortErrno
  blocked : Option Int
  deriving DecidableEq, Repr

/-- `current_partition_arinc` with its channels. `peerGeneration` is that of the partition at the
other side of a channel; `raised` are the events that it has been sent. -/
structure PartitionPorts where
  portsQueuing : Nat → QueuingPort
  nportsQueuing : Nat
  channels : Nat → ChannelQueuing
  peerGeneration : Nat → Nat
  raised : List (Nat × PartitionEvent)
  portsSampling : Nat → SamplingPort
  nportsSampling : Nat
  generation : Nat
  normal : Bool
  threads : Nat → PortThread
  currentThread : Nat
  waitingAllowed : Bool

/-- A call on a table of ports: the entries it touches, the port it operates on, and the state
with what is returned, unless the caller waits. A failed assertion has no outcome. -/
structure PortCall where
  touched : List Nat
  port : Option Nat
  outcome : Option (PartitionPorts × Option (PortErrno × PortData))

namespace PartitionPorts

variable (s : PartitionPorts)

def setQueuing (id : Nat) (port : QueuingPort) : PartitionPorts :=
  { s with portsQueuing := Function.update s.portsQueuing id port }

def setSampling (id : Nat) (port : SamplingPort) : PartitionPorts :=
  { s with portsSampling := Function.update s.portsSampling id port }

def setChannel (ch : Nat) (channel : ChannelQueuing) : PartitionPorts :=
  { s with channels := Function.update s.channels ch channel }

def setThread (t : Nat) (thread : PortThread) : PartitionPorts :=
  { s with threads := Function.update s.threads t thread }

/-- The event that an operation raises at the other side of its channel. -/
def raise (ch : Nat) (event : Option PartitionEvent) : PartitionPorts :=
  { s with raised := s.raised ++ (event.map fun event => (ch, event)).toList }

/-- `get_port_queuing` or `get_port_sampling`, followed by the rest of the call. -/
def withPort (nports : Nat) (isCreated : Nat → Bool) (id : Nat)
    (rest : Nat → Option (PartitionPorts × Option (PortErrno × PortData))) : PortCall :=
  if nports < id then ⟨[], none, some (s, some (.port, .nothing))⟩
  else if isCreated id then ⟨[id], some id, rest id⟩
  else ⟨[id], none, some (s, some (.port, .nothing))⟩

/-- `port_queuing_receive` for the current thread. -/
def portQueuingReceive (ch : Nat) : Option (PartitionPorts × Option (PortErrno × PortData)) :=
  ((s.channels ch).rGetMessage false).bind fun r =>
    r.2.bind fun message =>
      (r.1.rConsumeMessage (s.peerGeneration ch)).map fun c =>
        (((s.setChannel ch c.1).raise ch c.2.2).setThread s.currentThread
            { s.threads s.currentThread with
              waitLen := message.2, waitResult := if c.2.1 then .toomany else .ok },
          some (if c.2.1 then .toomany else .ok, .message (r.1.content message.1 message.2)))

/-- `port_queuing_send` for the current thread. -/
def portQueuingSend (ch : Nat) (bytes : List UInt8) :
    Option (PartitionPorts × Option (PortErrno × PortData)) :=
  ((s.channels ch).sGetMessage false).bind fun r =>
    r.2.bind fun pos =>
      ((r.1.fill pos bytes).sProduceMessage (s.peerGeneration ch) bytes.length).map fun c =>
        (((s.setChannel ch c.1).raise ch c.2).setThread s.currentThread
            { s.threads s.currentThread with waitLen := bytes.length, waitResult := .ok },
          some (.ok, .nothing))

/-- The current thread joins the waiters of a port. -/
def portWait (id waitLen : Nat) (timeout : Int) : PartitionPorts :=
  (s.setQueuing id { s.portsQueuing id with
    waiters := threadWqAddCommon (s.portsQueuing id).waiters
      ⟨s.currentThread, (s.threads s.currentThread).priority, waitLen⟩
      (s.portsQueuing id).discipline }).setThread s.currentThread
    { s.threads s.currentThread with waitLen := waitLen, blocked := some timeout }

/-- What is returned when a wait is needed and not allowed; `ok` when it is allowed. -/
def waitRefusal (timeout : Int) (unready : PortErrno) : PortErrno :=
  if timeout = 0 then unready else if s.waitingAllowed then .ok else .mode

/-- A wait is needed. -/
def portWaitOrRefuse (id waitLen : Nat) (timeout : Int) (refusal : PortErrno) (data : PortData) :
    Option (PartitionPorts × Option (PortErrno × PortData)) :=
  if refusal = .ok then some (s.portWait id waitLen timeout, none)
  else some (s, some (refusal, data))

/-- `pok_port_queuing_receive`. The pointers of the caller may be refused. -/
def portQueuingReceiveCall (id : Nat) (dataAccess lenAccess : Bool) (timeout : Option Int) :
    PortCall :=
  s.withPort s.nportsQueuing (fun i => (s.portsQueuing i).isCreated) id fun id =>
    if ¬ dataAccess then some (s, some (.efault, .nothing))
    else if ¬ lenAccess then some (s, some (.efault, .nothing))
    else match timeout with
      | none => some (s, some (.efault, .nothing))
      | some timeout =>
        let port := s.portsQueuing id
        let refusal := s.waitRefusal timeout .empty
        if port.direction ≠ .recv then some (s, some (.mode, .nothing))
        else if port.waiters ≠ [] then s.portWaitOrRefuse id 0 timeout refusal (.message [])
        else ((s.channels port.channel).rGetMessage (refusal = .ok)).bind fun r =>
          match r.2 with
          | none => (s.setChannel port.channel r.1).portWaitOrRefuse id 0 timeout refusal
              (.message [])
          | some _ => (s.setChannel port.channel r.1).portQueuingReceive port.channel

/-- `pok_port_queuing_send`. `data` is the memory at the pointer, unless it may not be read. -/
def portQueuingSendCall (id : Nat) (data : Option (Nat → UInt8)) (len : Nat)
    (timeout : Option Int) : PortCall :=
  s.withPort s.nportsQueuing (fun i => (s.portsQueuing i).isCreated) id fun id =>
    let port := s.portsQueuing id
    if port.direction ≠ .send then some (s, some (.mode, .nothing))
    else if len = 0 then some (s, some (.einval, .nothing))
    else if (s.channels port.channel).maxMessageSize < len then some (s, some (.einval, .nothing))
    else match data, timeout with
      | some data, some timeout =>
        let refusal := s.waitRefusal timeout .full
        if port.waiters ≠ [] then s.portWaitOrRefuse id len timeout refusal .nothing
        else ((s.channels port.channel).sGetMessage (refusal = .ok)).bind fun r =>
          match r.2 with
          | none => (s.setChannel port.channel r.1).portWaitOrRefuse id len timeout refusal .nothing
          | some _ =>
            (s.setChannel port.channel r.1).portQueuingSend port.channel
              ((List.range len).map data)
      | _, _ => some (s, some (.efault, .nothing))

/-- `pok_port_queuing_status`. The pointer is checked before the port. -/
def portQueuingStatus (id : Nat) (statusAccess : Bool) : PortCall :=
  if ¬ statusAccess then ⟨[], none, some (s, some (.efault, .nothing))⟩
  else
    s.withPort s.nportsQueuing (fun i => (s.portsQueuing i).isCreated) id fun id =>
      let port := s.portsQueuing id
      let channel := s.channels port.channel
      some (s, some (.ok, match port.direction with
        | .recv => .queuingStatus channel.rNMessages channel.recv.maxNbMessage
            channel.maxMessageSize .recv (port.waiters.length % 256)
        | .send => .queuingStatus channel.sNMessages channel.send.maxNbMessage
            channel.maxMessageSize .send (port.waiters.length % 256)))

/-- `pok_port_queuing_clear` -/
def portQueuingClear (id : Nat) : PortCall :=
  s.withPort s.nportsQueuing (fun i => (s.portsQueuing i).isCreated) id fun id =>
    let port := s.portsQueuing id
    if port.direction ≠ .recv then some (s, some (.mode, .nothing))
    else
      some (s.setChannel port.channel
        ((s.channels port.channel).sideInit .recv s.generation id), some (.ok, .nothing))

/-- `pok_port_queuing_create`, of the port that has been found by its name. The identifier is
stored in 8 bits. -/
def portQueuingCreate (found : Option Nat) (messageSize maxNbMessage : Nat) (direction : Side)
    (discipline : QueuingDiscipline) : PartitionPorts × PortErrno × Option Nat :=
  match found with
  | none => (s, .unavailable, none)
  | some id =>
    let port := s.portsQueuing id
    let channel := s.channels port.channel
    if port.isCreated then (s, .exists, none)
    else if messageSize ≠ channel.maxMessageSize then (s, .einval, none)
    else if direction ≠ port.direction then (s, .einval, none)
    else if maxNbMessage ≠ (match direction with
        | .recv => channel.recv.maxNbMessage
        | .send => channel.send.maxNbMessage) then (s, .einval, none)
    else if s.normal then (s, .mode, none)
    else
      ((s.setQueuing id { port with isCreated := true, discipline := discipline }).setChannel
        port.channel (channel.sideInit direction s.generation id), .ok, some (id % 256))

/-- `pok_port_sampling_write` -/
def portSamplingWrite (id : Nat) (data : Option (Nat → UInt8)) (len : Nat) (now : Int) :
    PortCall :=
  s.withPort s.nportsSampling (fun i => (s.portsSampling i).isCreated) id fun id =>
    let port := s.portsSampling id
    if len = 0 ∨ port.maxMessageSize < len then some (s, some (.einval, .nothing))
    else if port.direction ≠ .outgoing then some (s, some (.mode, .nothing))
    else match data with
      | none => some (s, some (.efault, .nothing))
      | some data =>
        port.channel.sGetMessage.bind fun slot =>
          let filled := { port.channel with
            messages := Function.update port.channel.messages slot
              (fun i => if i < len then data i else port.channel.messages slot i) }
          (filled.sendMessage len now).map fun channel =>
            (s.setSampling id { port with channel }, some (.ok, .nothing))

/-- `pok_port_sampling_read` -/
def portSamplingRead (id : Nat) (dataAccess lenAccess : Bool) (now : Int) : PortCall :=
  s.withPort s.nportsSampling (fun i => (s.portsSampling i).isCreated) id fun id =>
    let port := s.portsSampling id
    if port.direction ≠ .incoming then some (s, some (.direction, .nothing))
    else if ¬ dataAccess then some (s, some (.efault, .nothing))
    else if ¬ lenAccess then some (s, some (.efault, .nothing))
    else
      let read := port.read now
      let slot := port.channel.readPosNext
      some (s.setSampling id read.1, some (match read.2 with
        | .ok => (.ok, .sample ((List.range (port.channel.messageSizes slot)).map
            (port.channel.messages slot)) read.1.lastMessageValidity)
        | _ => (.empty, .sample [] false)))

/-- `pok_port_sampling_status` -/
def portSamplingStatus (id : Nat) (statusAccess : Bool) : PortCall :=
  s.withPort s.nportsSampling (fun i => (s.portsSampling i).isCreated) id fun id =>
    let port := s.portsSampling id
    if ¬ statusAccess then some (s, some (.efault, .nothing))
    else
      some (s, some (.ok, .samplingStatus port.maxMessageSize port.direction port.refreshPeriod
        port.lastMessageValidity))

/-- `pok_port_sampling_check` -/
def portSamplingCheck (id : Nat) : PortCall :=
  s.withPort s.nportsSampling (fun i => (s.portsSampling i).isCreated) id fun id =>
    let port := s.portsSampling id
    if port.direction ≠ .incoming then some (s, some (.mode, .nothing))
    else
      let check := port.channel.rCheckNewMessage
      some (s.setSampling id { port with channel := check.1 },
        some (if check.2 then .ok else .empty, .nothing))

/-- `pok_port_sampling_create`, of the port that has been found by its name. -/
def portSamplingCreate (found : Option Nat) (size : Nat) (direction : PortDirection)
    (refresh : Int) : PartitionPorts × PortErrno × Option Nat :=
  if s.normal then (s, .mode, none)
  else match found with
    | none => (s, .unavailable, none)
    | some id =>
      let created := (s.portsSampling id).create size direction refresh
      match created.2 with
      | .ok => (s.setSampling id created.1, .ok, some (id % 256))
      | .exists => (s, .exists, none)
      | _ => (s, .einval, none)

/-- `partition_arinc_start`, for the ports -/
def portsInit : PartitionPorts :=
  { s with
    portsQueuing := fun i =>
      if i < s.nportsQueuing then (s.portsQueuing i).init else s.portsQueuing i
    portsSampling := fun i =>
      if i < s.nportsSampling then { s.portsSampling i with isCreated := false }
      else s.portsSampling i
    normal := false }

end PartitionPorts

end Chpok
