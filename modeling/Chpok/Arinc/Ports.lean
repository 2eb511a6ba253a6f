import Chpok.Kernel.PortCalls
import Chpok.Library.NarrowName
import Chpok.Arinc.ProcessQueue

/-! The services of a partition on its ports (`libpok/arinc653/queueing.c` and `sampling.c`). A
port is known to the application by the identifier of the kernel plus one, which is passed to the
kernel in 8 bits. -/

namespace Chpok

/-- What a service leaves with its caller: a return code with the data, or, for the check of a
sampling port, a `pok_bool_t`. -/
inductive PortReply where
  | returned (code : ReturnCode) (data : PortData)
  | flag (value : Nat)
  deriving DecidableEq, Repr

/-- A call of a service, as `PortCall`. -/
structure PortServiceCall where
  touched : List Nat
  port : Option Nat
  outcome : Option (PartitionPorts × Option PortReply)

/-- The identifier that the kernel gets from the library. -/
def corePortId (id : Int) : Nat := NarrowName.entry 256 id

/-- A call that the library refuses. -/
def PartitionPorts.refused (s : PartitionPorts) (code : ReturnCode) : PortServiceCall :=
  ⟨[], none, some (s, some (.returned code .nothing))⟩

/-- What the library makes of a call of the kernel that has returned. -/
def PortCall.reply (call : PortCall) (reply : PortErrno × PortData → PortReply) :
    PortServiceCall :=
  ⟨call.touched, call.port, call.outcome.map fun r => (r.1, r.2.map reply)⟩

/-- `MAP_ERROR`: the return code, with the data as they are. -/
def PortCall.mapError (call : PortCall) (code : PortErrno → ReturnCode) : PortServiceCall :=
  call.reply fun r => .returned (code r.1) r.2

/-- How the services read an error of the kernel: `SEND_QUEUING_MESSAGE` -/
def PortErrno.sendCode : PortErrno → ReturnCode
  | .ok => .noError
  | .direction => .invalidMode
  | .mode => .invalidMode
  | .full => .notAvailable
  | .timeout => .timedOut
  | _ => .invalidConfig

/-- `RECEIVE_QUEUING_MESSAGE` -/
def PortErrno.receiveCode : PortErrno → ReturnCode
  | .ok => .noError
  | .direction => .invalidMode
  | .mode => .invalidMode
  | .empty => .notAvailable
  | .timeout => .timedOut
  | .toomany => .invalidConfig
  | _ => .invalidConfig

/-- `GET_QUEUING_PORT_STATUS` and `GET_SAMPLING_PORT_STATUS` -/
def PortErrno.statusCode : PortErrno → ReturnCode
  | .ok => .noError
  | _ => .invalidParam

/-- `CLEAR_QUEUING_PORT` -/
def PortErrno.clearCode : PortErrno → ReturnCode
  | .ok => .noError
  | .port => .invalidParam
  | .mode => .invalidMode
  | _ => .invalidConfig

/-- `WRITE_SAMPLING_MESSAGE` -/
def PortErrno.writeCode : PortErrno → ReturnCode
  | .ok => .noError
  | .port => .invalidParam
  | .einval => .invalidConfig
  | .direction => .invalidMode
  | _ => .invalidConfig

/-- `READ_SAMPLING_MESSAGE` -/
def PortErrno.readCode : PortErrno → ReturnCode
  | .ok => .noError
  | .empty => .noAction
  | .einval => .invalidParam
  | .direction => .invalidMode
  | _ => .invalidConfig

namespace PartitionPorts

variable (s : PartitionPorts)

/-- `SEND_QUEUING_MESSAGE`. The length becomes 32 bits without a sign. -/
def sendQueuingMessage (id : Int) (data : Option (Nat → UInt8)) (length timeout : Int) :
    PortServiceCall :=
  if id ≤ 0 then s.refused .invalidParam
  else
    (s.portQueuingSendCall (corePortId id) data (length % 2 ^ 32).toNat (some timeout)).mapError
      PortErrno.sendCode

/-- `RECEIVE_QUEUING_MESSAGE` -/
def receiveQueuingMessage (id timeout : Int) (dataAccess lenAccess : Bool) : PortServiceCall :=
  if id ≤ 0 then s.refused .invalidParam
  else
    (s.portQueuingReceiveCall (corePortId id) dataAccess lenAccess (some timeout)).mapError
      PortErrno.receiveCode

/-- `GET_QUEUING_PORT_STATUS` -/
def getQueuingPortStatus (id : Int) : PortServiceCall :=
  if id ≤ 0 then s.refused .invalidParam
  else
    (s.portQueuingStatus (corePortId id) true).mapError PortErrno.statusCode

/-- `CLEAR_QUEUING_PORT` -/
def clearQueuingPort (id : Int) : PortServiceCall :=
  (s.portQueuingClear (corePortId id)).mapError PortErrno.clearCode

/-- `WRITE_SAMPLING_MESSAGE` -/
def writeSamplingMessage (id : Int) (data : Option (Nat → UInt8)) (length now : Int) :
    PortServiceCall :=
  if length ≤ 0 then s.refused .invalidParam
  else if id ≤ 0 then s.refused .invalidParam
  else
    (s.portSamplingWrite (corePortId id) data (length % 2 ^ 32).toNat now).mapError
      PortErrno.writeCode

/-- `READ_SAMPLING_MESSAGE`, as long as the validity has somewhere to be stored. -/
def readSamplingMessage (id : Int) (dataAccess lenAccess : Bool) (now : Int) : PortServiceCall :=
  if id ≤ 0 then s.refused .invalidParam
  else
    (s.portSamplingRead (corePortId id) dataAccess lenAccess now).mapError
      PortErrno.readCode

/-- `GET_SAMPLING_PORT_STATUS` -/
def getSamplingPortStatus (id : Int) : PortServiceCall :=
  if id ≤ 0 then s.refused .invalidParam
  else
    (s.portSamplingStatus (corePortId id) true).mapError PortErrno.statusCode

/-- `SYS_SAMPLING_PORT_CHECK_IS_NEW_DATA`: the `pok_ret_t` of the kernel is returned as a
`pok_bool_t`. -/
def samplingPortCheckIsNewData (id : Int) : PortServiceCall :=
  (s.portSamplingCheck (corePortId id)).reply fun r => .flag r.1.code

/-- What a `CREATE_*` service makes of a call of the kernel: the return code, and the identifier
if the port has been created. -/
def created (core : PartitionPorts × PortErrno × Option Nat) (code : PortErrno → ReturnCode) :
    PartitionPorts × ReturnCode × Option Int :=
  (core.1, code core.2.1, core.2.2.map fun id => (id : Int) + 1)

/-- `CREATE_QUEUING_PORT` with a direction and a discipline that exist. -/
def createQueuingPort (found : Option Nat) (maxMessageSize maxNbMessage : Int) (direction : Side)
    (discipline : QueuingDiscipline) : PartitionPorts × ReturnCode × Option Int :=
  created (s.portQueuingCreate found (maxMessageSize % 2 ^ 32).toNat (maxNbMessage % 2 ^ 32).toNat
    direction discipline) fun
    | .ok => .noError
    | .exists => .noAction
    | .mode => .invalidMode
    | _ => .invalidConfig

/-- `CREATE_SAMPLING_PORT` with a direction that exists. -/
def createSamplingPort (found : Option Nat) (maxMessageSize : Int) (direction : PortDirection)
    (refreshPeriod : Int) : PartitionPorts × ReturnCode × Option Int :=
  if maxMessageSize ≤ 0 ∨ refreshPeriod < 0 then (s, .invalidConfig, none)
  else if (2 ^ 32 - 1) * 1000000 < refreshPeriod then (s, .invalidConfig, none)
  else
    created (s.portSamplingCreate found (maxMessageSize % 2 ^ 32).toNat direction refreshPeriod) fun
      | .ok => .noError
      | .einval => .invalidConfig
      | .exists => .noAction
      | .mode => .invalidMode
      | _ => .invalidConfig

end PartitionPorts

/-- The services that take the identifier of a port. -/
inductive PortService where
  | sendQueuing (data : Option (Nat → UInt8)) (length timeout : Int)
  | receiveQueuing (timeout : Int) (dataAccess lenAccess : Bool)
  | queuingStatus
  | clearQueuing
  | writeSampling (data : Option (Nat → UInt8)) (length now : Int)
  | readSampling (dataAccess lenAccess : Bool) (now : Int)
  | samplingStatus
  | checkSampling

namespace PortService

def call (s : PartitionPorts) (id : Int) : PortService → PortServiceCall
  | .sendQueuing data length timeout => s.sendQueuingMessage id data length timeout
  | .receiveQueuing timeout dataAccess lenAccess =>
    s.receiveQueuingMessage id timeout dataAccess lenAccess
  | .queuingStatus => s.getQueuingPortStatus id
  | .clearQueuing => s.clearQueuingPort id
  | .writeSampling data length now => s.writeSamplingMessage id data length now
  | .readSampling dataAccess lenAccess now => s.readSamplingMessage id dataAccess lenAccess now
  | .samplingStatus => s.getSamplingPortStatus id
  | .checkSampling => s.samplingPortCheckIsNewData id

def table : PortService → PortTable
  | .sendQueuing .. | .receiveQueuing .. | .queuingStatus | .clearQueuing => .queuing
  | .writeSampling .. | .readSampling .. | .samplingStatus | .checkSampling => .sampling

/-- The call of the kernel behind a service -/
def core (s : PartitionPorts) (id : Nat) : PortService → PortCall
  | .sendQueuing data length timeout =>
    s.portQueuingSendCall id data (length % 2 ^ 32).toNat (some timeout)
  | .receiveQueuing timeout dataAccess lenAccess =>
    s.portQueuingReceiveCall id dataAccess lenAccess (some timeout)
  | .queuingStatus => s.portQueuingStatus id true
  | .clearQueuing => s.portQueuingClear id
  | .writeSampling data length now => s.portSamplingWrite id data (length % 2 ^ 32).toNat now
  | .readSampling dataAccess lenAccess now => s.portSamplingRead id dataAccess lenAccess now
  | .samplingStatus => s.portSamplingStatus id true
  | .checkSampling => s.portSamplingCheck id

/-- What a service makes of what the kernel has returned. -/
def reply : PortService → PortErrno × PortData → PortReply
  | .sendQueuing .. => fun r => .returned r.1.sendCode r.2
  | .receiveQueuing .. => fun r => .returned r.1.receiveCode r.2
  | .queuingStatus | .samplingStatus => fun r => .returned r.1.statusCode r.2
  | .clearQueuing => fun r => .returned r.1.clearCode r.2
  | .writeSampling .. => fun r => .returned r.1.writeCode r.2
  | .readSampling .. => fun r => .returned r.1.readCode r.2
  | .checkSampling => fun r => .flag r.1.code

end PortService

/-- A partition with the identifiers that the creation of ports has returned since its start:
the table, the identifier and the port. -/
structure PortHistory where
  ports : PartitionPorts
  returned : List (PortTable × Int × Nat)

/-- What happens to the ports: the services, a start of the partition, and what the rest of the
system does to the channels, the waiters and the processes. A port to be created has been found
by its name. -/
inductive PortEvent where
  | createQueuing (found : Option Nat) (maxMessageSize maxNbMessage : Int) (direction : Side)
      (discipline : QueuingDiscipline)
  | createSampling (found : Option Nat) (maxMessageSize : Int) (direction : PortDirection)
      (refreshPeriod : Int)
  | service (service : PortService) (id : Int)
  | restart
  | elsewhere (waiters : Nat → List PortWaiter) (channels : Nat → ChannelQueuing)
      (sampling : Nat → ChannelSampling) (peerGeneration : Nat → Nat)
      (raised : List (Nat × PartitionEvent)) (generation : Nat) (normal : Bool)
      (threads : Nat → PortThread) (currentThread : Nat) (waitingAllowed : Bool)

namespace PortHistory

/-- The identifier that a creation has returned is noted with its port. -/
def note (h : PortHistory) (table : PortTable) (found : Option Nat)
    (r : PartitionPorts × ReturnCode × Option Int) : PortHistory where
  ports := r.1
  returned := h.returned ++
    (found.bind fun port => r.2.2.map fun id => (table, id, port)).toList

def step (h : PortHistory) : PortEvent → Option PortHistory
  | .createQueuing found maxMessageSize maxNbMessage direction discipline =>
    if ∀ id ∈ found, id < h.ports.nportsQueuing then
      some (h.note .queuing found
        (h.ports.createQueuingPort found maxMessageSize maxNbMessage direction discipline))
    else none
  | .createSampling found maxMessageSize direction refreshPeriod =>
    if ∀ id ∈ found, id < h.ports.nportsSampling then
      some (h.note .sampling found
        (h.ports.createSamplingPort found maxMessageSize direction refreshPeriod))
    else none
  | .service service id =>
    (service.call h.ports id).outcome.map fun r => { h with ports := r.1 }
  | .restart => some ⟨h.ports.portsInit, []⟩
  | .elsewhere waiters channels sampling peerGeneration raised generation normal threads
      currentThread waitingAllowed =>
    some { h with ports := { h.ports with
      portsQueuing := fun i => { h.ports.portsQueuing i with waiters := waiters i }
      channels, peerGeneration, raised, generation, normal, threads, currentThread, waitingAllowed
      portsSampling := fun i => { h.ports.portsSampling i with channel := sampling i } } }

/-- The partition has just been started. -/
def start (s : PartitionPorts) : PortHistory := ⟨s.portsInit, []⟩

end PortHistory

end Chpok
