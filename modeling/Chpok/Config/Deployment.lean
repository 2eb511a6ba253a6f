import Chpok.Config.Configuration

/-! The tables of the kernel that `misc/templates/deployment_kernel.tpl` makes of a validated
configuration, as far as they are about ports, channels, partitions and time slots, and what
`kernel/core/port.c` and `kernel/core/sched.c` take for granted about them. A constant is
stored in as many bits as its field has. -/

namespace Chpok.Config

/-- The conversion of an integer to an unsigned type of the width -/
def toUint (width : Nat) (x : Int) : Int := x % 2 ^ width

/-- The conversion of an integer to a signed type of the width -/
def toInt (width : Nat) (x : Int) : Int := x.bmod (2 ^ width)

/-- An element of `partition_ports_queuing_*` or `partition_ports_sampling_*`. `port` is the
port of the configuration; the kernel does not have it. -/
structure PortEntry where
  port : Nat
  name : String
  channel : Nat
  directionOut : Bool
  deriving DecidableEq, Repr

/-- An element of `pok_channels_queuing` -/
structure QueuingEntry where
  maxMessageSize : Int
  recvMaxNbMessage : Int
  recvPart : Nat
  sendMaxNbMessage : Int
  sendPart : Nat
  deriving DecidableEq, Repr

/-- An element of `pok_partitions_arinc` -/
structure PartitionEntry where
  name : String
  partitionEventMax : Nat
  period : Int
  duration : Int
  partitionId : Int
  spaceId : Nat
  ports : PortKind → List PortEntry

/-- Where the pointer of a slot goes. The monitor and GDB have partitions of their own or share
the idle one; a slot of another class is given no partition. -/
inductive SlotPartition where
  | arinc (part : Nat)
  | monitor
  | gdb
  | null
  deriving DecidableEq, Repr

/-- An element of `pok_module_sched` -/
structure SlotEntry where
  duration : Int
  partition : SlotPartition
  periodicProcessingStart : Bool
  id : Nat
  deriving DecidableEq, Repr

/-- The tables of the kernel, with the number of elements that it takes each of them to have:
`pok_channels_queuing_n`, `pok_channels_sampling_n`, `pok_partitions_arinc_n` and
`pok_module_sched_n` have 8 bits. -/
structure KernelTables where
  channelsQueuing : List QueuingEntry
  channelsQueuingN : Nat
  channelsSampling : List Int
  channelsSamplingN : Nat
  partitions : List PartitionEntry
  partitionsN : Nat
  sched : List SlotEntry
  schedN : Nat
  majorFrame : Int

namespace Configuration

/-- `connection_partition`. There is no text for a connection that is missing, or to a port of
no partition. -/
def connectionPartition (conf : Configuration) (connection : Option Nat) : Option Nat :=
  connection.bind fun port => (conf.ports port).partition

def portEntry (conf : Configuration) (port : Nat) : PortEntry where
  port := port
  name := (conf.ports port).name
  channel := (conf.ports port).channelId.getD 0
  directionOut := (conf.ports port).isDirectionSrc

def queuingEntry (conf : Configuration) (channel : Channel) : QueuingEntry where
  maxMessageSize := toUint 16 channel.maxMessageSize
  recvMaxNbMessage := toUint 16 channel.maxNbMessageReceive
  recvPart := (conf.connectionPartition channel.dst).getD 0
  sendMaxNbMessage := toUint 16 channel.maxNbMessageSend
  sendPart := (conf.connectionPartition channel.src).getD 0

def partitionEntry (conf : Configuration) (part : Nat) : PartitionEntry where
  name := (conf.partitions part).name
  partitionEventMax := (((conf.partitions part).ports .queueing).length + 2) % 2 ^ 16
  period := toInt 64 conf.majorFrame
  duration := toInt 64 (conf.partitions part).totalTime
  partitionId := toUint 8 (conf.partitions part).partId
  spaceId := (part + 1) % 2 ^ 8
  ports kind := ((conf.partitions part).ports kind).map conf.portEntry

def slotPartition : SlotClass → SlotPartition
  | .partition part _ => .arinc part
  | .monitor => .monitor
  | .gdb => .gdb
  | .spare => .null
  | .network => .null

def slotEntry (slot : TimeSlot) (id : Nat) : SlotEntry where
  duration := toInt 64 slot.duration
  partition := slotPartition slot.slotClass
  periodicProcessingStart :=
    match slot.slotClass with
    | .partition _ periodicProcessingStart => periodicProcessingStart
    | _ => false
  id := id

/-- The template comes to its end, with text that compiles. -/
def Renders (conf : Configuration) : Prop :=
  (∀ channel ∈ conf.channels .queueing, (conf.connectionPartition channel.src).isSome ∧
    (conf.connectionPartition channel.dst).isSome) ∧
  ∀ port ∈ conf.addedPorts .queueing ++ conf.addedPorts .sampling,
    (conf.ports port).channelId.isSome

instance (conf : Configuration) : Decidable conf.Renders := inferInstanceAs (Decidable (_ ∧ _))

/-- What the template makes of the lists -/
def tables (conf : Configuration) : KernelTables where
  channelsQueuing := (conf.channels .queueing).map conf.queuingEntry
  channelsQueuingN := (conf.channels .queueing).length % 2 ^ 8
  channelsSampling := (conf.channels .sampling).map fun channel => toUint 16 channel.maxMessageSize
  channelsSamplingN := (conf.channels .sampling).length % 2 ^ 8
  partitions := (List.range conf.npartitions).map conf.partitionEntry
  partitionsN := conf.npartitions % 2 ^ 8
  sched := conf.slots.mapIdx fun id slot => slotEntry slot id
  schedN := conf.slots.length % 2 ^ 8
  majorFrame := toInt 64 conf.majorFrame

/-- `deployment_kernel.tpl` -/
def deployment (conf : Configuration) : Option KernelTables :=
  if conf.Renders then some conf.tables else none

end Configuration

/-- What `pok_port_queuing_create` and `pok_port_sampling_create` say of a port that is
configured and not created yet, in an `INIT` mode. -/
inductive CreateErrno where
  | ok
  | einval
  deriving DecidableEq, Repr

/-- The checks of `pok_port_queuing_create` -/
def queuingCreate (channel : QueuingEntry) (directionOut : Bool) (messageSize maxNbMessage : Int)
    (direction : Bool) : CreateErrno :=
  if messageSize ≠ channel.maxMessageSize then .einval
  else if direction ≠ directionOut then .einval
  else if ¬ direction then
    if maxNbMessage ≠ channel.recvMaxNbMessage then .einval else .ok
  else if maxNbMessage ≠ channel.sendMaxNbMessage then .einval
  else .ok

/-- The checks of `pok_port_sampling_create` -/
def samplingCreate (maxMessageSize : Int) (directionOut : Bool) (size : Int) (direction : Bool)
    (refresh : Int) : CreateErrno :=
  if size ≠ maxMessageSize then .einval
  else if direction ≠ directionOut then .einval
  else if refresh ≤ 0 then .einval
  else .ok

namespace KernelTables

/-- All ports of a kind, over all partitions -/
def ports (tables : KernelTables) (kind : PortKind) : List PortEntry :=
  tables.partitions.flatMap (·.ports kind)

/-- What the creation of a port with its configured attributes returns. A port of the other
class has no such attributes. -/
def create (tables : KernelTables) (kind : PortKind) (entry : PortEntry) (port : Port) :
    CreateErrno :=
  match kind, port.attr with
  | .queueing, .queueing maxNbMessage =>
    match tables.channelsQueuing[entry.channel]? with
    | none => .einval
    | some channel => queuingCreate channel entry.directionOut (toUint 32 port.maxMessageSize)
        (toUint 32 maxNbMessage) port.isDirectionSrc
  | .sampling, .sampling refresh =>
    match tables.channelsSampling[entry.channel]? with
    | none => .einval
    | some maxMessageSize => samplingCreate maxMessageSize entry.directionOut
        (toUint 32 port.maxMessageSize) port.isDirectionSrc refresh
  | _, _ => .einval

/-- `pok_channels_init` goes through these many channels. -/
def channelsN (tables : KernelTables) : PortKind → Nat
  | .queueing => tables.channelsQueuingN
  | .sampling => tables.channelsSamplingN

/-- The slots that the scheduler enters -/
def slots (tables : KernelTables) : List SlotEntry := tables.sched.take tables.schedN

/-- The preconditions of the kernel. A side of a channel is given by the channel and the
direction of its port. Channels, slots and partitions behind the number of them do not count. -/
structure Sound (conf : Configuration) (tables : KernelTables) : Prop where
  attached : ∀ kind, ∀ entry ∈ tables.ports kind, ∃ channel,
    (conf.channels kind)[entry.channel]? = some channel ∧
      (if entry.directionOut then channel.src else channel.dst) = some entry.port
  initialized : ∀ kind, ∀ entry ∈ tables.ports kind, entry.channel < tables.channelsN kind
  sides : ∀ kind, ∀ channel < (conf.channels kind).length, ∀ directionOut,
    (tables.ports kind).countP
      (fun entry => entry.channel = channel ∧ entry.directionOut = directionOut) = 1
  capacity : ∀ channel ∈ tables.channelsQueuing,
    1 ≤ channel.recvMaxNbMessage ∧ 1 ≤ channel.sendMaxNbMessage
  created : ∀ kind, ∀ entry ∈ tables.ports kind,
    tables.create kind entry (conf.ports entry.port) = .ok
  slots : ∀ slot ∈ tables.slots, slot.partition ≠ .null ∧
    ∀ part, slot.partition = .arinc part → part < tables.partitionsN
  major : tables.majorFrame = conf.majorFrame
  frame : (tables.slots.map (·.duration)).sum = tables.majorFrame
  ids : (tables.partitions.map (·.partitionId)).Nodup
  periodic : ∀ part < tables.partitions.length, ∃ slot ∈ tables.slots,
    slot.partition = .arinc part ∧ slot.periodicProcessingStart = true

end KernelTables

end Chpok.Config
