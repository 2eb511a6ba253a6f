import Chpok.Library.Run
import Mathlib.Logic.Function.Basic
import Mathlib.Algebra.BigOperators.Group.List.Basic
import Mathlib.Algebra.Order.Ring.Int

/-! The classes of `misc/chpok_configuration.py`: a configuration that is made by calls of the
constructors and of the `add_*` methods, and its validation. An exception ends the making of a
configuration. Objects are given by the order in which they are made. -/

namespace Chpok.Config

/-- The class of a port, of a channel and of the lists that they are in -/
inductive PortKind where
  | queueing
  | sampling
  deriving DecidableEq, Repr

/-- What a `QueueingPort` and a `SamplingPort` have of their own. -/
inductive PortAttr where
  | queueing (maxNbMessage : Int)
  | sampling (refresh : Int)
  deriving DecidableEq, Repr

/-- `Port` -/
structure Port where
  name : String
  isDirectionSrc : Bool
  maxMessageSize : Int
  attr : PortAttr
  channelId : Option Nat
  partition : Option Nat
  deriving DecidableEq, Repr

def PortAttr.kind : PortAttr → PortKind
  | .queueing _ => .queueing
  | .sampling _ => .sampling

def Port.kind (port : Port) : PortKind := port.attr.kind

/-- `Partition`. Nothing checks the class of the ports that are added to a list. -/
structure Partition where
  name : String
  partId : Int
  ports : PortKind → List Nat
  isSystem : Option Bool
  totalTime : Int
  hasPeriodicProcessingStart : Bool

/-- The classes of time slots -/
inductive SlotClass where
  | spare
  | partition (partition : Nat) (periodicProcessingStart : Bool)
  | network
  | monitor
  | gdb
  deriving DecidableEq, Repr

/-- `TimeSlot` -/
structure TimeSlot where
  duration : Int
  slotClass : SlotClass
  deriving DecidableEq, Repr

def TimeSlot.isNetwork (slot : TimeSlot) : Bool := slot.slotClass = .network

def TimeSlot.isPartition (slot : TimeSlot) : Bool :=
  match slot.slotClass with
  | .partition .. => true
  | _ => false

/-- `LocalConnection` to a port, told apart by the object that it is, or `UDPConnection` -/
inductive Connection where
  | local (object port : Nat)
  | udp
  deriving DecidableEq, Repr

def Connection.port : Connection → Option Nat
  | .local _ port => some port
  | .udp => none

/-- `ChannelQueueing` or `ChannelSampling`, with the ports that its local connections are to -/
structure Channel where
  src : Option Nat
  dst : Option Nat
  maxMessageSize : Int
  maxNbMessageSend : Int
  maxNbMessageReceive : Int
  deriving DecidableEq, Repr

/-- `Configuration` -/
structure Configuration where
  nports : Nat
  ports : Nat → Port
  npartitions : Nat
  partitions : Nat → Partition
  slots : List TimeSlot
  channels : PortKind → List Channel
  network : Bool
  majorFrame : Int
  partitionIds : List Int
  nextPartitionId : Nat
  nextChannelId : PortKind → Nat

/-- The calls that make a configuration. `src` and `dst` may be `None`. -/
inductive ConfigCall where
  | newPort (name direction : String) (maxMessageSize : Int) (attr : PortAttr)
  | addPartition (name : String) (partId : Option Int)
  | setIsSystem (part : Nat) (isSystem : Bool)
  | addPort (kind : PortKind) (part port : Nat)
  | addChannel (src dst : Option Connection)
  | addTimeSlot (slot : TimeSlot)
  | setNetwork
  deriving DecidableEq, Repr

namespace Configuration

/-- The attribute of an object that does not exist yet is never read. -/
def unmadePort : Port := ⟨"", false, 0, .queueing 0, none, none⟩

def unmadePartition : Partition := ⟨"", 0, fun _ => [], none, 0, false⟩

/-- `Configuration.__init__` -/
def init : Configuration where
  nports := 0
  ports _ := unmadePort
  npartitions := 0
  partitions _ := unmadePartition
  slots := []
  channels _ := []
  network := false
  majorFrame := 0
  partitionIds := []
  nextPartitionId := 0
  nextChannelId _ := 0

def updatePort (conf : Configuration) (port : Nat) (f : Port → Port) : Configuration :=
  { conf with ports := Function.update conf.ports port (f (conf.ports port)) }

def updatePartition (conf : Configuration) (part : Nat) (f : Partition → Partition) :
    Configuration :=
  { conf with partitions := Function.update conf.partitions part (f (conf.partitions part)) }

/-- The end of a channel that a word names: `Port.__init__` -/
def directionSrc (direction : String) : Option Bool :=
  if direction.toLower = "source" ∨ direction.toLower = "out" then some true
  else if direction.toLower = "destination" ∨ direction.toLower = "in" then some false
  else none

/-- `QueueingPort.__init__` or `SamplingPort.__init__` -/
def newPort (conf : Configuration) (name direction : String) (maxMessageSize : Int)
    (attr : PortAttr) : Option Configuration :=
  match directionSrc direction, attr with
  | none, _ => none
  | some isDirectionSrc, .queueing _ =>
    some { conf.updatePort conf.nports fun _ =>
      ⟨name, isDirectionSrc, maxMessageSize, attr, none, none⟩ with nports := conf.nports + 1 }
  | some isDirectionSrc, .sampling refresh =>
    if refresh < 1000000 then none
    else
      some { conf.updatePort conf.nports fun _ =>
        ⟨name, isDirectionSrc, maxMessageSize, attr, none, none⟩ with nports := conf.nports + 1 }

/-- `add_partition` -/
def addPartition (conf : Configuration) (name : String) (partId : Option Int) :
    Option Configuration :=
  if ∃ part < conf.npartitions, (conf.partitions part).name = name then none
  else
    match partId with
    | some partId =>
      if partId ∈ conf.partitionIds then none
      else
        some { conf.updatePartition conf.npartitions fun _ =>
          ⟨name, partId, fun _ => [], none, 0, false⟩ with
          npartitions := conf.npartitions + 1
          partitionIds := partId :: conf.partitionIds }
    | none =>
      some { conf.updatePartition conf.npartitions fun _ =>
        ⟨name, conf.nextPartitionId, fun _ => [], none, 0, false⟩ with
        npartitions := conf.npartitions + 1
        nextPartitionId := conf.nextPartitionId + 1 }

/-- `add_port_queueing` or `add_port_sampling` -/
def addPort (conf : Configuration) (kind : PortKind) (part port : Nat) : Option Configuration :=
  let added := (conf.partitions part).ports .queueing ++ (conf.partitions part).ports .sampling
  if ¬ (part < conf.npartitions ∧ port < conf.nports) then none
  else if ∃ other ∈ added, (conf.ports other).name = (conf.ports port).name then none
  else
    some ((conf.updatePartition part fun p => { p with
      ports := Function.update p.ports kind (p.ports kind ++ [port]) }).updatePort port fun p =>
        { p with partition := some part })

/-- What the loop of `add_channel` keeps between its two passes -/
structure ChannelBuild where
  conf : Configuration
  kind : Option PortKind
  maxMessageSize : Option Int
  maxNbMessageSend : Int
  maxNbMessageReceive : Int

/-- `connection.port.setChannel(...)` -/
def setChannel (conf : Configuration) (port : Nat) : Configuration :=
  conf.updatePort port fun p => { p with channelId := some (conf.nextChannelId p.kind) }

/-- A queueing port has to be at the end that its direction is for, and its number of messages
counts for that end. The direction of a sampling port is not looked at. -/
def checkEnd (isSrc : Bool) (port : Port) (build : ChannelBuild) : Option ChannelBuild :=
  match port.attr with
  | .sampling _ => some build
  | .queueing maxNbMessage =>
    if isSrc then
      if port.isDirectionSrc then some { build with maxNbMessageSend := maxNbMessage } else none
    else if ¬ port.isDirectionSrc then some { build with maxNbMessageReceive := maxNbMessage }
    else none

/-- The first port sets the size of the messages, and the second one may have a greater one. -/
def checkSize (port : Port) (build : ChannelBuild) : Option ChannelBuild :=
  match build.maxMessageSize with
  | none => some { build with maxMessageSize := some port.maxMessageSize }
  | some size => if port.maxMessageSize < size then none else some build

/-- One pass of the loop of `add_channel`. `src` is `src_connection`. -/
def addConnection (src : Option Connection) (connection : Option Connection)
    (build : ChannelBuild) : Option ChannelBuild :=
  match connection with
  | none => some build
  | some .udp => none
  | some (.local _ port) =>
    if ¬ port < build.conf.nports then none
    else if ¬ (build.kind = none ∨ build.kind = some (build.conf.ports port).kind) then none
    else
      (checkEnd (connection = src) (build.conf.ports port) { build with
        conf := build.conf.setChannel port
        kind := some (build.conf.ports port).kind }).bind (checkSize (build.conf.ports port))

/-- `add_channel` -/
def addChannel (conf : Configuration) (src dst : Option Connection) : Option Configuration :=
  ((addConnection src src ⟨conf, none, none, 1, 1⟩).bind (addConnection src dst)).bind fun build =>
    match build.kind, build.maxMessageSize with
    | some kind, some maxMessageSize =>
      some { build.conf with
        channels := Function.update build.conf.channels kind (build.conf.channels kind ++
          [⟨src.bind Connection.port, dst.bind Connection.port, maxMessageSize,
            build.maxNbMessageSend, build.maxNbMessageReceive⟩])
        nextChannelId := Function.update build.conf.nextChannelId kind
          (build.conf.nextChannelId kind + 1) }
    | _, _ => none

/-- `add_time_slot`, for a slot that its constructor has accepted -/
def addTimeSlot (conf : Configuration) (slot : TimeSlot) : Option Configuration :=
  if slot.duration < 1000000 then none
  else
    match slot.slotClass with
    | .partition part periodicProcessingStart =>
      if ¬ part < conf.npartitions then none
      else
        some { conf.updatePartition part fun p => { p with
          totalTime := p.totalTime + slot.duration
          hasPeriodicProcessingStart :=
            p.hasPeriodicProcessingStart || periodicProcessingStart } with
          slots := conf.slots ++ [slot]
          majorFrame := conf.majorFrame + slot.duration }
    | _ =>
      some { conf with
        slots := conf.slots ++ [slot], majorFrame := conf.majorFrame + slot.duration }

def step (conf : Configuration) : ConfigCall → Option Configuration
  | .newPort name direction maxMessageSize attr => conf.newPort name direction maxMessageSize attr
  | .addPartition name partId => conf.addPartition name partId
  | .setIsSystem part isSystem =>
    if part < conf.npartitions then
      some (conf.updatePartition part fun p => { p with isSystem := some isSystem })
    else none
  | .addPort kind part port => conf.addPort kind part port
  | .addChannel src dst => conf.addChannel src dst
  | .addTimeSlot slot => conf.addTimeSlot slot
  | .setNetwork => some { conf with network := true }

/-- The ports that have been added to the lists of partitions -/
def addedPorts (conf : Configuration) (kind : PortKind) : List Nat :=
  (List.range conf.npartitions).flatMap fun part => (conf.partitions part).ports kind

/-- `Partition.validate` for all partitions: a port that is not connected gets channel 0. -/
def bindPorts (conf : Configuration) : Configuration :=
  { conf with ports := fun port =>
      if port ∈ conf.addedPorts .queueing ∨ port ∈ conf.addedPorts .sampling then
        { conf.ports port with channelId := some ((conf.ports port).channelId.getD 0) }
      else conf.ports port }

/-- `Configuration.validate` -/
def validate (conf : Configuration) : Option Configuration :=
  if ∃ part < conf.npartitions, (conf.partitions part).isSystem = none then none
  else if conf.network ≠ conf.slots.any TimeSlot.isNetwork then none
  else if conf.slots.head?.any TimeSlot.isPartition = false then none
  else if ∃ part < conf.npartitions, (conf.partitions part).hasPeriodicProcessingStart = false then none
  else some conf.bindPorts

end Configuration

end Chpok.Config
