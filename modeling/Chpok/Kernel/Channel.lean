import Mathlib.Logic.Function.Basic
import Mathlib.Data.Option.Basic

/-! Queuing channels of the kernel (`kernel/core/channel.c`). The message memory is
one cell of bytes per ring position; a returned pointer into it is the position.
A failed assertion has no result. -/

namespace Chpok

/-- `jet_channel_queuing_overflow_strategy` -/
inductive OverflowStrategy where
  | senderBlock
  | receiverDiscard
  deriving DecidableEq, Repr

/-- `jet_partition_event_type` -/
inductive PartitionEventType where
  | timer
  | portSendAvailable
  | portReceiveAvailable
  deriving DecidableEq, Repr

/-- `jet_partition_event` -/
structure PartitionEvent where
  handlerId : Nat
  eventType : PartitionEventType
  deriving DecidableEq, Repr

/-- `pok_channel_queuing_side`. The partition of a side is passed to the operations
that read its generation, and the event for it is returned. -/
structure ChannelQueuingSide where
  maxNbMessage : Nat
  nextMessage : Nat
  generation : Nat
  isNotify : Bool
  handlerId : Nat
  deriving DecidableEq, Repr

/-- `pok_channel_queuing_t` -/
structure ChannelQueuing where
  maxMessageSize : Nat
  send : ChannelQueuingSide
  recv : ChannelQueuingSide
  maxNbMessage : Nat
  messages : Nat → Nat → UInt8
  messageSizes : Nat → Nat
  border : Nat
  overflowStrategy : OverflowStrategy
  messageDiscarded : Bool

inductive Side where
  | send
  | recv
  deriving DecidableEq, Repr

namespace ChannelQueuing

/-- `pok_channel_queuing_init`. The allocated memory keeps whatever it held. -/
def init (channel : ChannelQueuing) : ChannelQueuing :=
  { channel with
    maxNbMessage := (channel.recv.maxNbMessage + channel.send.maxNbMessage) % 65536
    border := 0
    send := { channel.send with nextMessage := 0, generation := 0, isNotify := false }
    recv := { channel.recv with nextMessage := 0, generation := 0, isNotify := false }
    messageDiscarded := false }

/-- `channel_queuing_cyclic_add` -/
def cyclicAdd (channel : ChannelQueuing) (pos index : Nat) : Nat :=
  let sum := (pos + index) % 65536
  if channel.maxNbMessage ≤ sum then sum - channel.maxNbMessage else sum

/-- `channel_queuing_cyclic_sub`, computed in `int` and returned in 16 bits. -/
def cyclicSub (channel : ChannelQueuing) (posEnd posStart : Nat) : Nat :=
  if posStart ≤ posEnd then posEnd - posStart
  else (posEnd + channel.maxNbMessage + 65536 - posStart) % 65536

/-- `channel_queuing_message_at` -/
def messageAt (channel : ChannelQueuing) (pos : Nat) : Option Nat :=
  if pos < channel.maxNbMessage then some pos else none

/-- `channel_queuing_side_notify` -/
def sideNotify (side : ChannelQueuingSide) (eventType : PartitionEventType) :
    ChannelQueuingSide × Option PartitionEvent :=
  if side.isNotify then
    ({ side with isNotify := false }, some ⟨side.handlerId, eventType⟩)
  else (side, none)

/-- `pok_channel_queuing_side_init` -/
def sideInit (channel : ChannelQueuing) (side : Side) (partitionGeneration handlerId : Nat) :
    ChannelQueuing :=
  let start (s : ChannelQueuingSide) : ChannelQueuingSide :=
    { s with
      nextMessage := channel.border
      isNotify := false
      generation := partitionGeneration
      handlerId := handlerId }
  match side with
  | .send => { channel with send := start channel.send }
  | .recv => { channel with recv := start channel.recv }

/-- `pok_channel_queuing_r_n_messages` -/
def rNMessages (channel : ChannelQueuing) : Nat :=
  channel.cyclicSub channel.border channel.recv.nextMessage

/-- `pok_channel_queuing_s_n_messages` -/
def sNMessages (channel : ChannelQueuing) : Nat :=
  channel.cyclicSub channel.send.nextMessage channel.border

/-- `pok_channel_queuing_r_get_message`: the position and the size of the message. -/
def rGetMessage (channel : ChannelQueuing) (subscribe : Bool) :
    Option (ChannelQueuing × Option (Nat × Nat)) :=
  if channel.recv.nextMessage ≠ channel.border then
    (channel.messageAt channel.recv.nextMessage).map fun pos =>
      (channel, some (pos, channel.messageSizes pos))
  else if subscribe then
    some ({ channel with recv := { channel.recv with isNotify := true } }, none)
  else some (channel, none)

/-- A message of the sender takes the slot freed at the receiver. -/
def rRefill (channel : ChannelQueuing) (sendPartitionGeneration : Nat) :
    ChannelQueuing × Option PartitionEvent :=
  if sendPartitionGeneration = channel.send.generation
      ∧ channel.border ≠ channel.send.nextMessage then
    ({ channel with
       border := channel.cyclicAdd channel.border 1
       send := (sideNotify channel.send .portSendAvailable).1 },
      (sideNotify channel.send .portSendAvailable).2)
  else (channel, none)

/-- The receiver's position passes the message it has consumed. -/
def rAdvance (channel : ChannelQueuing) : ChannelQueuing :=
  { channel with recv := { channel.recv with
      nextMessage := channel.cyclicAdd channel.recv.nextMessage 1 } }

/-- `pok_channel_queuing_r_consume_message`: the discarded flag, and the event for the
sender's partition. -/
def rConsumeMessage (channel : ChannelQueuing) (sendPartitionGeneration : Nat) :
    Option (ChannelQueuing × Bool × Option PartitionEvent) :=
  if channel.recv.nextMessage = channel.border then none
  else
    some ({ (channel.rAdvance.rRefill sendPartitionGeneration).1 with messageDiscarded := false },
      channel.messageDiscarded, (channel.rAdvance.rRefill sendPartitionGeneration).2)

/-- `pok_channel_queuing_s_get_message` -/
def sGetMessage (channel : ChannelQueuing) (subscribe : Bool) :
    Option (ChannelQueuing × Option Nat) :=
  if channel.cyclicSub channel.send.nextMessage channel.border < channel.send.maxNbMessage then
    (channel.messageAt channel.send.nextMessage).map fun pos => (channel, some pos)
  else if subscribe then
    some ({ channel with send := { channel.send with isNotify := true } }, none)
  else some (channel, none)

/-- What becomes of the message just stored at the sender. -/
def sTransmit (channel : ChannelQueuing) (recvPartitionGeneration : Nat) :
    ChannelQueuing × Option PartitionEvent :=
  if recvPartitionGeneration = channel.recv.generation then
    if channel.cyclicSub channel.border channel.recv.nextMessage < channel.recv.maxNbMessage then
      ({ channel with
         border := channel.send.nextMessage
         recv := (sideNotify channel.recv .portReceiveAvailable).1 },
        (sideNotify channel.recv .portReceiveAvailable).2)
    else if channel.overflowStrategy = .receiverDiscard then
      ({ channel with
         send := { channel.send with nextMessage := channel.border }
         messageDiscarded := true }, none)
    else (channel, none)
  else
    -- The receiver is not connected: everything sent so far is dropped.
    ({ channel with border := channel.send.nextMessage }, none)

/-- The size is stored and the sender's position passes the message it has filled. -/
def sStore (channel : ChannelQueuing) (size : Nat) : ChannelQueuing :=
  { channel with
    messageSizes := Function.update channel.messageSizes channel.send.nextMessage size
    send := { channel.send with nextMessage := channel.cyclicAdd channel.send.nextMessage 1 } }

/-- `pok_channel_queuing_s_produce_message`: the event for the receiver's partition. -/
def sProduceMessage (channel : ChannelQueuing) (recvPartitionGeneration size : Nat) :
    Option (ChannelQueuing × Option PartitionEvent) :=
  if channel.cyclicSub channel.send.nextMessage channel.border < channel.send.maxNbMessage
      ∧ 0 < size ∧ size ≤ channel.maxMessageSize then
    some ((channel.sStore size).sTransmit recvPartitionGeneration)
  else none

/-- The sender's `memcpy` into the slot it got. -/
def fill (channel : ChannelQueuing) (pos : Nat) (bytes : List UInt8) : ChannelQueuing :=
  { channel with
    messages := Function.update channel.messages pos
      fun i => bytes.getD i (channel.messages pos i) }

/-- The bytes that `memcpy` takes from the slot at `pos`. -/
def content (channel : ChannelQueuing) (pos size : Nat) : List UInt8 :=
  (List.range size).map (channel.messages pos)

end ChannelQueuing

/-- The next value of `partition_generation`; zero is skipped when the counter wraps. -/
def nextGeneration (generation : Nat) : Nat :=
  if (generation + 1) % 4294967296 = 0 then 1 else (generation + 1) % 4294967296

end Chpok
