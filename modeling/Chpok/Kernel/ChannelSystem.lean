import Chpok.Kernel.Channel
import Chpok.Library.Ring
import Chpok.Library.Run

/-! A queuing channel between two partitions, each with one port on it
(`kernel/core/port.c`). The inputs are the channel operations of the two ports and
the restarts of the two partitions. -/

namespace Chpok

/-- `sendCreated` and `recvCreated` are the `is_created` flags of the two ports. -/
structure ChannelSystem where
  channel : ChannelQueuing
  sendGeneration : Nat
  recvGeneration : Nat
  sendCreated : Bool
  recvCreated : Bool

inductive ChannelInput where
  | sGetMessage (subscribe : Bool)
  | sFill (bytes : List UInt8)
  | sProduceMessage (size : Nat)
  | rGetMessage (subscribe : Bool)
  | rConsumeMessage
  | create (side : Side) (handlerId : Nat)
  | clear (handlerId : Nat)
  | restart (side : Side)
  deriving DecidableEq

/-- What the caller of an operation sees. A produced message is `dropped` when the
sender's position does not move on. -/
inductive ChannelOutput where
  | sSlot (slot : Option Nat)
  | filled (bytes : List UInt8)
  | produced (message : List UInt8) (dropped : Bool)
  | rMessage (message : Option (List UInt8))
  | consumed (message : List UInt8) (discarded : Bool)
  | done
  deriving DecidableEq

namespace ChannelSystem

/-- After `pok_channels_init_all` and the `pok_partition_reset` of both partitions. -/
def boot (channel : ChannelQueuing) : ChannelSystem where
  channel := channel.init
  sendGeneration := nextGeneration 0
  recvGeneration := nextGeneration 0
  sendCreated := false
  recvCreated := false

/-- The test by which the channel recognises a side of the current incarnation. -/
def Connected (s : ChannelSystem) : Side → Prop
  | .send => s.sendGeneration = s.channel.send.generation
  | .recv => s.recvGeneration = s.channel.recv.generation

/-- A port that is not created, or is created twice, refuses the operation. -/
def step (s : ChannelSystem) : ChannelInput → Option (ChannelSystem × ChannelOutput)
  | .sGetMessage subscribe =>
    if s.sendCreated then
      (s.channel.sGetMessage subscribe).map fun r => ({ s with channel := r.1 }, .sSlot r.2)
    else none
  | .sFill bytes =>
    if s.sendCreated then
      (s.channel.sGetMessage false).bind fun r => r.2.map fun slot =>
        ({ s with channel := s.channel.fill slot bytes }, .filled bytes)
    else none
  | .sProduceMessage size =>
    if s.sendCreated then
      (s.channel.sProduceMessage s.recvGeneration size).map fun r =>
        ({ s with channel := r.1 },
          .produced (s.channel.content s.channel.send.nextMessage size)
            (r.1.send.nextMessage == s.channel.send.nextMessage))
    else none
  | .rGetMessage subscribe =>
    if s.recvCreated then
      (s.channel.rGetMessage subscribe).map fun r =>
        ({ s with channel := r.1 }, .rMessage (r.2.map fun m => s.channel.content m.1 m.2))
    else none
  | .rConsumeMessage =>
    if s.recvCreated then
      (s.channel.rConsumeMessage s.sendGeneration).map fun r =>
        ({ s with channel := r.1 },
          .consumed (s.channel.content s.channel.recv.nextMessage
            (s.channel.messageSizes s.channel.recv.nextMessage)) r.2.1)
    else none
  | .create .send handlerId =>
    if s.sendCreated then none
    else some ({ s with
      channel := s.channel.sideInit .send s.sendGeneration handlerId, sendCreated := true }, .done)
  | .create .recv handlerId =>
    if s.recvCreated then none
    else some ({ s with
      channel := s.channel.sideInit .recv s.recvGeneration handlerId, recvCreated := true }, .done)
  | .clear handlerId =>
    if s.recvCreated then
      some ({ s with channel := s.channel.sideInit .recv s.recvGeneration handlerId }, .done)
    else none
  | .restart .send =>
    some ({ s with sendGeneration := nextGeneration s.sendGeneration, sendCreated := false }, .done)
  | .restart .recv =>
    some ({ s with recvGeneration := nextGeneration s.recvGeneration, recvCreated := false }, .done)

def next (s : ChannelSystem) (e : ChannelInput) : Option ChannelSystem :=
  (s.step e).map Prod.fst

theorem next_eq_some {s t : ChannelSystem} {e : ChannelInput} :
    s.next e = some t ↔ ∃ o, s.step e = some (t, o) := by
  simp [next]

end ChannelSystem

namespace ChannelQueuing

variable {channel : ChannelQueuing}

/-- What the deployment fixes and no operation changes. -/
structure Sized (channel : ChannelQueuing) : Prop where
  recv_pos : 1 ≤ channel.recv.maxNbMessage
  send_pos : 1 ≤ channel.send.maxNbMessage
  total : channel.maxNbMessage = channel.recv.maxNbMessage + channel.send.maxNbMessage
  small : channel.maxNbMessage < 65536

/-- All ring positions are below the ring size. -/
structure InRing (channel : ChannelQueuing) : Prop where
  border : channel.border < channel.maxNbMessage
  send : channel.send.nextMessage < channel.maxNbMessage
  recv : channel.recv.nextMessage < channel.maxNbMessage

theorem cyclicAdd_eq {p k : Nat} (h : p + k < 65536) :
    channel.cyclicAdd p k = RingIndex.add channel.maxNbMessage p k := by
  simp only [cyclicAdd, RingIndex.add, Nat.mod_eq_of_lt h]

theorem cyclicSub_eq {p q : Nat} (hs : channel.maxNbMessage < 65536)
    (hq : q < channel.maxNbMessage) :
    channel.cyclicSub p q = RingIndex.sub channel.maxNbMessage p q := by
  unfold cyclicSub RingIndex.sub
  split_ifs <;> omega

theorem sNMessages_eq (hs : channel.Sized) (hr : channel.InRing) :
    channel.sNMessages =
      RingIndex.sub channel.maxNbMessage channel.send.nextMessage channel.border :=
  cyclicSub_eq hs.small hr.border

theorem rNMessages_eq (hs : channel.Sized) (hr : channel.InRing) :
    channel.rNMessages =
      RingIndex.sub channel.maxNbMessage channel.border channel.recv.nextMessage :=
  cyclicSub_eq hs.small hr.recv

end ChannelQueuing

end Chpok
