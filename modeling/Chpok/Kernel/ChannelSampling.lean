import Mathlib.Logic.Function.Basic
import Mathlib.Data.Option.Basic

/-! Sampling channels of the kernel (`kernel/core/channel.c`). The sender and the receiver
are serialized with respect to themselves only: a step is one critical section, one access to
a field or one byte of a copy. -/

namespace Chpok

/-- `pok_channel_sampling_t`. A returned pointer into the messages is the slot. -/
structure ChannelSampling where
  messages : Nat → Nat → UInt8
  messageSizes : Nat → Nat
  timestamps : Nat → Int
  readPos : Nat
  readPosNext : Nat
  writePos : Nat

namespace ChannelSampling

/-- `pok_channel_sampling_init`. The allocated memory keeps whatever it held. -/
def init (channel : ChannelSampling) : ChannelSampling :=
  { channel with
    readPosNext := 0
    readPos := 0
    messageSizes := Function.update channel.messageSizes 0 0
    writePos := 1 }

/-- `channel_sampling_message_at`; a failed assertion has no result. -/
def messageAt (pos : Nat) : Option Nat := if pos ≤ 2 then some pos else none

/-- The critical section of `pok_channel_sampling_r_get_message` -/
def rGetMessage (channel : ChannelSampling) : ChannelSampling × Nat :=
  ({ channel with readPos := channel.readPosNext }, channel.readPosNext)

/-- `pok_channel_sampling_r_clear_message` -/
def rClearMessage (channel : ChannelSampling) : ChannelSampling :=
  { channel with messageSizes := Function.update channel.messageSizes channel.readPos 0 }

/-- `pok_channel_sampling_r_check_new_message` -/
def rCheckNewMessage (channel : ChannelSampling) : ChannelSampling × Bool :=
  if channel.readPos ≠ channel.readPosNext then
    ({ channel with readPos := channel.readPosNext }, true)
  else (channel, false)

/-- `pok_channel_sampling_s_get_message` -/
def sGetMessage (channel : ChannelSampling) : Option Nat := messageAt channel.writePos

/-- `pok_channel_sampling_send_message`. The next slot is computed in `int` and stored in 8
bits. -/
def sendMessage (channel : ChannelSampling) (size : Nat) (now : Int) : Option ChannelSampling :=
  if size = 0 then none
  else
    some { channel with
      readPosNext := channel.writePos
      timestamps := Function.update channel.timestamps channel.writePos now
      messageSizes := Function.update channel.messageSizes channel.writePos size
      writePos := (3 + 512 - channel.readPos - channel.writePos) % 256 }

/-- `pok_channel_sampling_s_clear_message` -/
def sClearMessage (channel : ChannelSampling) : ChannelSampling :=
  { channel with readPosNext := channel.readPos }

def store (channel : ChannelSampling) (pos index : Nat) (byte : UInt8) : ChannelSampling :=
  { channel with messages :=
      Function.update channel.messages pos (Function.update (channel.messages pos) index byte) }

end ChannelSampling

/-- A message as it was sent. -/
structure Sample where
  content : List UInt8
  timestamp : Int
  deriving DecidableEq, Repr

/-- What has been sent: the message in the current read slot unless it has been withdrawn,
those it has replaced there, and those that no read or check has taken yet, less the ones
withdrawn. -/
structure Archive where
  replaced : List Sample
  current : Option Sample
  untaken : List Sample
  deriving DecidableEq, Repr

namespace Archive

def send (a : Archive) (m : Sample) : Archive := { a with untaken := a.untaken ++ [m] }

/-- A read or a check takes the last message. -/
def take (a : Archive) : Archive :=
  match a.untaken.getLast? with
  | none => a
  | some m =>
    { replaced := a.replaced ++ a.current.toList ++ a.untaken.dropLast
      current := some m
      untaken := [] }

def sClear (a : Archive) : Archive := { a with untaken := [] }

def rClear (a : Archive) : Archive := { a with current := none }

/-- The most recent of all messages that have not been withdrawn. -/
def mostRecent (a : Archive) : Option Sample :=
  (a.replaced ++ a.current.toList ++ a.untaken).getLast?

/-- The same if a message that has been replaced in the read slot is withdrawn with it. -/
def latest (a : Archive) : Option Sample := (a.current.toList ++ a.untaken).getLast?

end Archive

/-- Where the sender is: between its operations, or filling the slot that it has got. -/
inductive SamplingSender where
  | idle
  | filling (slot : Nat) (message : List UInt8) (filled : Nat)
  deriving DecidableEq, Repr

/-- Where the receiver is on its way through `pok_channel_sampling_r_get_message` and the
copy that follows. -/
inductive SamplingReceiver where
  | idle
  | got (slot : Nat)
  | sized (slot size : Nat)
  | copying (slot size : Nat) (timestamp : Int) (copied : List UInt8)
  | returned (result : Option Sample)
  deriving DecidableEq, Repr

/-- A sampling channel with its two sides. `archive` is what has been sent and `due` what the
archive had for the receiver when it got the slot, respectively. -/
structure SamplingSystem where
  channel : ChannelSampling
  sender : SamplingSender
  receiver : SamplingReceiver
  archive : Archive
  due : Archive

inductive SamplingInput where
  | sGet (message : List UInt8)
  | sFill
  | sSend (now : Int)
  | sClear
  | rGet
  | rSize
  | rTimestamp
  | rCopy
  | rReturn
  | rCheck
  | rClear
  deriving DecidableEq, Repr

namespace SamplingSystem

def senderStep (s : SamplingSystem) : SamplingInput → Option SamplingSystem
  | .sGet message =>
    s.channel.sGetMessage.map fun slot => { s with sender := .filling slot message 0 }
  | .sFill =>
    match s.sender with
    | .filling slot message filled =>
      message[filled]?.map fun byte =>
        { s with
          channel := s.channel.store slot filled byte
          sender := .filling slot message (filled + 1) }
    | .idle => none
  | .sSend now =>
    match s.sender with
    | .filling _ message filled =>
      if filled = message.length then
        (s.channel.sendMessage message.length now).map fun channel =>
          { s with channel, sender := .idle, archive := s.archive.send ⟨message, now⟩ }
      else none
    | .idle => none
  | .sClear =>
    some { s with
      channel := s.channel.sClearMessage, sender := .idle, archive := s.archive.sClear }
  | _ => none

def receiverStep (s : SamplingSystem) : SamplingInput → Option SamplingSystem
  | .rGet =>
    some { s with
      channel := s.channel.rGetMessage.1
      receiver := .got s.channel.rGetMessage.2
      archive := s.archive.take
      due := s.archive }
  | .rSize =>
    match s.receiver with
    | .got slot =>
      if s.channel.messageSizes slot = 0 then some { s with receiver := .returned none }
      else some { s with receiver := .sized slot (s.channel.messageSizes slot) }
    | _ => none
  | .rTimestamp =>
    match s.receiver with
    | .sized slot size =>
      (ChannelSampling.messageAt slot).map fun slot =>
        { s with receiver := .copying slot size (s.channel.timestamps slot) [] }
    | _ => none
  | .rCopy =>
    match s.receiver with
    | .copying slot size timestamp copied =>
      if copied.length < size then
        some { s with
          receiver := .copying slot size timestamp
            (copied ++ [s.channel.messages slot copied.length]) }
      else none
    | _ => none
  | .rReturn =>
    match s.receiver with
    | .copying _ size timestamp copied =>
      if copied.length = size then some { s with receiver := .returned (some ⟨copied, timestamp⟩) }
      else none
    | _ => none
  | .rCheck =>
    some { s with
      channel := s.channel.rCheckNewMessage.1, receiver := .idle, archive := s.archive.take }
  | .rClear =>
    some { s with
      channel := s.channel.rClearMessage, receiver := .idle, archive := s.archive.rClear }
  | _ => none

def step (s : SamplingSystem) (e : SamplingInput) : Option SamplingSystem :=
  match e with
  | .sGet _ | .sFill | .sSend _ | .sClear => s.senderStep e
  | _ => s.receiverStep e

/-- The channel is initialized; nothing has been sent. -/
def boot (channel : ChannelSampling) : SamplingSystem where
  channel := channel.init
  sender := .idle
  receiver := .idle
  archive := ⟨[], none, []⟩
  due := ⟨[], none, []⟩

end SamplingSystem

end Chpok
