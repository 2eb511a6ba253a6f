import Chpok.Kernel.ChannelSampling
import Chpok.Library.Run
import Mathlib.Data.List.Basic

/-! Triple buffering of a sampling channel. The write slot differs from both read slots, so
that nothing the sender does reaches the message which the receiver is about to copy, and the
receiver gets the latest message as a whole. -/

namespace Chpok

namespace ChannelSampling

variable {channel : ChannelSampling} {pos : Nat} {m : Sample}

/-- The message lies in the slot. -/
structure Holds (channel : ChannelSampling) (pos : Nat) (m : Sample) : Prop where
  size : channel.messageSizes pos = m.content.length
  nonempty : m.content ≠ []
  timestamp : channel.timestamps pos = m.timestamp
  bytes : ∀ i byte, m.content[i]? = some byte → channel.messages pos i = byte

structure Positions (channel : ChannelSampling) : Prop where
  read : channel.readPos ≤ 2
  next : channel.readPosNext ≤ 2
  write : channel.writePos ≤ 2
  write_read : channel.writePos ≠ channel.readPos
  write_next : channel.writePos ≠ channel.readPosNext

theorem Positions.send {size : Nat} {now : Int} {channel' : ChannelSampling}
    (h : channel.Positions) (hs : channel.sendMessage size now = some channel') :
    channel'.Positions ∧ channel'.readPos = channel.readPos ∧
      channel'.readPosNext = channel.writePos := by
  rw [sendMessage] at hs
  by_cases hsize : size = 0
  · rw [if_pos hsize] at hs
    cases hs
  · rw [if_neg hsize] at hs
    obtain rfl := Option.some.inj hs
    have hread := h.read
    have hwrite := h.write
    have hne := h.write_read
    refine ⟨⟨hread, hwrite, ?_, ?_, ?_⟩, rfl, rfl⟩
    all_goals
      dsimp only
      omega

theorem Holds.store {slot index : Nat} {byte : UInt8} (h : channel.Holds pos m)
    (hne : pos ≠ slot) : (channel.store slot index byte).Holds pos m := by
  refine ⟨h.size, h.nonempty, h.timestamp, fun i b hb => ?_⟩
  change Function.update channel.messages slot _ pos i = b
  rw [Function.update_of_ne hne]
  exact h.bytes i b hb

theorem Holds.send {size : Nat} {now : Int} {channel' : ChannelSampling} (h : channel.Holds pos m)
    (hne : pos ≠ channel.writePos) (hs : channel.sendMessage size now = some channel') :
    channel'.Holds pos m := by
  rw [sendMessage] at hs
  split_ifs at hs
  obtain rfl := Option.some.inj hs
  refine ⟨?_, h.nonempty, ?_, h.bytes⟩
  · rw [← h.size]
    exact Function.update_of_ne hne ..
  · rw [← h.timestamp]
    exact Function.update_of_ne hne ..

theorem holds_sent {message : List UInt8} {now : Int} {channel' : ChannelSampling}
    (hbytes : ∀ i byte, message[i]? = some byte → channel.messages channel.writePos i = byte)
    (hs : channel.sendMessage message.length now = some channel') :
    channel'.Holds channel.writePos ⟨message, now⟩ := by
  rw [sendMessage] at hs
  by_cases hsize : message.length = 0
  · rw [if_pos hsize] at hs
    cases hs
  · rw [if_neg hsize] at hs
    obtain rfl := Option.some.inj hs
    refine ⟨Function.update_self .., ?_, Function.update_self .., hbytes⟩
    exact fun he => hsize (List.length_eq_zero_iff.mpr he)

theorem Holds.size_ne_zero (h : channel.Holds pos m) : channel.messageSizes pos ≠ 0 := by
  rw [h.size]
  exact fun he => h.nonempty (List.length_eq_zero_iff.mp he)

theorem Holds.copy {copied : List UInt8} (h : channel.Holds pos m)
    (hcopied : copied <+: m.content) (hlt : copied.length < m.content.length) :
    copied ++ [channel.messages pos copied.length] <+: m.content := by
  obtain ⟨rest, hrest⟩ := hcopied
  cases rest with
  | nil =>
    rw [List.append_nil] at hrest
    rw [hrest] at hlt
    exact absurd hlt (Nat.lt_irrefl _)
  | cons byte rest =>
    have hget : m.content[copied.length]? = some byte := by
      rw [← hrest]
      simp
    rw [h.bytes _ _ hget]
    exact ⟨rest, by rw [← hrest]; simp⟩

end ChannelSampling

namespace Archive

theorem take_current (a : Archive) : a.take.current = a.latest := by
  rw [take, latest]
  cases hlast : a.untaken.getLast? with
  | none =>
    rw [List.getLast?_eq_none_iff.mp hlast, List.append_nil]
    cases a.current <;> rfl
  | some m => rw [List.getLast?_append, hlast, Option.some_or]

theorem take_untaken (a : Archive) : a.take.untaken = [] := by
  rw [take]
  cases hlast : a.untaken.getLast? with
  | none => exact List.getLast?_eq_none_iff.mp hlast
  | some m => rfl

end Archive

namespace SamplingSystem

variable {s t : SamplingSystem}

/-- The slots hold what the archive says. -/
structure Stored (channel : ChannelSampling) (a : Archive) : Prop where
  current : ∀ m, a.current = some m → channel.Holds channel.readPos m
  withdrawn : a.current = none → channel.messageSizes channel.readPos = 0
  untaken : ∀ m, a.untaken.getLast? = some m →
    channel.readPosNext ≠ channel.readPos ∧ channel.Holds channel.readPosNext m
  taken : a.untaken = [] → channel.readPosNext = channel.readPos

def SenderOk (channel : ChannelSampling) : SamplingSender → Prop
  | .idle => True
  | .filling slot message filled => slot = channel.writePos ∧ filled ≤ message.length ∧
      ∀ i byte, i < filled → message[i]? = some byte → channel.messages slot i = byte

/-- The receiver is on its way to return what was due. -/
def ReceiverOk (channel : ChannelSampling) (current due : Option Sample) : SamplingReceiver → Prop
  | .idle => True
  | .got slot => slot = channel.readPos ∧ due = current
  | .sized slot size => slot = channel.readPos ∧ due = current ∧
      ∃ m, current = some m ∧ size = m.content.length
  | .copying slot size timestamp copied => slot = channel.readPos ∧ due = current ∧
      ∃ m, current = some m ∧ size = m.content.length ∧ timestamp = m.timestamp ∧
        copied <+: m.content
  | .returned result => result = due

structure Inv (s : SamplingSystem) : Prop where
  positions : s.channel.Positions
  stored : Stored s.channel s.archive
  sender : SenderOk s.channel s.sender
  receiver : ReceiverOk s.channel s.archive.current s.due.latest s.receiver

theorem ReceiverOk.congr {channel channel' : ChannelSampling} {current due : Option Sample}
    {r : SamplingReceiver} (h : ReceiverOk channel current due r)
    (hread : channel'.readPos = channel.readPos) : ReceiverOk channel' current due r := by
  cases r with
  | idle => trivial
  | got slot => exact ⟨h.1.trans hread.symm, h.2⟩
  | sized slot size => exact ⟨h.1.trans hread.symm, h.2⟩
  | copying slot size timestamp copied => exact ⟨h.1.trans hread.symm, h.2⟩
  | returned result => exact h

theorem SenderOk.congr {channel channel' : ChannelSampling} {p : SamplingSender}
    (h : SenderOk channel p) (hwrite : channel'.writePos = channel.writePos)
    (hmessages : channel'.messages = channel.messages) : SenderOk channel' p := by
  cases p with
  | idle => trivial
  | filling slot message filled =>
    refine ⟨h.1.trans hwrite.symm, h.2.1, ?_⟩
    rw [hmessages]
    exact h.2.2

theorem Stored.store {channel : ChannelSampling} {a : Archive} {index : Nat} {byte : UInt8}
    (h : Stored channel a) (hpos : channel.Positions) :
    Stored (channel.store channel.writePos index byte) a where
  current m hm := (h.current m hm).store hpos.write_read.symm
  withdrawn := h.withdrawn
  untaken m hm := by
    obtain ⟨hne, hholds⟩ := h.untaken m hm
    exact ⟨hne, hholds.store hpos.write_next.symm⟩
  taken := h.taken

theorem Stored.send {channel channel' : ChannelSampling} {a : Archive} {message : List UInt8}
    {now : Int} (h : Stored channel a) (hpos : channel.Positions)
    (hbytes : ∀ i byte, message[i]? = some byte → channel.messages channel.writePos i = byte)
    (hs : channel.sendMessage message.length now = some channel') :
    Stored channel' (a.send ⟨message, now⟩) := by
  obtain ⟨-, hread, hnext⟩ := hpos.send hs
  refine ⟨fun m hm => ?_, fun hnone => ?_, fun m hm => ?_, fun hnil => ?_⟩
  · rw [hread]
    exact (h.current m hm).send hpos.write_read.symm hs
  · rw [hread, ← h.withdrawn hnone]
    rw [ChannelSampling.sendMessage] at hs
    split_ifs at hs
    obtain rfl := Option.some.inj hs
    exact Function.update_of_ne hpos.write_read.symm ..
  · have hlast : (a.untaken ++ [(⟨message, now⟩ : Sample)]).getLast? = some m := hm
    rw [List.getLast?_concat] at hlast
    obtain rfl := Option.some.inj hlast
    rw [hnext, hread]
    exact ⟨hpos.write_read, ChannelSampling.holds_sent hbytes hs⟩
  · exact absurd hnil (by simp [Archive.send])

theorem Stored.sClear {channel : ChannelSampling} {a : Archive} (h : Stored channel a) :
    Stored channel.sClearMessage a.sClear where
  current m hm := by
    obtain ⟨hsize, hne, htime, hbytes⟩ := h.current m hm
    exact ⟨hsize, hne, htime, hbytes⟩
  withdrawn := h.withdrawn
  untaken := nofun
  taken _ := rfl

/-- A message that has not been taken lies in another slot than the one that is cleared. -/
theorem Stored.rClear {channel : ChannelSampling} {a : Archive} (h : Stored channel a) :
    Stored channel.rClearMessage a.rClear where
  current := nofun
  withdrawn _ := Function.update_self ..
  untaken m hm := by
    obtain ⟨hne, hholds⟩ := h.untaken m hm
    refine ⟨hne, ?_, hholds.nonempty, hholds.timestamp, hholds.bytes⟩
    rw [← hholds.size]
    exact Function.update_of_ne hne ..
  taken := h.taken

/-- A read or a check makes the next slot the current one. -/
theorem Stored.take {channel channel' : ChannelSampling} {a : Archive} (h : Stored channel a)
    (hread : channel'.readPos = channel.readPosNext)
    (hnext : channel'.readPosNext = channel.readPosNext)
    (hsizes : channel'.messageSizes = channel.messageSizes)
    (htimes : channel'.timestamps = channel.timestamps)
    (hmessages : channel'.messages = channel.messages) : Stored channel' a.take := by
  have hholds : ∀ pos m, channel.Holds pos m → channel'.Holds pos m := by
    intro pos m hm
    refine ⟨?_, hm.nonempty, ?_, ?_⟩
    · rw [hsizes, hm.size]
    · rw [htimes, hm.timestamp]
    · rw [hmessages]
      exact hm.bytes
  refine ⟨fun m hm => ?_, fun hnone => ?_, fun m hm => ?_, fun _ => hnext.trans hread.symm⟩
  · rw [hread]
    rw [Archive.take_current, Archive.latest, List.getLast?_append] at hm
    cases hlast : a.untaken.getLast? with
    | none =>
      rw [hlast, Option.none_or] at hm
      have hcurrent : a.current = some m := by
        cases hc : a.current with
        | none =>
          rw [hc] at hm
          cases hm
        | some c =>
          rw [hc] at hm
          exact hm
      rw [h.taken (List.getLast?_eq_none_iff.mp hlast)]
      exact hholds _ _ (h.current m hcurrent)
    | some x =>
      rw [hlast, Option.some_or] at hm
      obtain rfl := Option.some.inj hm
      exact hholds _ _ (h.untaken x hlast).2
  · rw [Archive.take_current, Archive.latest, List.getLast?_append] at hnone
    cases hlast : a.untaken.getLast? with
    | none =>
      rw [hlast, Option.none_or] at hnone
      have hcurrent : a.current = none := by
        cases hc : a.current with
        | none => rfl
        | some c =>
          rw [hc] at hnone
          cases hnone
      rw [hread, hsizes, h.taken (List.getLast?_eq_none_iff.mp hlast)]
      exact h.withdrawn hcurrent
    | some x =>
      rw [hlast, Option.some_or] at hnone
      cases hnone
  · rw [Archive.take_untaken] at hm
    cases hm

theorem Inv.senderStep {e : SamplingInput} (hs : s.Inv) (h : s.senderStep e = some t) : t.Inv := by
  obtain ⟨hpos, hstored, hsender, hreceiver⟩ := hs
  cases e with
  | sGet message =>
    obtain ⟨slot, hslot, rfl⟩ := Option.map_eq_some_iff.mp h
    have hwrite : slot = s.channel.writePos := by
      rw [ChannelSampling.sGetMessage, ChannelSampling.messageAt, if_pos hpos.write] at hslot
      exact (Option.some.inj hslot).symm
    exact ⟨hpos, hstored, ⟨hwrite, Nat.zero_le _, fun i byte hi => absurd hi (Nat.not_lt_zero i)⟩,
      hreceiver⟩
  | sFill =>
    simp only [SamplingSystem.senderStep] at h
    cases hp : s.sender with
    | idle =>
      rw [hp] at h
      cases h
    | filling slot message filled =>
      rw [hp] at h hsender
      obtain ⟨byte, hbyte, rfl⟩ := Option.map_eq_some_iff.mp h
      obtain ⟨rfl, -, hbytes⟩ := hsender
      have hlt : filled < message.length := (List.getElem?_eq_some_iff.mp hbyte).1
      refine ⟨⟨hpos.read, hpos.next, hpos.write, hpos.write_read, hpos.write_next⟩,
        hstored.store hpos, ⟨rfl, hlt, fun i b hi hb => ?_⟩, hreceiver.congr rfl⟩
      change Function.update s.channel.messages s.channel.writePos
        (Function.update (s.channel.messages s.channel.writePos) filled byte)
        s.channel.writePos i = b
      rw [Function.update_self]
      by_cases hif : i = filled
      · subst hif
        rw [Function.update_self]
        exact Option.some.inj (hbyte.symm.trans hb)
      · rw [Function.update_of_ne hif]
        exact hbytes i b (Nat.lt_of_le_of_ne (Nat.le_of_lt_succ hi) hif) hb
  | sSend now =>
    simp only [SamplingSystem.senderStep] at h
    cases hp : s.sender with
    | idle =>
      rw [hp] at h
      cases h
    | filling slot message filled =>
      rw [hp] at h hsender
      dsimp only at h
      by_cases hfull : filled = message.length
      · rw [if_pos hfull] at h
        obtain ⟨channel, hsend, rfl⟩ := Option.map_eq_some_iff.mp h
        obtain ⟨rfl, -, hbytes⟩ := hsender
        obtain ⟨hpos', hread, -⟩ := hpos.send hsend
        have hall : ∀ i byte, message[i]? = some byte →
            s.channel.messages s.channel.writePos i = byte := fun i byte hi =>
          hbytes i byte (hfull ▸ (List.getElem?_eq_some_iff.mp hi).1) hi
        exact ⟨hpos', hstored.send hpos hall hsend, trivial, hreceiver.congr hread⟩
      · rw [if_neg hfull] at h
        cases h
  | sClear =>
    obtain rfl := Option.some.inj h
    exact ⟨⟨hpos.read, hpos.read, hpos.write, hpos.write_read, hpos.write_read⟩, hstored.sClear,
      trivial, hreceiver.congr rfl⟩
  | rGet | rSize | rTimestamp | rCopy | rReturn | rCheck | rClear => cases h

theorem Inv.receiverStep {e : SamplingInput} (hs : s.Inv) (h : s.receiverStep e = some t) :
    t.Inv := by
  obtain ⟨hpos, hstored, hsender, hreceiver⟩ := hs
  cases e with
  | rGet =>
    obtain rfl := Option.some.inj h
    refine ⟨⟨hpos.next, hpos.next, hpos.write, hpos.write_next, hpos.write_next⟩,
      hstored.take rfl rfl rfl rfl rfl, hsender.congr rfl rfl, rfl, ?_⟩
    exact s.archive.take_current.symm
  | rSize =>
    simp only [SamplingSystem.receiverStep] at h
    cases hr : s.receiver with
    | got slot =>
      rw [hr] at h hreceiver
      obtain ⟨rfl, hdue⟩ := hreceiver
      dsimp only at h
      by_cases hzero : s.channel.messageSizes s.channel.readPos = 0
      · rw [if_pos hzero] at h
        obtain rfl := Option.some.inj h
        refine ⟨hpos, hstored, hsender, ?_⟩
        change none = s.due.latest
        rw [hdue]
        cases hc : s.archive.current with
        | none => rfl
        | some m => exact absurd hzero (hstored.current m hc).size_ne_zero
      · rw [if_neg hzero] at h
        obtain rfl := Option.some.inj h
        refine ⟨hpos, hstored, hsender, rfl, hdue, ?_⟩
        cases hc : s.archive.current with
        | none => exact absurd (hstored.withdrawn hc) hzero
        | some m => exact ⟨m, rfl, (hstored.current m hc).size⟩
    | idle | sized _ _ | copying _ _ _ _ | returned _ =>
      rw [hr] at h
      cases h
  | rTimestamp =>
    simp only [SamplingSystem.receiverStep] at h
    cases hr : s.receiver with
    | sized slot size =>
      rw [hr] at h hreceiver
      obtain ⟨rfl, hdue, m, hm, rfl⟩ := hreceiver
      obtain ⟨slot, hslot, rfl⟩ := Option.map_eq_some_iff.mp h
      rw [ChannelSampling.messageAt, if_pos hpos.read] at hslot
      obtain rfl := Option.some.inj hslot
      exact ⟨hpos, hstored, hsender, rfl, hdue, m, hm, rfl, (hstored.current m hm).timestamp,
        List.nil_prefix⟩
    | idle | got _ | copying _ _ _ _ | returned _ =>
      rw [hr] at h
      cases h
  | rCopy =>
    simp only [SamplingSystem.receiverStep] at h
    cases hr : s.receiver with
    | copying slot size timestamp copied =>
      rw [hr] at h hreceiver
      obtain ⟨rfl, hdue, m, hm, rfl, rfl, hcopied⟩ := hreceiver
      dsimp only at h
      split_ifs at h with hlt
      obtain rfl := Option.some.inj h
      exact ⟨hpos, hstored, hsender, rfl, hdue, m, hm, rfl, rfl,
        (hstored.current m hm).copy hcopied hlt⟩
    | idle | got _ | sized _ _ | returned _ =>
      rw [hr] at h
      cases h
  | rReturn =>
    simp only [SamplingSystem.receiverStep] at h
    cases hr : s.receiver with
    | copying slot size timestamp copied =>
      rw [hr] at h hreceiver
      obtain ⟨rfl, hdue, m, hm, rfl, rfl, hcopied⟩ := hreceiver
      dsimp only at h
      split_ifs at h with hfull
      obtain rfl := Option.some.inj h
      refine ⟨hpos, hstored, hsender, ?_⟩
      obtain rfl := hcopied.eq_of_length hfull
      exact hm.symm.trans hdue.symm
    | idle | got _ | sized _ _ | returned _ =>
      rw [hr] at h
      cases h
  | rCheck =>
    obtain rfl := Option.some.inj h
    by_cases hnew : s.channel.readPos ≠ s.channel.readPosNext
    · have hcheck : s.channel.rCheckNewMessage.1 =
          { s.channel with readPos := s.channel.readPosNext } := by
        rw [ChannelSampling.rCheckNewMessage, if_pos hnew]
      rw [hcheck]
      exact ⟨⟨hpos.next, hpos.next, hpos.write, hpos.write_next, hpos.write_next⟩,
        hstored.take rfl rfl rfl rfl rfl, hsender.congr rfl rfl, trivial⟩
    · have hcheck : s.channel.rCheckNewMessage.1 = s.channel := by
        rw [ChannelSampling.rCheckNewMessage, if_neg hnew]
      rw [hcheck]
      exact ⟨hpos, hstored.take (not_not.mp hnew) rfl rfl rfl rfl, hsender, trivial⟩
  | rClear =>
    obtain rfl := Option.some.inj h
    exact ⟨⟨hpos.read, hpos.next, hpos.write, hpos.write_read, hpos.write_next⟩, hstored.rClear,
      hsender.congr rfl rfl, trivial⟩
  | sGet _ | sFill | sSend _ | sClear => cases h

theorem boot_inv (channel : ChannelSampling) : (boot channel).Inv := by
  refine ⟨⟨?_, ?_, ?_, ?_, ?_⟩, ⟨nofun, fun _ => ?_, nofun, fun _ => rfl⟩,
    trivial, trivial⟩
  all_goals simp [boot, ChannelSampling.init]

theorem step_inv {e : SamplingInput} (hs : s.Inv) (h : s.step e = some t) : t.Inv := by
  cases e with
  | sGet _ | sFill | sSend _ | sClear =>
    simp only [step] at h
    exact hs.senderStep h
  | rGet | rSize | rTimestamp | rCopy | rReturn | rCheck | rClear =>
    simp only [step] at h
    exact hs.receiverStep h

/-- The slot that is being filled. -/
def fillSlot (s : SamplingSystem) : Option Nat :=
  match s.sender with
  | .idle => none
  | .filling slot _ _ => some slot

/-- The slot that is being copied. -/
def copySlot (s : SamplingSystem) : Option Nat :=
  match s.receiver with
  | .got slot | .sized slot _ | .copying slot _ _ _ => some slot
  | _ => none

theorem Inv.slots_ne {p q : Nat} (hs : s.Inv) (hfill : s.fillSlot = some p)
    (hcopy : s.copySlot = some q) : p ≠ q := by
  have hp : p = s.channel.writePos := by
    have hsender := hs.sender
    rw [fillSlot] at hfill
    cases hcase : s.sender with
    | idle =>
      rw [hcase] at hfill
      cases hfill
    | filling slot message filled =>
      rw [hcase] at hfill hsender
      exact (Option.some.inj hfill).symm.trans hsender.1
  have hq : q = s.channel.readPos := by
    have hreceiver := hs.receiver
    rw [copySlot] at hcopy
    cases hcase : s.receiver with
    | idle | returned _ =>
      rw [hcase] at hcopy
      cases hcopy
    | got _ | sized _ _ | copying _ _ _ _ =>
      rw [hcase] at hcopy hreceiver
      exact (Option.some.inj hcopy).symm.trans hreceiver.1
  rw [hp, hq]
  exact hs.positions.write_read

/-- However writer and reader interleave, they are never at the same slot, and a read returns the
latest message that it must return. -/
theorem triple_buffering (channel : ChannelSampling) {es : List SamplingInput}
    (h : Run.exec step (boot channel) es = some t) :
    (t.channel.readPos ≤ 2 ∧ t.channel.readPosNext ≤ 2 ∧ t.channel.writePos ≤ 2 ∧
      t.channel.writePos ≠ t.channel.readPos ∧ t.channel.writePos ≠ t.channel.readPosNext) ∧
    (∀ p q, t.fillSlot = some p → t.copySlot = some q → p ≠ q) ∧
    ∀ result, t.receiver = .returned result → result = t.due.latest := by
  have ht : t.Inv := Run.invariant (fun _ _ _ hs h => step_inv hs h) (boot_inv channel) h
  have hpos := ht.positions
  refine ⟨⟨hpos.read, hpos.next, hpos.write, hpos.write_read, hpos.write_next⟩,
    fun p q => ht.slots_ne, fun result hr => ?_⟩
  have hreceiver := ht.receiver
  rw [hr] at hreceiver
  exact hreceiver

def blankChannel : ChannelSampling := ⟨fun _ _ => 0, fun _ => 0, fun _ => 0, 0, 0, 0⟩

def sendByte (byte : UInt8) (now : Int) : List SamplingInput := [.sGet [byte], .sFill, .sSend now]

/-- A message is sent and read while the next one is filled. -/
def sendAndRead : List SamplingInput :=
  sendByte 1 10 ++ [.rGet, .sGet [2], .rSize, .sFill, .rTimestamp, .rCopy, .sSend 20, .rReturn]

theorem triple_buffering_sendAndRead :
    ∃ t, Run.exec step (boot blankChannel) sendAndRead = some t ∧
      t.receiver = .returned (some ⟨[1], 10⟩) ∧ t.due.latest = some ⟨[1], 10⟩ := by
  have hview : (Run.exec step (boot blankChannel) sendAndRead).map (·.receiver) =
      some (.returned (some ⟨[1], 10⟩)) := by
    decide +kernel
  obtain ⟨t, ht, hv⟩ := Option.map_eq_some_iff.mp hview
  exact ⟨t, ht, hv, ((triple_buffering blankChannel ht).2.2 _ hv).symm⟩

/-- Both messages have been taken and the second one is withdrawn by the receiver. -/
def clearSecond : List SamplingInput :=
  sendByte 1 10 ++ [.rCheck] ++ sendByte 2 20 ++ [.rCheck, .rClear, .rGet, .rSize]

/-- The first message, which nobody has withdrawn, is not returned. -/
theorem triple_buffering_clearSecond_fails :
    ∃ t, Run.exec step (boot blankChannel) clearSecond = some t ∧ t.receiver = .returned none ∧
      t.due.mostRecent = some ⟨[1], 10⟩ := by
  have hview : (Run.exec step (boot blankChannel) clearSecond).map
      (fun t => (t.receiver, t.due.mostRecent)) = some (.returned none, some ⟨[1], 10⟩) := by
    decide +kernel
  obtain ⟨t, ht, hv⟩ := Option.map_eq_some_iff.mp hview
  obtain ⟨hreceiver, hdue⟩ := Prod.mk.inj hv
  exact ⟨t, ht, hreceiver, hdue⟩

end SamplingSystem

end Chpok
