import Chpok.Kernel.ChannelOccupancy
import Chpok.Library.StagedFifo

/-! A queuing channel with both ports created refines two bounded queues in series.
The receiver's queue is read off the slots up to the border, the sender's off the
slots behind it. -/

namespace Chpok

namespace ChannelQueuing

variable {c d : ChannelQueuing} {g size pos : Nat} {bytes : List UInt8}

/-- The message in a slot, cut to its recorded size. -/
def messageIn (c : ChannelQueuing) (pos : Nat) : List UInt8 :=
  c.content pos (c.messageSizes pos)

def received (c : ChannelQueuing) : List (List UInt8) :=
  RingIndex.segment c.maxNbMessage c.messageIn c.recv.nextMessage c.rNMessages

def pending (c : ChannelQueuing) : List (List UInt8) :=
  RingIndex.segment c.maxNbMessage c.messageIn c.border c.sNMessages

@[simp] theorem received_length : c.received.length = c.rNMessages := RingIndex.segment_length

@[simp] theorem pending_length : c.pending.length = c.sNMessages := RingIndex.segment_length

/-- Neither buffer is overfull, and nothing is pending that the receiver has room for. -/
structure Filled (c : ChannelQueuing) : Prop where
  sized : c.Sized
  inRing : c.InRing
  recv_le : c.rNMessages ≤ c.recv.maxNbMessage
  send_le : c.sNMessages ≤ c.send.maxNbMessage
  full : 0 < c.sNMessages → c.rNMessages = c.recv.maxNbMessage

theorem Filled.border_eq (h : c.Filled) :
    c.border = RingIndex.add c.maxNbMessage c.recv.nextMessage c.rNMessages := by
  rw [rNMessages_eq h.sized h.inRing, RingIndex.add_sub h.inRing.border h.inRing.recv]

theorem Filled.send_eq (h : c.Filled) :
    c.send.nextMessage = RingIndex.add c.maxNbMessage c.border c.sNMessages := by
  rw [sNMessages_eq h.sized h.inRing, RingIndex.add_sub h.inRing.send h.inRing.border]

theorem Filled.write_send (h : c.Filled) (hroom : c.sNMessages < c.send.maxNbMessage)
    (x : List UInt8) :
    RingIndex.segment c.maxNbMessage (Function.update c.messageIn c.send.nextMessage x)
        c.recv.nextMessage c.rNMessages = c.received ∧
      RingIndex.segment c.maxNbMessage (Function.update c.messageIn c.send.nextMessage x)
        c.border c.sNMessages = c.pending := by
  have htot := h.sized.total
  have hrp := h.sized.recv_pos
  have hrl := h.recv_le
  constructor
  · rw [h.send_eq, h.border_eq, RingIndex.add_add h.inRing.recv (by omega)]
    exact RingIndex.segment_update (by omega) (Nat.le_add_right _ _) x
  · rw [h.send_eq]
    exact RingIndex.segment_update (by omega) (Nat.le_refl _) x

theorem messageIn_fill (c : ChannelQueuing) (pos : Nat) (bytes : List UInt8) :
    ∃ x, (c.fill pos bytes).messageIn = Function.update c.messageIn pos x := by
  refine ⟨(c.fill pos bytes).messageIn pos, funext fun p => ?_⟩
  by_cases hp : p = pos
  · subst hp
    simp
  · simp [messageIn, content, fill, Function.update, hp]

theorem messageIn_sStore :
    (c.sStore size).messageIn =
      Function.update c.messageIn c.send.nextMessage (c.content c.send.nextMessage size) := by
  funext p
  by_cases hp : p = c.send.nextMessage
  · subst hp
    simp [messageIn, content, sStore]
  · simp [messageIn, content, sStore, Function.update, hp]

theorem SamePlaces.filled (h : d.SamePlaces c) (hf : c.Filled) : d.Filled := by
  refine ⟨hf.sized.of_same h.toSameConfig, hf.inRing.of_same h, ?_, ?_, ?_⟩
  · simpa only [h.rNMessages, h.recvMax] using hf.recv_le
  · simpa only [h.sNMessages, h.sendMax] using hf.send_le
  · simpa only [h.sNMessages, h.rNMessages, h.recvMax] using hf.full

theorem Filled.fill (h : c.Filled) (hroom : c.sNMessages < c.send.maxNbMessage)
    (bytes : List UInt8) :
    (c.fill c.send.nextMessage bytes).received = c.received ∧
      (c.fill c.send.nextMessage bytes).pending = c.pending := by
  obtain ⟨x, hx⟩ := messageIn_fill c c.send.nextMessage bytes
  obtain ⟨hr, hp⟩ := h.write_send hroom x
  exact ⟨(congrArg (RingIndex.segment c.maxNbMessage · c.recv.nextMessage c.rNMessages) hx).trans hr,
    (congrArg (RingIndex.segment c.maxNbMessage · c.border c.sNMessages) hx).trans hp⟩

theorem rAdvance_queues (hs : c.Sized) (hr : c.InRing) (hne : c.recv.nextMessage ≠ c.border) :
    c.received = c.messageIn c.recv.nextMessage :: c.rAdvance.received ∧
      c.rAdvance.pending = c.pending := by
  obtain ⟨-, -, hcount⟩ := rAdvance_spec hs hr hne
  have hlt := RingIndex.sub_lt (q := c.recv.nextMessage) hr.border hr.recv
  rw [← rNMessages_eq hs hr] at hlt
  refine ⟨?_, rfl⟩
  rw [received, ← hcount, RingIndex.segment_cons hr.recv (by omega), ← (cyclicAdd_one hs hr.recv).1]
  rfl

theorem rRefill_queues (hs : c.Sized) (hr : c.InRing) (hg : g = c.send.generation)
    (hroom : c.rNMessages + 1 < c.maxNbMessage) :
    (c.pending = [] ∧ c.rRefill g = (c, none)) ∨
      ∃ moved back, c.pending = moved :: back ∧
        (c.rRefill g).1.received = c.received ++ [moved] ∧ (c.rRefill g).1.pending = back := by
  have hborder : RingIndex.add c.maxNbMessage c.recv.nextMessage c.rNMessages = c.border := by
    rw [rNMessages_eq hs hr, RingIndex.add_sub hr.border hr.recv]
  have hlt := RingIndex.sub_lt (q := c.border) hr.send hr.border
  rw [← sNMessages_eq hs hr] at hlt
  obtain ⟨hcfg, hring, ⟨-, hs', hr'⟩ | ⟨hno, he⟩⟩ := rRefill_spec hs hr g
  · obtain ⟨hadd, -⟩ := cyclicAdd_one hs hr.border
    have hne : c.border ≠ c.send.nextMessage := fun he => by
      have : c.sNMessages = 0 := by rw [sNMessages_eq hs hr, he, RingIndex.sub_self]
      omega
    have hmove : c.rRefill g =
        ({ c with
           border := c.cyclicAdd c.border 1
           send := (sideNotify c.send .portSendAvailable).1 },
          (sideNotify c.send .portSendAvailable).2) := if_pos ⟨hg, hne⟩
    refine .inr ⟨c.messageIn c.border, (c.rRefill g).1.pending, ?_, ?_, rfl⟩
    · rw [pending, ← hs', RingIndex.segment_cons hr.border (by omega), pending, hcfg.max, ← hadd, hmove]
      rfl
    · rw [received, hr' hroom, hcfg.max, hmove]
      exact (RingIndex.segment_snoc hr.recv (by omega)).trans (by rw [hborder]; rfl)
  · have hzero : c.sNMessages = 0 := hno.resolve_left (not_not_intro hg)
    exact .inl ⟨by rw [pending, hzero, RingIndex.segment_zero], he⟩

theorem rConsumeMessage_queues (h : c.Filled) (hg : g = c.send.generation)
    {r : ChannelQueuing × Bool × Option PartitionEvent} (hc : c.rConsumeMessage g = some r) :
    r.1.Filled ∧ r.1.messageDiscarded = false ∧ r.2.1 = c.messageDiscarded ∧
      ∃ front, c.received = c.messageIn c.recv.nextMessage :: front ∧
        (c.pending = [] ∧ r.1.received = front ∧ r.1.pending = [] ∨
          ∃ moved back, c.pending = moved :: back ∧
            r.1.received = front ++ [moved] ∧ r.1.pending = back) := by
  obtain ⟨hcfg, hring, hcases⟩ := rConsumeMessage_spec h.sized h.inRing hc
  have hfilled : r.1.Filled := by
    have hle := h.recv_le
    have hsl := h.send_le
    have hfull := h.full
    refine ⟨h.sized.of_same hcfg, hring, ?_, ?_, ?_⟩
    · rw [hcfg.recvMax]
      omega
    · rw [hcfg.sendMax]
      omega
    · rw [hcfg.recvMax]
      intro hpos
      rcases hcases with ⟨-, hr, hs⟩ | ⟨hno | hzero, -, hs⟩
      · exact hr.trans (hfull (by omega))
      · exact absurd hg hno
      · omega
  unfold rConsumeMessage at hc
  split_ifs at hc with hempty
  obtain rfl := Option.some.inj hc
  refine ⟨hfilled, rfl, rfl, c.rAdvance.received, ?_⟩
  obtain ⟨hacfg, haring, hcount⟩ := rAdvance_spec h.sized h.inRing hempty
  obtain ⟨hhead, hpend⟩ := rAdvance_queues h.sized h.inRing hempty
  have hlt := RingIndex.sub_lt (q := c.recv.nextMessage) h.inRing.border h.inRing.recv
  rw [← rNMessages_eq h.sized h.inRing, ← hcount, ← hacfg.max] at hlt
  refine ⟨hhead, ?_⟩
  rcases rRefill_queues (h.sized.of_same hacfg) haring hg hlt with
    ⟨hnil, he⟩ | ⟨moved, back, hcons, hrecv, hback⟩
  · refine .inl ⟨hpend ▸ hnil, ?_, ?_⟩
    · rw [he]
      rfl
    · rw [he]
      exact hnil
  · exact .inr ⟨moved, back, hpend ▸ hcons, hrecv, hback⟩

theorem rConsumeMessage_keeps {r : ChannelQueuing × Bool × Option PartitionEvent}
    (hc : c.rConsumeMessage g = some r) :
    r.1.messages = c.messages ∧ r.1.send.nextMessage = c.send.nextMessage ∧
      r.1.overflowStrategy = c.overflowStrategy := by
  unfold rConsumeMessage at hc
  split_ifs at hc
  obtain rfl := Option.some.inj hc
  obtain ⟨-, hnext, -⟩ := sideNotify_fields c.send .portSendAvailable
  unfold rRefill
  split_ifs
  · exact ⟨rfl, hnext, rfl⟩
  · exact ⟨rfl, rfl, rfl⟩

theorem sProduceMessage_keeps {r : ChannelQueuing × Option PartitionEvent}
    (hp : c.sProduceMessage g size = some r) :
    0 < size ∧ r.1.overflowStrategy = c.overflowStrategy := by
  unfold sProduceMessage at hp
  split_ifs at hp with hassert
  obtain rfl := Option.some.inj hp
  refine ⟨hassert.2.1, ?_⟩
  unfold sTransmit
  split_ifs <;> rfl

theorem sStore_queues (h : c.Filled) (hroom : c.sNMessages < c.send.maxNbMessage)
    (size : Nat) :
    (c.sStore size).received = c.received ∧
      (c.sStore size).pending = c.pending ++ [c.content c.send.nextMessage size] := by
  have htot := h.sized.total
  have hrp := h.sized.recv_pos
  obtain ⟨hr, hp⟩ := h.write_send hroom (c.content c.send.nextMessage size)
  obtain ⟨hadd, hlt⟩ := cyclicAdd_one h.sized h.inRing.send
  have hcount : (c.sStore size).sNMessages = c.sNMessages + 1 := by
    have hring : (c.sStore size).InRing :=
      ⟨h.inRing.border, hadd.trans_lt hlt, h.inRing.recv⟩
    have hsized : (c.sStore size).Sized :=
      ⟨h.sized.recv_pos, h.sized.send_pos, h.sized.total, h.sized.small⟩
    rw [sNMessages_eq hsized hring, sNMessages_eq h.sized h.inRing]
    have hstop := RingIndex.sub_add_stop h.inRing.send h.inRing.border
      (by rw [← sNMessages_eq h.sized h.inRing]; omega)
    simpa only [sStore, hadd] using hstop
  constructor
  · rw [received, messageIn_sStore]
    exact hr
  · rw [pending, hcount, messageIn_sStore]
    refine (RingIndex.segment_snoc h.inRing.border (by omega)).trans ?_
    rw [← h.send_eq, Function.update_self]
    exact congrArg (· ++ _) hp

theorem cyclicAdd_send_ne (h : c.Filled) :
    c.cyclicAdd c.send.nextMessage 1 ≠ c.send.nextMessage := by
  have htot := h.sized.total
  have hrp := h.sized.recv_pos
  have hsp := h.sized.send_pos
  rw [(cyclicAdd_one h.sized h.inRing.send).1]
  intro he
  have hback := RingIndex.sub_add (k := 1) h.inRing.send (by omega)
  rw [he, RingIndex.sub_self] at hback
  omega

/-- The stored message passes to a receiver that has room. -/
theorem received_sTransmit (h : c.Filled) (hg : g = c.recv.generation)
    (hfree : c.rNMessages < c.recv.maxNbMessage)
    (hcount : ((c.sStore size).sTransmit g).1.rNMessages = c.rNMessages + 1) :
    ((c.sStore size).sTransmit g).1.received =
      c.received ++ [c.content c.send.nextMessage size] := by
  have htot := h.sized.total
  have hnone : c.sNMessages = 0 := by
    have hfull := h.full
    omega
  obtain ⟨hrecv, -⟩ := sStore_queues h (by rw [hnone]; exact h.sized.send_pos) size
  have hslot : RingIndex.add c.maxNbMessage c.recv.nextMessage c.rNMessages =
      c.send.nextMessage := by
    rw [← h.border_eq, h.send_eq, hnone, RingIndex.add_zero h.inRing.border]
  have hmove : (c.sStore size).sTransmit g =
      ({ c.sStore size with
         border := (c.sStore size).send.nextMessage
         recv := (sideNotify c.recv .portReceiveAvailable).1 },
        (sideNotify c.recv .portReceiveAvailable).2) :=
    (if_pos hg).trans (if_pos hfree)
  obtain ⟨-, hnext, -⟩ := sideNotify_fields c.recv .portReceiveAvailable
  rw [received, hcount, hmove]
  simp only [hnext]
  refine (RingIndex.segment_snoc h.inRing.recv (by omega)).trans ?_
  rw [hslot]
  exact congrArg₂ (· ++ [·]) hrecv
    ((congrFun messageIn_sStore _).trans (Function.update_self ..))

theorem sProduceMessage_queues (h : c.Filled) (hg : g = c.recv.generation)
    (hkeep : c.overflowStrategy = .receiverDiscard → c.sNMessages = 0)
    {r : ChannelQueuing × Option PartitionEvent} (hp : c.sProduceMessage g size = some r) :
    r.1.Filled ∧ c.sNMessages < c.send.maxNbMessage ∧
      (r.1.overflowStrategy = .receiverDiscard → r.1.sNMessages = 0) ∧
      (c.rNMessages < c.recv.maxNbMessage ∧
          r.1.received = c.received ++ [c.content c.send.nextMessage size] ∧
          r.1.pending = c.pending ∧ r.1.messageDiscarded = c.messageDiscarded ∧
          r.1.send.nextMessage ≠ c.send.nextMessage ∨
        c.recv.maxNbMessage ≤ c.rNMessages ∧ c.overflowStrategy ≠ .receiverDiscard ∧
          r.1.received = c.received ∧
          r.1.pending = c.pending ++ [c.content c.send.nextMessage size] ∧
          r.1.messageDiscarded = c.messageDiscarded ∧
          r.1.send.nextMessage ≠ c.send.nextMessage ∨
        c.recv.maxNbMessage ≤ c.rNMessages ∧ c.overflowStrategy = .receiverDiscard ∧
          r.1.received = c.received ∧ r.1.pending = c.pending ∧
          r.1.messageDiscarded = true ∧ r.1.send.nextMessage = c.send.nextMessage) := by
  obtain ⟨hcfg, hring, hroom, hcases⟩ := sProduceMessage_spec h.sized h.inRing hp
  obtain ⟨hrecv, hpend⟩ := sStore_queues h hroom size
  have hle := h.recv_le
  have hfull := h.full
  have hmoves := cyclicAdd_send_ne h
  have hfilled : r.1.Filled := by
    refine ⟨h.sized.of_same hcfg, hring, ?_, ?_, ?_⟩
    · rw [hcfg.recvMax]
      omega
    · rw [hcfg.sendMax]
      omega
    · rw [hcfg.recvMax]
      omega
  refine ⟨hfilled, hroom, ?_⟩
  unfold sProduceMessage at hp
  split_ifs at hp
  obtain rfl := Option.some.inj hp
  by_cases hfree : c.rNMessages < c.recv.maxNbMessage
  · have hnone : c.sNMessages = 0 := by omega
    have hmove : (c.sStore size).sTransmit g =
        ({ c.sStore size with
           border := (c.sStore size).send.nextMessage
           recv := (sideNotify c.recv .portReceiveAvailable).1 },
          (sideNotify c.recv .portReceiveAvailable).2) :=
      (if_pos hg).trans (if_pos hfree)
    have hzero : ((c.sStore size).sTransmit g).1.sNMessages = 0 := by
      rcases hcases with ⟨hno, -⟩ | ⟨-, -, hz, -⟩ | ⟨-, hge, -⟩
      · exact absurd hg hno
      · exact hz
      · omega
    have hcount : ((c.sStore size).sTransmit g).1.rNMessages = c.rNMessages + 1 := by
      omega
    refine ⟨fun _ => hzero, .inl ⟨hfree, received_sTransmit h hg hfree hcount, ?_, ?_, ?_⟩⟩
    · rw [pending, hzero, pending, hnone, RingIndex.segment_zero, RingIndex.segment_zero]
    · rw [hmove]
      rfl
    · rw [hmove]
      exact hmoves
  · have hge := Nat.le_of_not_lt hfree
    by_cases hdrop : c.overflowStrategy = .receiverDiscard
    · have hnone := hkeep hdrop
      have hmove : (c.sStore size).sTransmit g =
          ({ c.sStore size with
             send := { (c.sStore size).send with nextMessage := c.border }
             messageDiscarded := true }, none) :=
        (if_pos hg).trans ((if_neg hfree).trans (if_pos hdrop))
      have hslot : c.border = c.send.nextMessage := by
        rw [h.send_eq, hnone, RingIndex.add_zero h.inRing.border]
      have hzero : ((c.sStore size).sTransmit g).1.sNMessages = 0 := by
        rw [hmove]
        simp [sNMessages, cyclicSub, sStore]
      refine ⟨fun _ => hzero, .inr (.inr ⟨hge, hdrop, ?_, ?_, ?_, ?_⟩)⟩
      · rw [hmove]
        exact hrecv
      · rw [pending, hzero, pending, hnone, RingIndex.segment_zero, RingIndex.segment_zero]
      · rw [hmove]
      · rw [hmove]
        exact hslot
    · have hstay : (c.sStore size).sTransmit g = (c.sStore size, none) :=
        (if_pos hg).trans ((if_neg hfree).trans (if_neg hdrop))
      rw [hstay]
      exact ⟨fun hd => absurd hd hdrop, .inr (.inl ⟨hge, hdrop, hrecv, hpend, rfl, hmoves⟩)⟩

end ChannelQueuing

/-- The calls by which the two ports move messages. -/
def ChannelInput.IsTransfer : ChannelInput → Prop
  | .sGetMessage _ | .sFill _ | .sProduceMessage _ | .rGetMessage _ | .rConsumeMessage => True
  | .create _ _ | .clear _ | .restart _ => False

namespace ChannelOutput

open StagedFifo (Act)

def act : ChannelOutput → Option (Act (List UInt8))
  | .produced message dropped => some (.produced message dropped)
  | .consumed message discarded => some (.consumed message discarded)
  | _ => none

def acts (outs : List ChannelOutput) : List (Act (List UInt8)) := outs.filterMap act

/-- The messages kept and not yet consumed, oldest first. -/
def unread (outs : List ChannelOutput) : List (List UInt8) :=
  ((acts outs).filterMap Act.kept).drop ((acts outs).filterMap Act.removed).length

/-- The bytes last copied into the slot of the message being prepared. -/
def prepared (outs : List ChannelOutput) : Option (List UInt8) :=
  outs.foldl (fun bytes o => match o with
    | .filled new => some new
    | .produced _ _ => none
    | _ => bytes) none

/-- What a caller sees agrees with what happened before it. -/
def Fits (R S : Nat) (before : List ChannelOutput) : ChannelOutput → Prop
  | .sSlot slot => slot = none ↔ R + S ≤ (unread before).length
  | .produced message _ =>
    ∀ bytes, prepared before = some bytes → message.length ≤ bytes.length →
      message = bytes.take message.length
  | .rMessage message => message = (unread before).head?
  | .consumed message discarded =>
    (unread before).head? = some message ∧ discarded = StagedFifo.droppedSince (acts before)
  | .filled _ | .done => True

theorem prepared_snoc (outs : List ChannelOutput) (o : ChannelOutput) :
    prepared (outs ++ [o]) = match o with
      | .filled new => some new
      | .produced _ _ => none
      | _ => prepared outs := by
  simp only [prepared, List.foldl_append, List.foldl_cons, List.foldl_nil]

theorem acts_snoc (outs : List ChannelOutput) (o : ChannelOutput) :
    acts (outs ++ [o]) = acts outs ++ o.act.toList := by
  cases h : o.act <;> simp [acts, h]

end ChannelOutput

namespace ChannelSystem

open ChannelQueuing StagedFifo ChannelOutput

variable {s t : ChannelSystem} {R S : Nat} {strategy : OverflowStrategy}

/-- Both ports are created on a channel whose slots spell out the two queues. -/
structure Refines (R S : Nat) (strategy : OverflowStrategy) (s : ChannelSystem)
    (q : State (List UInt8)) : Prop where
  filled : s.channel.Filled
  deployed : s.Deployed R S
  overflowStrategy : s.channel.overflowStrategy = strategy
  sendConnected : s.Connected .send
  recvConnected : s.Connected .recv
  keeps : strategy = .receiverDiscard → s.channel.sNMessages = 0
  front : q.front = s.channel.received
  back : q.back = s.channel.pending
  discarded : q.discarded = s.channel.messageDiscarded

/-- The outputs so far are those of the two queues, and the slot of the next message
holds the bytes prepared for it. -/
structure Follows (R S : Nat) (strategy : OverflowStrategy) (s : ChannelSystem)
    (outs : List ChannelOutput) (q : State (List UInt8)) : Prop where
  trace : Trace R S (strategy == .receiverDiscard) (acts outs) q
  refines : s.Refines R S strategy q
  slot : ∀ bytes, prepared outs = some bytes → ∀ k ≤ bytes.length,
    s.channel.content s.channel.send.nextMessage k = bytes.take k

theorem Refines.of_places {q : State (List UInt8)} {c : ChannelQueuing}
    (h : s.Refines R S strategy q) (hc : c.SamePlaces s.channel)
    (hrecv : c.received = s.channel.received) (hpend : c.pending = s.channel.pending)
    (hstrategy : c.overflowStrategy = s.channel.overflowStrategy)
    (hdiscarded : c.messageDiscarded = s.channel.messageDiscarded) :
    Refines R S strategy { s with channel := c } q where
  filled := hc.filled h.filled
  deployed := h.deployed.of_channel rfl hc.toSameConfig
  overflowStrategy := hstrategy.trans h.overflowStrategy
  sendConnected := h.sendConnected.trans hc.sendGeneration.symm
  recvConnected := h.recvConnected.trans hc.recvGeneration.symm
  keeps := fun hd => hc.sNMessages.trans (h.keeps hd)
  front := h.front.trans hrecv.symm
  back := h.back.trans hpend.symm
  discarded := h.discarded.trans hdiscarded.symm

variable {outs : List ChannelOutput} {q : State (List UInt8)}

theorem Follows.unread_eq (h : s.Follows R S strategy outs q) :
    unread outs = s.channel.received ++ s.channel.pending := by
  rw [unread, ← h.trace.conserved, List.drop_left, h.refines.front, h.refines.back]

theorem Follows.unread_head (h : s.Follows R S strategy outs q) :
    (unread outs).head? = if s.channel.recv.nextMessage ≠ s.channel.border
      then some (s.channel.messageIn s.channel.recv.nextMessage) else none := by
  have hf := h.refines.filled
  have hle := hf.recv_le
  have htot := hf.sized.total
  have hempty : s.channel.rNMessages = 0 ↔ s.channel.border = s.channel.recv.nextMessage := by
    rw [rNMessages_eq hf.sized hf.inRing, RingIndex.sub_eq_zero hf.inRing.recv]
  rw [h.unread_eq, List.head?_append, received, RingIndex.segment_head? hf.inRing.recv (by omega)]
  by_cases hzero : s.channel.rNMessages = 0
  · have hnone : s.channel.sNMessages = 0 := by
      have := hf.full
      have := hf.sized.recv_pos
      omega
    rw [if_pos hzero, if_neg (not_not_intro (hempty.mp hzero).symm), pending, hnone]
    rfl
  · rw [if_neg hzero, if_pos fun he => hzero (hempty.mpr he.symm)]
    rfl

theorem Follows.unread_full (h : s.Follows R S strategy outs q) :
    R + S ≤ (unread outs).length ↔ ¬ s.channel.sNMessages < s.channel.send.maxNbMessage := by
  have hf := h.refines.filled
  have hR := h.refines.deployed.recvMax
  have hS := h.refines.deployed.sendMax
  have hle := hf.recv_le
  have hfull := hf.full
  have hpos := hf.sized.send_pos
  rw [h.unread_eq, List.length_append, received_length, pending_length]
  omega

theorem Follows.subscribe {c : ChannelQueuing} (h : s.Follows R S strategy outs q)
    (hc : c = s.channel ∨ c = { s.channel with send := { s.channel.send with isNotify := true } } ∨
      c = { s.channel with recv := { s.channel.recv with isNotify := true } })
    {o : ChannelOutput} (hact : o.act = none) (hprep : prepared (outs ++ [o]) = prepared outs) :
    Follows R S strategy { s with channel := c } (outs ++ [o]) q := by
  refine ⟨?_, ?_, ?_⟩
  · rw [acts_snoc, hact, Option.toList_none, List.append_nil]
    exact h.trace
  · rcases hc with rfl | rfl | rfl
    · exact h.refines
    · exact h.refines.of_places ⟨⟨rfl, rfl, rfl, rfl, rfl⟩, rfl, rfl, rfl⟩ rfl rfl rfl rfl
    · exact h.refines.of_places ⟨⟨rfl, rfl, rfl, rfl, rfl⟩, rfl, rfl, rfl⟩ rfl rfl rfl rfl
  · rw [hprep]
    rcases hc with rfl | rfl | rfl <;> exact h.slot

theorem Follows.sGetMessage {r : ChannelQueuing × Option Nat} {subscribe : Bool}
    (h : s.Follows R S strategy outs q) (hr : s.channel.sGetMessage subscribe = some r) :
    Follows R S strategy { s with channel := r.1 } (outs ++ [.sSlot r.2]) q ∧
      Fits R S outs (.sSlot r.2) := by
  obtain ⟨hc, hslot⟩ := sGetMessage_cases hr
  refine ⟨h.subscribe (hc.imp_right .inl) rfl (prepared_snoc _ _), ?_⟩
  show r.2 = none ↔ _
  rw [h.unread_full, hslot]
  split_ifs with hroom <;> simp [hroom]

theorem Follows.rGetMessage {r : ChannelQueuing × Option (Nat × Nat)} {subscribe : Bool}
    (h : s.Follows R S strategy outs q) (hr : s.channel.rGetMessage subscribe = some r) :
    Follows R S strategy { s with channel := r.1 }
        (outs ++ [.rMessage (r.2.map fun m => s.channel.content m.1 m.2)]) q ∧
      Fits R S outs (.rMessage (r.2.map fun m => s.channel.content m.1 m.2)) := by
  obtain ⟨hc, hmessage⟩ := rGetMessage_cases hr
  refine ⟨h.subscribe (hc.imp_right .inr) rfl (prepared_snoc _ _), ?_⟩
  show _ = (unread outs).head?
  rw [h.unread_head, hmessage]
  split_ifs <;> rfl

theorem Follows.fill {bytes : List UInt8} (h : s.Follows R S strategy outs q)
    (hroom : s.channel.sNMessages < s.channel.send.maxNbMessage) :
    Follows R S strategy
      { s with channel := s.channel.fill s.channel.send.nextMessage bytes }
      (outs ++ [.filled bytes]) q := by
  obtain ⟨hrecv, hpend⟩ := h.refines.filled.fill hroom bytes
  refine ⟨?_, h.refines.of_places (fill_places _ _ _) hrecv hpend rfl rfl, ?_⟩
  · rw [acts_snoc]
    simpa [act] using h.trace
  · intro new hnew k hk
    rw [prepared_snoc] at hnew
    obtain rfl := Option.some.inj hnew
    refine List.ext_getElem (by simp [content, hk]) fun i hi hi' => ?_
    have hlt : i < bytes.length := by
      simp only [List.length_take] at hi'
      omega
    simp [content, ChannelQueuing.fill, List.getElem?_eq_getElem hlt]

theorem Follows.rConsumeMessage {r : ChannelQueuing × Bool × Option PartitionEvent}
    (h : s.Follows R S strategy outs q)
    (hr : s.channel.rConsumeMessage s.sendGeneration = some r) :
    (∃ q', Follows R S strategy { s with channel := r.1 } (outs ++ [.consumed
      (s.channel.messageIn s.channel.recv.nextMessage) r.2.1]) q') ∧
    Fits R S outs (.consumed (s.channel.messageIn s.channel.recv.nextMessage) r.2.1) := by
  have hrefines := h.refines
  obtain ⟨hcfg, -⟩ := rConsumeMessage_spec hrefines.filled.sized hrefines.filled.inRing hr
  obtain ⟨hmem, hnext, hstrategy⟩ := rConsumeMessage_keeps hr
  obtain ⟨hfilled, hcleared, hflag, front, hcons, hcases⟩ :=
    rConsumeMessage_queues hrefines.filled hrefines.sendConnected hr
  have hreported : r.2.1 = q.discarded := hflag.trans hrefines.discarded.symm
  have hrun : ∀ q', Step R S (strategy == .receiverDiscard) q
      (.consumed (s.channel.messageIn s.channel.recv.nextMessage) r.2.1) q' →
      q'.front = r.1.received → q'.back = r.1.pending → q'.discarded = false →
      Follows R S strategy { s with channel := r.1 } (outs ++ [.consumed
        (s.channel.messageIn s.channel.recv.nextMessage) r.2.1]) q' := by
    intro q' hstep hfront hback hd
    refine ⟨?_, ⟨hfilled, hrefines.deployed.of_channel rfl hcfg,
      hstrategy.trans hrefines.overflowStrategy,
      hrefines.sendConnected.trans hcfg.sendGeneration.symm,
      hrefines.recvConnected.trans hcfg.recvGeneration.symm, ?_, hfront, hback,
      hd.trans hcleared.symm⟩, ?_⟩
    · rw [acts_snoc]
      exact h.trace.snoc hstep
    · intro hdiscard
      have hzero := hrefines.keeps hdiscard
      have hnil : s.channel.pending = [] := by
        rw [pending, hzero, RingIndex.segment_zero]
      have hnil' : r.1.pending = [] := by
        rcases hcases with ⟨-, -, hp⟩ | ⟨moved, back, hp, -, -⟩
        · exact hp
        · rw [hnil] at hp
          exact absurd hp (by simp)
      rw [← pending_length, hnil']
      rfl
    · intro bytes hb k hk
      rw [prepared_snoc] at hb
      rw [← h.slot bytes hb k hk]
      simp only [content, hmem, hnext]
  obtain ⟨qf, qb, qd⟩ := q
  obtain rfl : qf = _ := hrefines.front.trans hcons
  obtain rfl : qb = _ := hrefines.back
  obtain rfl : r.2.1 = qd := hreported
  constructor
  · rcases hcases with ⟨hnil, hrecv, hpend⟩ | ⟨moved, back, hp, hrecv, hpend⟩
    · refine ⟨⟨front, [], false⟩, hrun _ ?_ hrecv.symm hpend.symm rfl⟩
      rw [hnil]
      exact .take _
    · refine ⟨⟨front ++ [moved], back, false⟩, hrun _ ?_ hrecv.symm hpend.symm rfl⟩
      rw [hp]
      exact .refill _ _
  · refine ⟨?_, h.trace.discarded_eq⟩
    rw [h.unread_eq, hcons]
    rfl

theorem Follows.sProduceMessage {r : ChannelQueuing × Option PartitionEvent} {size : Nat}
    (h : s.Follows R S strategy outs q)
    (hr : s.channel.sProduceMessage s.recvGeneration size = some r) :
    (∃ q', Follows R S strategy { s with channel := r.1 } (outs ++ [.produced
      (s.channel.content s.channel.send.nextMessage size)
      (r.1.send.nextMessage == s.channel.send.nextMessage)]) q') ∧
    Fits R S outs (.produced (s.channel.content s.channel.send.nextMessage size)
      (r.1.send.nextMessage == s.channel.send.nextMessage)) := by
  have hrefines := h.refines
  obtain ⟨hcfg, -⟩ := sProduceMessage_spec hrefines.filled.sized hrefines.filled.inRing hr
  obtain ⟨-, hstrategy⟩ := sProduceMessage_keeps hr
  obtain ⟨hfilled, hroom, hkeeps, hcases⟩ :=
    sProduceMessage_queues hrefines.filled hrefines.recvConnected
      (fun hd => hrefines.keeps (hrefines.overflowStrategy.symm.trans hd)) hr
  have hrun : ∀ dropped, Step R S (strategy == .receiverDiscard) q
      (.produced (s.channel.content s.channel.send.nextMessage size) dropped)
        ⟨r.1.received, r.1.pending, r.1.messageDiscarded⟩ →
      ∃ q', Follows R S strategy { s with channel := r.1 } (outs ++ [.produced
        (s.channel.content s.channel.send.nextMessage size) dropped]) q' := by
    intro dropped hstep
    refine ⟨⟨r.1.received, r.1.pending, r.1.messageDiscarded⟩, ?_, ⟨hfilled, hrefines.deployed.of_channel rfl hcfg,
      hstrategy.trans hrefines.overflowStrategy,
      hrefines.sendConnected.trans hcfg.sendGeneration.symm,
      hrefines.recvConnected.trans hcfg.recvGeneration.symm,
      fun hdiscard => hkeeps ((hstrategy.trans hrefines.overflowStrategy).trans hdiscard),
      rfl, rfl, rfl⟩, ?_⟩
    · rw [acts_snoc]
      exact h.trace.snoc hstep
    · intro bytes hb
      rw [prepared_snoc] at hb
      cases hb
  have hR := hrefines.deployed.recvMax
  have hS := hrefines.deployed.sendMax
  have hstrat := hrefines.overflowStrategy
  obtain ⟨qf, qb, qd⟩ := q
  obtain rfl : qf = _ := hrefines.front
  obtain rfl : qb = _ := hrefines.back
  obtain rfl : qd = _ := hrefines.discarded
  have hback : s.channel.pending.length < S := by
    rw [pending_length, ← hS]
    exact hroom
  constructor
  · rcases hcases with ⟨hfree, hrecv, hpend, hd, hmoved⟩ |
      ⟨hfull, hblock, hrecv, hpend, hd, hmoved⟩ | ⟨hfull, hdrop, hrecv, hpend, hd, hstay⟩
    · rw [beq_false_of_ne hmoved]
      apply hrun
      rw [hrecv, hpend, hd]
      exact .pass _ hback (by rw [received_length, ← hR]; exact hfree)
    · rw [beq_false_of_ne hmoved]
      apply hrun
      rw [hrecv, hpend, hd]
      exact .hold _ hback (by rw [received_length, ← hR]; exact hfull)
        (beq_false_of_ne (hstrat ▸ hblock))
    · rw [beq_iff_eq.mpr hstay]
      apply hrun
      rw [hrecv, hpend, hd]
      exact .drop _ hback (by rw [received_length, ← hR]; exact hfull)
        (beq_iff_eq.mpr (hstrat ▸ hdrop))
  · intro bytes hb hle
    simp only [content, List.length_map, List.length_range] at hle ⊢
    exact h.slot bytes hb size hle

theorem step_follows {e : ChannelInput} {o : ChannelOutput}
    (h : s.Follows R S strategy outs q) (he : e.IsTransfer) (hst : s.step e = some (t, o)) :
    (∃ q', t.Follows R S strategy (outs ++ [o]) q') ∧ Fits R S outs o := by
  cases e with
  | sGetMessage subscribe =>
    simp only [step] at hst
    split_ifs at hst
    obtain ⟨r, hr, he⟩ := Option.map_eq_some_iff.mp hst
    obtain ⟨rfl, rfl⟩ := Prod.mk.inj he
    exact ⟨⟨q, (h.sGetMessage hr).1⟩, (h.sGetMessage hr).2⟩
  | sFill bytes =>
    simp only [step] at hst
    split_ifs at hst
    obtain ⟨r, hr, hf⟩ := Option.bind_eq_some_iff.mp hst
    obtain ⟨slot, hslot, he⟩ := Option.map_eq_some_iff.mp hf
    obtain ⟨rfl, rfl⟩ := Prod.mk.inj he
    obtain ⟨hroom, rfl⟩ := sGetMessage_slot hr hslot
    exact ⟨⟨q, h.fill hroom⟩, trivial⟩
  | sProduceMessage size =>
    simp only [step] at hst
    split_ifs at hst
    obtain ⟨r, hr, he⟩ := Option.map_eq_some_iff.mp hst
    obtain ⟨rfl, rfl⟩ := Prod.mk.inj he
    exact h.sProduceMessage hr
  | rGetMessage subscribe =>
    simp only [step] at hst
    split_ifs at hst
    obtain ⟨r, hr, he⟩ := Option.map_eq_some_iff.mp hst
    obtain ⟨rfl, rfl⟩ := Prod.mk.inj he
    exact ⟨⟨q, (h.rGetMessage hr).1⟩, (h.rGetMessage hr).2⟩
  | rConsumeMessage =>
    simp only [step] at hst
    split_ifs at hst
    obtain ⟨r, hr, he⟩ := Option.map_eq_some_iff.mp hst
    obtain ⟨rfl, rfl⟩ := Prod.mk.inj he
    exact h.rConsumeMessage hr
  | create side i => exact he.elim
  | clear i => exact he.elim
  | restart side => exact he.elim

/-- The two ports are created, in either order, on the channel that starts as `c`. -/
def Opened (c : ChannelQueuing) (s : ChannelSystem) : Prop :=
  ∃ i j, Run.exec next (boot c) [.create .send i, .create .recv j] = some s ∨
    Run.exec next (boot c) [.create .recv j, .create .send i] = some s

theorem Opened.follows {c : ChannelQueuing} (hR : 1 ≤ c.recv.maxNbMessage)
    (hS : 1 ≤ c.send.maxNbMessage) (hRS : c.recv.maxNbMessage + c.send.maxNbMessage < 65536)
    (h : Opened c s) :
    s.Follows c.recv.maxNbMessage c.send.maxNbMessage c.overflowStrategy [] .empty := by
  have hring := boot_withinRing hR hS hRS
  have htotal : c.init.maxNbMessage = c.recv.maxNbMessage + c.send.maxNbMessage :=
    Nat.mod_eq_of_lt hRS
  have hfollows : ∀ i j, Follows c.recv.maxNbMessage c.send.maxNbMessage c.overflowStrategy
      { boot c with
        channel := ((boot c).channel.sideInit .send (nextGeneration 0) i).sideInit .recv
          (nextGeneration 0) j
        sendCreated := true
        recvCreated := true } [] .empty := by
    intro i j
    obtain ⟨hr1, hs1, -⟩ := sideInit_send_spec hring.inRing (nextGeneration 0) i
    obtain ⟨hr2, hrN, hsN⟩ := sideInit_recv_spec hr1 (nextGeneration 0) j
    rw [hs1] at hsN
    refine ⟨.empty, ⟨⟨⟨hR, hS, htotal, htotal.trans_lt hRS⟩, hr2, ?_, ?_, ?_⟩,
      ⟨rfl, rfl, htotal⟩, rfl, rfl, rfl, fun _ => hsN, ?_, ?_, rfl⟩, ?_⟩
    · exact hrN.trans_le (Nat.zero_le _)
    · exact hsN.trans_le (Nat.zero_le _)
    · exact fun hpos => absurd hsN (Nat.ne_of_gt hpos)
    · rw [received, hrN]
      rfl
    · rw [pending, hsN]
      rfl
    · intro bytes hb
      cases hb
  obtain ⟨i, j, he | he⟩ := h
  · obtain rfl := Option.some.inj he
    exact hfollows i j
  · obtain rfl := Option.some.inj he
    exact hfollows i j

/-- While both ports stay created, the channel behaves as two bounded queues in series. -/
theorem channel_refines_fifo {c : ChannelQueuing} (hR : 1 ≤ c.recv.maxNbMessage)
    (hS : 1 ≤ c.send.maxNbMessage) (hRS : c.recv.maxNbMessage + c.send.maxNbMessage < 65536)
    (hopen : Opened c s) {es : List ChannelInput} (hes : ∀ e ∈ es, e.IsTransfer)
    (h : Run.exec (Run.record step) (s, []) es = some (t, outs)) :
    (∃ q, Trace c.recv.maxNbMessage c.send.maxNbMessage
        (c.overflowStrategy == .receiverDiscard) (acts outs) q ∧
      q.front = t.channel.received ∧ q.back = t.channel.pending ∧
      q.discarded = t.channel.messageDiscarded ∧
      (acts outs).filterMap Act.removed ++ (q.front ++ q.back) =
        (acts outs).filterMap Act.kept) ∧
    (c.overflowStrategy = .senderBlock → (acts outs).filterMap Act.dropped = []) ∧
    ∀ before o after, outs = before ++ o :: after →
      Fits c.recv.maxNbMessage c.send.maxNbMessage before o := by
  have hstep : ∀ s os e t o,
      (∃ q, Follows c.recv.maxNbMessage c.send.maxNbMessage c.overflowStrategy s os q) →
      ChannelInput.IsTransfer e → step s e = some (t, o) →
      (∃ q, Follows c.recv.maxNbMessage c.send.maxNbMessage c.overflowStrategy t (os ++ [o]) q) ∧
        Fits c.recv.maxNbMessage c.send.maxNbMessage os o := by
    rintro s os e t o ⟨q, hq⟩ he hst
    exact step_follows hq he hst
  obtain ⟨⟨q, hq⟩, hfits⟩ :=
    Run.recorded hstep ⟨_, hopen.follows hR hS hRS⟩ (by simp) hes h
  refine ⟨⟨q, hq.trace, hq.refines.front, hq.refines.back, hq.refines.discarded,
    hq.trace.conserved⟩, ?_, hfits⟩
  intro hblock
  have htrace := hq.trace
  rw [hblock] at htrace
  exact htrace.dropped_nil

/-- The second of two messages waits at the sender until the first is consumed. -/
theorem channel_refines_fifo_oneAndTwo :
    ∃ s t outs, Opened oneAndTwo s ∧
      Run.exec (Run.record step) (s, []) [.sFill [1], .sProduceMessage 1, .sFill [2, 3],
        .sProduceMessage 2, .rGetMessage true, .rConsumeMessage] = some (t, outs) ∧
      (acts outs).filterMap Act.kept = [[1], [2, 3]] ∧
      (acts outs).filterMap Act.removed = [[1]] ∧ t.channel.received = [[2, 3]] ∧
      t.channel.pending = [] ∧
      (oneAndTwo.overflowStrategy = .senderBlock → (acts outs).filterMap Act.dropped = []) := by
  refine ⟨_, _, _, ⟨0, 0, .inl rfl⟩, rfl, rfl, rfl, rfl, rfl, ?_⟩
  have hes : ∀ e ∈ [ChannelInput.sFill [1], .sProduceMessage 1, .sFill [2, 3],
      .sProduceMessage 2, .rGetMessage true, .rConsumeMessage], e.IsTransfer := by
    simp [ChannelInput.IsTransfer]
  exact (channel_refines_fifo (c := oneAndTwo) (by decide) (by decide) (by decide)
    ⟨0, 0, .inl rfl⟩ hes rfl).2.1

end ChannelSystem

end Chpok
