import Chpok.Kernel.ChannelSystem
import Mathlib.Order.Basic

/-! How many messages each side of a queuing channel holds. Each operation moves the
three ring positions in one of a few ways, listed by its spec lemma; the invariants
are read off from these. -/

namespace Chpok

namespace ChannelQueuing

variable {c d : ChannelQueuing} {g size : Nat} {subscribe : Bool}

/-- The deployed capacities and the recorded generations agree. -/
structure SameConfig (d c : ChannelQueuing) : Prop where
  max : d.maxNbMessage = c.maxNbMessage
  recvMax : d.recv.maxNbMessage = c.recv.maxNbMessage
  sendMax : d.send.maxNbMessage = c.send.maxNbMessage
  recvGeneration : d.recv.generation = c.recv.generation
  sendGeneration : d.send.generation = c.send.generation

/-- The ring positions agree as well. -/
structure SamePlaces (d c : ChannelQueuing) : Prop extends d.SameConfig c where
  border : d.border = c.border
  recvNext : d.recv.nextMessage = c.recv.nextMessage
  sendNext : d.send.nextMessage = c.send.nextMessage

theorem Sized.of_same (hs : c.Sized) (h : d.SameConfig c) : d.Sized := by
  refine ⟨?_, ?_, ?_, ?_⟩
  · simpa only [h.recvMax] using hs.recv_pos
  · simpa only [h.sendMax] using hs.send_pos
  · simpa only [h.max, h.recvMax, h.sendMax] using hs.total
  · simpa only [h.max] using hs.small

theorem InRing.of_same (hr : c.InRing) (h : d.SamePlaces c) : d.InRing := by
  refine ⟨?_, ?_, ?_⟩
  · simpa only [h.max, h.border] using hr.border
  · simpa only [h.max, h.sendNext] using hr.send
  · simpa only [h.max, h.recvNext] using hr.recv

theorem SamePlaces.sNMessages (h : d.SamePlaces c) : d.sNMessages = c.sNMessages := by
  simp only [ChannelQueuing.sNMessages, cyclicSub, h.max, h.border, h.sendNext]

theorem SamePlaces.rNMessages (h : d.SamePlaces c) : d.rNMessages = c.rNMessages := by
  simp only [ChannelQueuing.rNMessages, cyclicSub, h.max, h.border, h.recvNext]

theorem SamePlaces.refl (c : ChannelQueuing) : c.SamePlaces c :=
  ⟨⟨rfl, rfl, rfl, rfl, rfl⟩, rfl, rfl, rfl⟩

theorem rGetMessage_cases {r : ChannelQueuing × Option (Nat × Nat)}
    (h : c.rGetMessage subscribe = some r) :
    (r.1 = c ∨ r.1 = { c with recv := { c.recv with isNotify := true } }) ∧
      r.2 = if c.recv.nextMessage ≠ c.border
        then some (c.recv.nextMessage, c.messageSizes c.recv.nextMessage) else none := by
  unfold rGetMessage at h
  split_ifs at h with hne hsub
  · obtain ⟨pos, hpos, rfl⟩ := Option.map_eq_some_iff.mp h
    unfold messageAt at hpos
    split_ifs at hpos
    obtain rfl := Option.some.inj hpos
    exact ⟨.inl rfl, (if_pos hne).symm⟩
  · obtain rfl := Option.some.inj h
    exact ⟨.inr rfl, (if_neg hne).symm⟩
  · obtain rfl := Option.some.inj h
    exact ⟨.inl rfl, (if_neg hne).symm⟩

theorem sGetMessage_cases {r : ChannelQueuing × Option Nat}
    (h : c.sGetMessage subscribe = some r) :
    (r.1 = c ∨ r.1 = { c with send := { c.send with isNotify := true } }) ∧
      r.2 = if c.sNMessages < c.send.maxNbMessage then some c.send.nextMessage else none := by
  unfold sGetMessage at h
  split_ifs at h with hroom hsub
  · obtain ⟨pos, hpos, rfl⟩ := Option.map_eq_some_iff.mp h
    unfold messageAt at hpos
    split_ifs at hpos
    obtain rfl := Option.some.inj hpos
    exact ⟨.inl rfl, (if_pos hroom).symm⟩
  · obtain rfl := Option.some.inj h
    exact ⟨.inr rfl, (if_neg hroom).symm⟩
  · obtain rfl := Option.some.inj h
    exact ⟨.inl rfl, (if_neg hroom).symm⟩

theorem rGetMessage_places {r : ChannelQueuing × Option (Nat × Nat)}
    (h : c.rGetMessage subscribe = some r) : r.1.SamePlaces c := by
  rcases (rGetMessage_cases h).1 with he | he
  · exact he ▸ .refl c
  · exact he ▸ ⟨⟨rfl, rfl, rfl, rfl, rfl⟩, rfl, rfl, rfl⟩

theorem sGetMessage_places {r : ChannelQueuing × Option Nat}
    (h : c.sGetMessage subscribe = some r) : r.1.SamePlaces c := by
  rcases (sGetMessage_cases h).1 with he | he
  · exact he ▸ .refl c
  · exact he ▸ ⟨⟨rfl, rfl, rfl, rfl, rfl⟩, rfl, rfl, rfl⟩

theorem fill_places (c : ChannelQueuing) (pos : Nat) (bytes : List UInt8) :
    (c.fill pos bytes).SamePlaces c :=
  ⟨⟨rfl, rfl, rfl, rfl, rfl⟩, rfl, rfl, rfl⟩

/-- A slot is handed out only while the sender's buffer has room, and it is the one
behind its last message. -/
theorem sGetMessage_slot {r : ChannelQueuing × Option Nat} {slot : Nat}
    (h : c.sGetMessage subscribe = some r) (hslot : r.2 = some slot) :
    c.sNMessages < c.send.maxNbMessage ∧ slot = c.send.nextMessage := by
  rw [(sGetMessage_cases h).2] at hslot
  split_ifs at hslot with hroom
  exact ⟨hroom, (Option.some.inj hslot).symm⟩

theorem sideNotify_fields (side : ChannelQueuingSide) (ty : PartitionEventType) :
    (sideNotify side ty).1.maxNbMessage = side.maxNbMessage ∧
    (sideNotify side ty).1.nextMessage = side.nextMessage ∧
    (sideNotify side ty).1.generation = side.generation ∧
    (sideNotify side ty).1.handlerId = side.handlerId := by
  unfold sideNotify
  split_ifs <;> simp

theorem cyclicAdd_one (hs : c.Sized) {p : Nat} (hp : p < c.maxNbMessage) :
    c.cyclicAdd p 1 = RingIndex.add c.maxNbMessage p 1 ∧
      RingIndex.add c.maxNbMessage p 1 < c.maxNbMessage := by
  have h1 := hs.small
  have h2 := hs.total
  have h3 := hs.recv_pos
  exact ⟨cyclicAdd_eq (by omega), RingIndex.add_lt hp (by omega)⟩

theorem rAdvance_spec (hs : c.Sized) (hr : c.InRing) (hne : c.recv.nextMessage ≠ c.border) :
    c.rAdvance.SameConfig c ∧ c.rAdvance.InRing ∧ c.rAdvance.rNMessages + 1 = c.rNMessages := by
  obtain ⟨hadd, hlt⟩ := cyclicAdd_one hs hr.recv
  refine ⟨?cfg, ?ring,
    (congrArg (· + 1) (rNMessages_eq (hs.of_same ?cfg) ?ring)).trans ?_⟩
  case cfg => exact ⟨rfl, rfl, rfl, rfl, rfl⟩
  case ring => exact ⟨hr.border, hr.send, hadd.trans_lt hlt⟩
  simpa only [rAdvance, hadd, rNMessages_eq hs hr] using
    RingIndex.sub_add_start hr.border hr.recv hne.symm

theorem rRefill_spec (hs : c.Sized) (hr : c.InRing) (g : Nat) :
    (c.rRefill g).1.SameConfig c ∧ (c.rRefill g).1.InRing ∧
    (g = c.send.generation ∧ (c.rRefill g).1.sNMessages + 1 = c.sNMessages ∧
        (c.rNMessages + 1 < c.maxNbMessage →
          (c.rRefill g).1.rNMessages = c.rNMessages + 1) ∨
      (g ≠ c.send.generation ∨ c.sNMessages = 0) ∧ c.rRefill g = (c, none)) := by
  have hrN := rNMessages_eq hs hr
  have hsN := sNMessages_eq hs hr
  obtain ⟨hadd, hlt⟩ := cyclicAdd_one hs hr.border
  unfold rRefill
  split_ifs with hmove
  · obtain ⟨hf, hfn, hfg, -⟩ := sideNotify_fields c.send .portSendAvailable
    refine ⟨?cfg, ?ring, .inl ⟨hmove.1,
      (congrArg (· + 1) (sNMessages_eq (hs.of_same ?cfg) ?ring)).trans ?_,
      fun h => (rNMessages_eq (hs.of_same ?cfg) ?ring).trans ?_⟩⟩
    case cfg => exact ⟨rfl, rfl, hf, rfl, hfg⟩
    case ring => exact ⟨hadd.trans_lt hlt, hfn ▸ hr.send, hr.recv⟩
    · simpa only [hsN, hadd, hfn] using RingIndex.sub_add_start hr.send hr.border hmove.2.symm
    · rw [hrN] at h ⊢
      simpa only [hadd] using RingIndex.sub_add_stop hr.border hr.recv h
  · refine ⟨⟨rfl, rfl, rfl, rfl, rfl⟩, hr, .inr ⟨?_, rfl⟩⟩
    by_cases hg : g = c.send.generation
    · have he : c.border = c.send.nextMessage := by
        by_contra hne
        exact hmove ⟨hg, hne⟩
      right
      simp [hsN, he]
    · exact .inl hg

theorem rConsumeMessage_spec (hs : c.Sized) (hr : c.InRing)
    {r : ChannelQueuing × Bool × Option PartitionEvent}
    (h : c.rConsumeMessage g = some r) :
    r.1.SameConfig c ∧ r.1.InRing ∧
    (g = c.send.generation ∧ r.1.rNMessages = c.rNMessages ∧
        r.1.sNMessages + 1 = c.sNMessages ∨
      (g ≠ c.send.generation ∨ c.sNMessages = 0) ∧ r.1.rNMessages + 1 = c.rNMessages ∧
        r.1.sNMessages = c.sNMessages) := by
  unfold rConsumeMessage at h
  split_ifs at h with hempty
  obtain rfl := Option.some.inj h
  obtain ⟨hacfg, haring, hcount⟩ := rAdvance_spec hs hr hempty
  obtain ⟨hcfg, hring, hcases⟩ := rRefill_spec (hs.of_same hacfg) haring g
  refine ⟨⟨hcfg.max, hcfg.recvMax, hcfg.sendMax, hcfg.recvGeneration, hcfg.sendGeneration⟩,
    ⟨hring.border, hring.send, hring.recv⟩, ?_⟩
  rcases hcases with ⟨hg, hsend, hrecv⟩ | ⟨hno, he⟩
  · have hlim := RingIndex.sub_lt (q := c.recv.nextMessage) hr.border hr.recv
    rw [← rNMessages_eq hs hr, ← hcount] at hlim
    exact .inl ⟨hg, (hrecv hlim).trans hcount, hsend⟩
  · rw [he]
    exact .inr ⟨hno, hcount, rfl⟩

theorem sTransmit_spec (hs : c.Sized) (hr : c.InRing) (g : Nat) :
    (c.sTransmit g).1.SameConfig c ∧ (c.sTransmit g).1.InRing ∧
    (g ≠ c.recv.generation ∧ (c.sTransmit g).1.sNMessages = 0 ∨
      g = c.recv.generation ∧ c.rNMessages < c.recv.maxNbMessage ∧
        (c.sTransmit g).1.sNMessages = 0 ∧
        (c.sNMessages + c.rNMessages < c.maxNbMessage →
          (c.sTransmit g).1.rNMessages = c.sNMessages + c.rNMessages) ∨
      g = c.recv.generation ∧ c.recv.maxNbMessage ≤ c.rNMessages ∧
        (c.sTransmit g).1.rNMessages = c.rNMessages ∧
        ((c.sTransmit g).1.sNMessages = 0 ∨ (c.sTransmit g).1.sNMessages = c.sNMessages)) := by
  have hrN := rNMessages_eq hs hr
  have hsN := sNMessages_eq hs hr
  unfold sTransmit
  split_ifs with hconn hfree hdiscard
  · obtain ⟨hf, hfn, hfg, -⟩ := sideNotify_fields c.recv .portReceiveAvailable
    refine ⟨?cfg, ?ring, .inr (.inl ⟨hconn, hfree,
      (sNMessages_eq (hs.of_same ?cfg) ?ring).trans RingIndex.sub_self,
      fun h => (rNMessages_eq (hs.of_same ?cfg) ?ring).trans ?_⟩)⟩
    case cfg => exact ⟨rfl, hf, rfl, hfg, rfl⟩
    case ring => exact ⟨hr.send, hr.send, hfn ▸ hr.recv⟩
    rw [hsN, hrN] at h ⊢
    simp only [hfn, RingIndex.sub_trans hr.send hr.border hr.recv h]
  · refine ⟨?cfg, ?ring, .inr (.inr ⟨hconn, Nat.le_of_not_lt hfree, rfl,
      .inl ((sNMessages_eq (hs.of_same ?cfg) ?ring).trans RingIndex.sub_self)⟩)⟩
    case cfg => exact ⟨rfl, rfl, rfl, rfl, rfl⟩
    case ring => exact ⟨hr.border, hr.border, hr.recv⟩
  · exact ⟨⟨rfl, rfl, rfl, rfl, rfl⟩, hr,
      .inr (.inr ⟨hconn, Nat.le_of_not_lt hfree, rfl, .inr rfl⟩)⟩
  · refine ⟨?cfg, ?ring, .inl ⟨hconn,
      (sNMessages_eq (hs.of_same ?cfg) ?ring).trans RingIndex.sub_self⟩⟩
    case cfg => exact ⟨rfl, rfl, rfl, rfl, rfl⟩
    case ring => exact ⟨hr.send, hr.send, hr.recv⟩

theorem sProduceMessage_spec (hs : c.Sized) (hr : c.InRing)
    {r : ChannelQueuing × Option PartitionEvent} (h : c.sProduceMessage g size = some r) :
    r.1.SameConfig c ∧ r.1.InRing ∧ c.sNMessages < c.send.maxNbMessage ∧
    (g ≠ c.recv.generation ∧ r.1.sNMessages = 0 ∨
      g = c.recv.generation ∧ c.rNMessages < c.recv.maxNbMessage ∧ r.1.sNMessages = 0 ∧
        r.1.rNMessages = c.sNMessages + 1 + c.rNMessages ∨
      g = c.recv.generation ∧ c.recv.maxNbMessage ≤ c.rNMessages ∧
        r.1.rNMessages = c.rNMessages ∧
        (r.1.sNMessages = 0 ∨ r.1.sNMessages = c.sNMessages + 1)) := by
  have htot := hs.total
  obtain ⟨hadd, hlt⟩ := cyclicAdd_one hs hr.send
  unfold sProduceMessage at h
  split_ifs at h with hassert
  have hroom : c.sNMessages < c.send.maxNbMessage := hassert.1
  have hrp := hs.recv_pos
  have hstop := RingIndex.sub_add_stop hr.send hr.border (by rw [← sNMessages_eq hs hr]; omega)
  obtain rfl := Option.some.inj h
  have hdcfg : (c.sStore size).SameConfig c := ⟨rfl, rfl, rfl, rfl, rfl⟩
  have hds := hs.of_same hdcfg
  have hdr : (c.sStore size).InRing := ⟨hr.border, hadd.trans_lt hlt, hr.recv⟩
  have hdsN : (c.sStore size).sNMessages = c.sNMessages + 1 := by
    rw [sNMessages_eq hds hdr, sNMessages_eq hs hr]
    simpa only [sStore, hadd] using hstop
  have hdrN : (c.sStore size).rNMessages = c.rNMessages := rfl
  obtain ⟨hcfg, hring, hcases⟩ := sTransmit_spec hds hdr g
  rw [hdsN, hdrN] at hcases
  refine ⟨⟨hcfg.max, hcfg.recvMax, hcfg.sendMax, hcfg.recvGeneration, hcfg.sendGeneration⟩,
    hring, hroom, ?_⟩
  rcases hcases with hdrop | ⟨hconn, hfree, hzero, hmoved⟩ | hfull
  · exact .inl hdrop
  · have hfree' : c.rNMessages < c.recv.maxNbMessage := hfree
    have hsum : c.sNMessages + 1 + c.rNMessages < c.maxNbMessage := by omega
    exact .inr (.inl ⟨hconn, hfree, hzero, hmoved hsum⟩)
  · exact .inr (.inr hfull)

theorem sideInit_recv_spec (hr : c.InRing) (g handlerId : Nat) :
    (c.sideInit .recv g handlerId).InRing ∧
    (c.sideInit .recv g handlerId).rNMessages = 0 ∧
    (c.sideInit .recv g handlerId).sNMessages = c.sNMessages := by
  refine ⟨⟨hr.border, hr.send, hr.border⟩, ?_, rfl⟩
  simp [sideInit, rNMessages, cyclicSub]

theorem sideInit_send_spec (hr : c.InRing) (g handlerId : Nat) :
    (c.sideInit .send g handlerId).InRing ∧
    (c.sideInit .send g handlerId).sNMessages = 0 ∧
    (c.sideInit .send g handlerId).rNMessages = c.rNMessages := by
  refine ⟨⟨hr.border, hr.border, hr.recv⟩, ?_, rfl⟩
  simp [sideInit, sNMessages, cyclicSub]

theorem send_slot_fresh (hs : c.Sized) (hr : c.InRing)
    (hroom : c.sNMessages < c.send.maxNbMessage) (hle : c.rNMessages ≤ c.recv.maxNbMessage)
    {i : Nat} (hi : i < c.rNMessages) :
    c.send.nextMessage ≠ RingIndex.add c.maxNbMessage c.recv.nextMessage i := by
  have htot := hs.total
  have hsum : c.sNMessages + c.rNMessages < c.maxNbMessage := by omega
  rw [sNMessages_eq hs hr, rNMessages_eq hs hr] at hsum
  have hdist := RingIndex.sub_trans hr.send hr.border hr.recv hsum
  rw [← sNMessages_eq hs hr, ← rNMessages_eq hs hr] at hdist
  intro he
  have hsub := RingIndex.sub_add (k := i) hr.recv (by omega)
  rw [← he] at hsub
  omega

end ChannelQueuing

namespace ChannelSystem

open ChannelQueuing

variable {s t : ChannelSystem}

/-- What is kept by every input whatsoever. -/
structure WithinRing (s : ChannelSystem) : Prop where
  sized : s.channel.Sized
  inRing : s.channel.InRing
  send_le : s.channel.sNMessages ≤ s.channel.send.maxNbMessage

/-- Capacities of both sides, ring positions, and the coupling of the two buffers. -/
structure Occupancy (s : ChannelSystem) : Prop where
  recv_le : s.channel.rNMessages ≤ s.channel.recv.maxNbMessage
  send_le : s.channel.sNMessages ≤ s.channel.send.maxNbMessage
  inRing : s.channel.InRing
  full : s.Connected .recv → s.Connected .send → 0 < s.channel.sNMessages →
    s.channel.rNMessages = s.channel.recv.maxNbMessage
  fresh : ∀ subscribe r slot, s.channel.sGetMessage subscribe = some r → r.2 = some slot →
    ∀ i < s.channel.rNMessages,
      slot ≠ RingIndex.add s.channel.maxNbMessage s.channel.recv.nextMessage i

/-- The receiver side starts while no message is pending at a connected sender, and no
restart brings the 32-bit generation counter round to the value a side has recorded. -/
def StartsClean (s : ChannelSystem) : ChannelInput → Prop
  | .create .recv _ | .clear _ => s.Connected .send → s.channel.sNMessages = 0
  | .restart .send => nextGeneration s.sendGeneration ≠ s.channel.send.generation
  | .restart .recv => nextGeneration s.recvGeneration ≠ s.channel.recv.generation
  | _ => True

/-- A side is connected exactly while its port is created, and a connected receiver
leaves nothing pending at the sender that it has room for. -/
structure Coupled (s : ChannelSystem) : Prop where
  ring : s.WithinRing
  send_created : s.sendCreated = true ↔ s.Connected .send
  recv_created : s.recvCreated = true ↔ s.Connected .recv
  recv_le : s.Connected .recv → s.channel.rNMessages ≤ s.channel.recv.maxNbMessage
  full : s.Connected .recv → s.Connected .send → 0 < s.channel.sNMessages →
    s.channel.rNMessages = s.channel.recv.maxNbMessage

theorem WithinRing.of_channel {c : ChannelQueuing} (h : s.WithinRing)
    (hc : t.channel = c) (hcfg : c.SameConfig s.channel) (hring : c.InRing)
    (hle : c.sNMessages ≤ s.channel.send.maxNbMessage) : t.WithinRing := by
  subst hc
  exact ⟨h.sized.of_same hcfg, hring, hcfg.sendMax ▸ hle⟩

theorem boot_withinRing {c : ChannelQueuing} (hR : 1 ≤ c.recv.maxNbMessage)
    (hS : 1 ≤ c.send.maxNbMessage) (hRS : c.recv.maxNbMessage + c.send.maxNbMessage < 65536) :
    (boot c).WithinRing := by
  have htotal : c.init.maxNbMessage = c.recv.maxNbMessage + c.send.maxNbMessage :=
    Nat.mod_eq_of_lt hRS
  have hpos : 0 < c.init.maxNbMessage := by omega
  refine ⟨⟨hR, hS, htotal, htotal.trans_lt hRS⟩, ⟨hpos, hpos, hpos⟩, ?_⟩
  simp [boot, init, sNMessages, cyclicSub]

theorem boot_coupled {c : ChannelQueuing} (hR : 1 ≤ c.recv.maxNbMessage)
    (hS : 1 ≤ c.send.maxNbMessage) (hRS : c.recv.maxNbMessage + c.send.maxNbMessage < 65536) :
    (boot c).Coupled := by
  refine ⟨boot_withinRing hR hS hRS, ?_, ?_, ?_, ?_⟩
  · simp [boot, Connected, init, nextGeneration]
  · simp [boot, Connected, init, nextGeneration]
  · simp [boot, init, rNMessages, cyclicSub]
  · simp [boot, init, sNMessages, cyclicSub]

/-- What one accepted input does to the channel. -/
theorem next_cases {e : ChannelInput} (h : s.next e = some t) :
    (∃ c, c.SamePlaces s.channel ∧ t = { s with channel := c }) ∨
    (∃ size r, s.sendCreated = true ∧ s.channel.sProduceMessage s.recvGeneration size = some r ∧
      t = { s with channel := r.1 }) ∨
    (∃ r, s.recvCreated = true ∧ s.channel.rConsumeMessage s.sendGeneration = some r ∧
      t = { s with channel := r.1 }) ∨
    (∃ i, e = .create .send i ∧
      t = { s with channel := s.channel.sideInit .send s.sendGeneration i, sendCreated := true }) ∨
    (∃ i, (e = .create .recv i ∨ e = .clear i) ∧
      t = { s with channel := s.channel.sideInit .recv s.recvGeneration i, recvCreated := true }) ∨
    (e = .restart .send ∧
      t = { s with sendGeneration := nextGeneration s.sendGeneration, sendCreated := false }) ∨
    (e = .restart .recv ∧
      t = { s with recvGeneration := nextGeneration s.recvGeneration, recvCreated := false }) := by
  obtain ⟨o, ho⟩ := next_eq_some.mp h
  cases e with
  | sGetMessage subscribe =>
    simp only [step] at ho
    split_ifs at ho
    obtain ⟨r, hr, he⟩ := Option.map_eq_some_iff.mp ho
    obtain ⟨rfl, -⟩ := Prod.mk.inj he
    exact .inl ⟨r.1, sGetMessage_places hr, rfl⟩
  | sFill bytes =>
    simp only [step] at ho
    split_ifs at ho
    obtain ⟨r, -, hf⟩ := Option.bind_eq_some_iff.mp ho
    obtain ⟨slot, -, he⟩ := Option.map_eq_some_iff.mp hf
    obtain ⟨rfl, -⟩ := Prod.mk.inj he
    exact .inl ⟨_, fill_places _ _ _, rfl⟩
  | sProduceMessage size =>
    simp only [step] at ho
    split_ifs at ho with hc
    obtain ⟨r, hr, he⟩ := Option.map_eq_some_iff.mp ho
    obtain ⟨rfl, -⟩ := Prod.mk.inj he
    exact .inr (.inl ⟨size, r, hc, hr, rfl⟩)
  | rGetMessage subscribe =>
    simp only [step] at ho
    split_ifs at ho
    obtain ⟨r, hr, he⟩ := Option.map_eq_some_iff.mp ho
    obtain ⟨rfl, -⟩ := Prod.mk.inj he
    exact .inl ⟨r.1, rGetMessage_places hr, rfl⟩
  | rConsumeMessage =>
    simp only [step] at ho
    split_ifs at ho with hc
    obtain ⟨r, hr, he⟩ := Option.map_eq_some_iff.mp ho
    obtain ⟨rfl, -⟩ := Prod.mk.inj he
    exact .inr (.inr (.inl ⟨r, hc, hr, rfl⟩))
  | create side i =>
    cases side with
    | send =>
      simp only [step] at ho
      split_ifs at ho
      obtain ⟨rfl, -⟩ := Prod.mk.inj (Option.some.inj ho)
      exact .inr (.inr (.inr (.inl ⟨i, rfl, rfl⟩)))
    | recv =>
      simp only [step] at ho
      split_ifs at ho
      obtain ⟨rfl, -⟩ := Prod.mk.inj (Option.some.inj ho)
      exact .inr (.inr (.inr (.inr (.inl ⟨i, .inl rfl, rfl⟩))))
  | clear i =>
    simp only [step] at ho
    split_ifs at ho with hc
    obtain ⟨rfl, -⟩ := Prod.mk.inj (Option.some.inj ho)
    exact .inr (.inr (.inr (.inr (.inl ⟨i, .inr rfl, by simp only [hc]⟩))))
  | restart side =>
    cases side with
    | send =>
      obtain ⟨rfl, -⟩ := Prod.mk.inj (Option.some.inj ho)
      exact .inr (.inr (.inr (.inr (.inr (.inl ⟨rfl, rfl⟩)))))
    | recv =>
      obtain ⟨rfl, -⟩ := Prod.mk.inj (Option.some.inj ho)
      exact .inr (.inr (.inr (.inr (.inr (.inr ⟨rfl, rfl⟩)))))

theorem next_withinRing {e : ChannelInput} (hs : s.WithinRing) (h : s.next e = some t) :
    t.WithinRing := by
  have hle := hs.send_le
  rcases next_cases h with ⟨c, hc, rfl⟩ | ⟨size, r, -, hp, rfl⟩ | ⟨r, -, hp, rfl⟩ |
    ⟨i, -, rfl⟩ | ⟨i, -, rfl⟩ | ⟨-, rfl⟩ | ⟨-, rfl⟩
  · exact hs.of_channel rfl hc.toSameConfig (hs.inRing.of_same hc) (hc.sNMessages ▸ hle)
  · obtain ⟨hcfg, hring, hroom, hcases⟩ := sProduceMessage_spec hs.sized hs.inRing hp
    have hle' : r.1.sNMessages ≤ s.channel.send.maxNbMessage := by omega
    exact hs.of_channel rfl hcfg hring hle'
  · obtain ⟨hcfg, hring, hcases⟩ := rConsumeMessage_spec hs.sized hs.inRing hp
    have hle' : r.1.sNMessages ≤ s.channel.send.maxNbMessage := by omega
    exact hs.of_channel rfl hcfg hring hle'
  · obtain ⟨hring, hzero, -⟩ := sideInit_send_spec hs.inRing s.sendGeneration i
    exact ⟨⟨hs.sized.recv_pos, hs.sized.send_pos, hs.sized.total, hs.sized.small⟩, hring,
      hzero.trans_le (Nat.zero_le _)⟩
  · obtain ⟨hring, -, hsame⟩ := sideInit_recv_spec hs.inRing s.recvGeneration i
    exact ⟨⟨hs.sized.recv_pos, hs.sized.send_pos, hs.sized.total, hs.sized.small⟩, hring,
      hsame.trans_le hle⟩
  · exact ⟨hs.sized, hs.inRing, hle⟩
  · exact ⟨hs.sized, hs.inRing, hle⟩

theorem next_coupled {e : ChannelInput} (hs : s.Coupled) (hok : s.StartsClean e)
    (h : s.next e = some t) : t.Coupled := by
  have hring' := next_withinRing hs.ring h
  have hsized := hs.ring.sized
  have hring := hs.ring.inRing
  have hsc := hs.send_created
  have hrc := hs.recv_created
  have hle := hs.recv_le
  have hfull := hs.full
  rcases next_cases h with ⟨c, hc, rfl⟩ | ⟨size, r, hcr, hp, rfl⟩ | ⟨r, hcr, hp, rfl⟩ |
    ⟨i, -, rfl⟩ | ⟨i, he, rfl⟩ | ⟨rfl, rfl⟩ | ⟨rfl, rfl⟩
  · simp only [Connected] at *
    refine ⟨hring', ?_, ?_, ?_, ?_⟩ <;>
      simpa only [Connected, hc.sendGeneration, hc.recvGeneration, hc.rNMessages, hc.sNMessages,
        hc.recvMax]
  · obtain ⟨hcfg, -, hroom, hcases⟩ := sProduceMessage_spec hsized hring hp
    simp only [Connected] at *
    refine ⟨hring', ?_, ?_, ?_, ?_⟩ <;>
      simp only [Connected, hcfg.sendGeneration, hcfg.recvGeneration, hcfg.recvMax]
    · exact hsc
    · exact hrc
    · intro hconn
      have := hle hconn
      have := hfull hconn (hsc.mp hcr)
      omega
    · intro hconn _ hpos
      have := hle hconn
      have := hfull hconn (hsc.mp hcr)
      omega
  · obtain ⟨hcfg, -, hcases⟩ := rConsumeMessage_spec hsized hring hp
    simp only [Connected] at *
    refine ⟨hring', ?_, ?_, ?_, ?_⟩ <;>
      simp only [Connected, hcfg.sendGeneration, hcfg.recvGeneration, hcfg.recvMax]
    · exact hsc
    · exact hrc
    · intro hconn
      have := hle hconn
      omega
    · intro hconn hsconn hpos
      have := hfull hconn hsconn
      rcases hcases with ⟨-, hr, hss⟩ | ⟨hno | hzero, -, hss⟩
      · rw [hr]
        exact this (by omega)
      · exact absurd hsconn hno
      · omega
  · obtain ⟨-, hzero, hsame⟩ := sideInit_send_spec hring s.sendGeneration i
    refine ⟨hring', ?_, hrc, hle, ?_⟩
    · simp [Connected, sideInit]
    · intro _ _ hpos
      exact absurd hzero (by simpa using Nat.ne_of_gt hpos)
  · obtain ⟨-, hzero, hsame⟩ := sideInit_recv_spec hring s.recvGeneration i
    refine ⟨hring', hsc, ?_, ?_, ?_⟩
    · simp [Connected, sideInit]
    · intro _
      exact hzero.trans_le (Nat.zero_le _)
    · intro _ hsconn hpos
      have hclean : s.channel.sNMessages = 0 := by
        rcases he with rfl | rfl
        · exact hok hsconn
        · exact hok hsconn
      exact absurd (hsame.trans hclean) (by simpa using Nat.ne_of_gt hpos)
  · have hne : nextGeneration s.sendGeneration ≠ s.channel.send.generation := hok
    refine ⟨hring', ?_, hrc, hle, ?_⟩
    · simpa [Connected] using hne
    · intro _ hsconn
      exact absurd hsconn hne
  · have hne : nextGeneration s.recvGeneration ≠ s.channel.recv.generation := hok
    refine ⟨hring', hsc, ?_, ?_, ?_⟩
    · simpa [Connected] using hne
    · intro hconn
      exact absurd hconn hne
    · intro hconn
      exact absurd hconn hne

theorem Coupled.occupancy (h : s.Coupled) (hconn : s.Connected .recv) : s.Occupancy := by
  refine ⟨h.recv_le hconn, h.ring.send_le, h.ring.inRing, h.full, ?_⟩
  intro subscribe r slot hget hslot i hi
  obtain ⟨hroom, rfl⟩ := sGetMessage_slot hget hslot
  exact send_slot_fresh h.ring.sized h.ring.inRing hroom (h.recv_le hconn) hi

/-- The deployed capacities, which no operation changes. -/
structure Deployed (s : ChannelSystem) (R S : Nat) : Prop where
  recvMax : s.channel.recv.maxNbMessage = R
  sendMax : s.channel.send.maxNbMessage = S
  total : s.channel.maxNbMessage = R + S

theorem Deployed.of_channel {R S : Nat} {c : ChannelQueuing} (h : s.Deployed R S)
    (hc : t.channel = c) (hcfg : c.SameConfig s.channel) : t.Deployed R S := by
  subst hc
  exact ⟨hcfg.recvMax.trans h.recvMax, hcfg.sendMax.trans h.sendMax, hcfg.max.trans h.total⟩

theorem next_deployed {R S : Nat} {e : ChannelInput} (hs : s.WithinRing ∧ s.Deployed R S)
    (h : s.next e = some t) : t.WithinRing ∧ t.Deployed R S := by
  obtain ⟨hring, hd⟩ := hs
  refine ⟨next_withinRing hring h, ?_⟩
  rcases next_cases h with ⟨c, hc, rfl⟩ | ⟨size, r, -, hp, rfl⟩ | ⟨r, -, hp, rfl⟩ |
    ⟨i, -, rfl⟩ | ⟨i, -, rfl⟩ | ⟨-, rfl⟩ | ⟨-, rfl⟩
  · exact hd.of_channel rfl hc.toSameConfig
  · exact hd.of_channel rfl (sProduceMessage_spec hring.sized hring.inRing hp).1
  · exact hd.of_channel rfl (rConsumeMessage_spec hring.sized hring.inRing hp).1
  all_goals exact ⟨hd.recvMax, hd.sendMax, hd.total⟩

/-- The ring positions and the sender's buffer stay within their bounds in every run,
and in every run with clean starts a connected receiver's buffer does too. -/
theorem channel_occupancy {c : ChannelQueuing} {R S : Nat} (hR : 1 ≤ R) (hS : 1 ≤ S)
    (hRS : R + S < 65536) (hrecv : c.recv.maxNbMessage = R) (hsend : c.send.maxNbMessage = S)
    {es : List ChannelInput} (h : Run.exec next (boot c) es = some t) :
    t.Deployed R S ∧ t.channel.InRing ∧ t.channel.sNMessages ≤ S ∧
      (Run.Meets next StartsClean (boot c) es → t.Connected .recv → t.Occupancy) := by
  subst hrecv hsend
  have hboot : (boot c).Deployed c.recv.maxNbMessage c.send.maxNbMessage :=
    ⟨rfl, rfl, Nat.mod_eq_of_lt hRS⟩
  obtain ⟨hring, hd⟩ : t.WithinRing ∧ t.Deployed _ _ :=
    Run.invariant (fun _ _ _ hs he => next_deployed hs he)
      ⟨boot_withinRing hR hS hRS, hboot⟩ h
  refine ⟨hd, hring.inRing, hd.sendMax ▸ hring.send_le, fun hok hconn => ?_⟩
  have hcoupled : t.Coupled :=
    Run.invariant_of_meets (fun _ _ _ hs hc he => next_coupled hs hc he)
      (boot_coupled hR hS hRS) hok h
  exact hcoupled.occupancy hconn

/-- A channel with one slot for the receiver, two for the sender and messages of up to
four bytes. -/
def oneAndTwo : ChannelQueuing where
  maxMessageSize := 4
  send := ⟨2, 0, 0, false, 0⟩
  recv := ⟨1, 0, 0, false, 0⟩
  maxNbMessage := 0
  messages := fun _ _ => 0
  messageSizes := fun _ => 0
  border := 0
  overflowStrategy := .senderBlock
  messageDiscarded := false

theorem channel_occupancy_oneAndTwo :
    ∃ t, Run.exec next (boot oneAndTwo)
        [.create .send 0, .create .recv 0, .sProduceMessage 4, .sProduceMessage 4] = some t ∧
      t.Connected .recv ∧ t.channel.sNMessages = 1 ∧ t.Occupancy := by
  refine ⟨_, rfl, rfl, rfl, ?_⟩
  refine (channel_occupancy (R := 1) (S := 2) (by decide) (by decide) (by decide) rfl rfl
    (show Run.exec next (boot oneAndTwo)
      [.create .send 0, .create .recv 0, .sProduceMessage 4, .sProduceMessage 4] = some _
      from rfl)).2.2.2 ?_ rfl
  refine ⟨trivial, fun t ht => ⟨?_, fun t ht => ⟨trivial, fun t ht => ⟨trivial, ?_⟩⟩⟩⟩
  · obtain rfl := Option.some.inj ht
    exact fun _ => rfl
  · exact fun _ _ => trivial

/-- Before the receiver's port exists the sender's messages pile up beyond its capacity.
A receiver cleared while a message is pending gets more than it can hold, and the sender
is then handed the slot of an unread message. -/
theorem channel_occupancy_fails :
    (∃ t, Run.exec next (boot oneAndTwo)
        [.create .send 0, .sProduceMessage 4, .sProduceMessage 4] = some t ∧
      ¬ t.Occupancy) ∧
    (∃ t, Run.exec next (boot oneAndTwo)
        [.create .send 0, .create .recv 0, .sProduceMessage 4, .sProduceMessage 4, .clear 0,
          .sProduceMessage 4, .sProduceMessage 4] = some t ∧
      t.Connected .send ∧ t.Connected .recv ∧ t.channel.rNMessages = 2 ∧
      (t.channel.sGetMessage false).map Prod.snd = some (some t.channel.recv.nextMessage) ∧
      ¬ t.Occupancy) := by
  refine ⟨⟨_, rfl, fun h => ?_⟩, ⟨_, rfl, rfl, rfl, rfl, rfl, fun h => ?_⟩⟩
  · exact absurd h.recv_le (by decide)
  · exact absurd h.recv_le (by decide)

end ChannelSystem

end Chpok
