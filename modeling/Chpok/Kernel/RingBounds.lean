import Chpok.Kernel.RingSystem
import Chpok.Kernel.PortWakeup
import Chpok.Kernel.EventDelivery

/-! How many events a ring holds. A port has at most one event in the ring of its partition, and
when it has asked for a notification it has none; the timer has at most two. -/

namespace Chpok

namespace PortPoint

/-- The section with local preemption disabled has not yet used the channel of the port. -/
def Rests (id : Nat) : PortPoint → Prop
  | .outside | .timer | .enable => True
  | .consume i | .produce i _ => i ≠ id
  | _ => False

/-- A message is taken from an IN port and sent to an OUT port. -/
def Takes (id : Nat) (direction : Side) : PortPoint → Prop
  | .consume i | .firedConsume i => i = id → direction = .recv
  | .produce i _ | .firedProduce i _ => i = id → direction = .send
  | _ => True

end PortPoint

namespace PortPartition

variable {part : PortPartition} {event : PartitionEvent}

/-- The ports that have events in the ring. -/
def portIds (part : PortPartition) : List Nat :=
  (part.events.filter fun e => e.eventType ≠ .timer).map (·.handlerId)

def timerEvents (part : PortPartition) : Nat :=
  part.events.countP fun e => e.eventType = .timer

theorem events_length : part.events.length = part.portIds.length + part.timerEvents := by
  rw [portIds, timerEvents, List.length_map, ← List.countP_eq_length_filter, Nat.add_comm,
    List.length_eq_countP_add_countP (fun e : PartitionEvent => e.eventType = .timer)]
  simp

/-- What holds of a partition and its ring. -/
structure RingOk (part : PortPartition) : Prop where
  once : part.portIds.Nodup
  named : ∀ id ∈ part.portIds, id < part.ports.length
  flagged : part.events ≠ [] → part.isEvent = true ∨ part.point.Drains
  max : part.eventMax = part.ports.length + 2

theorem length_le_of_lt {ids : List Nat} {n : Nat} (hnodup : ids.Nodup) (hlt : ∀ id ∈ ids, id < n) :
    ids.length ≤ n := by
  have hsub : ids ⊆ List.range n := fun id hid => List.mem_range.mpr (hlt id hid)
  simpa using List.Nodup.length_le_of_subset hnodup hsub

theorem RingOk.ids_length (h : part.RingOk) : part.portIds.length ≤ part.ports.length :=
  length_le_of_lt h.once h.named

theorem RingOk.ids_length_lt (h : part.RingOk) {id : Nat} (hid : id < part.ports.length)
    (hnot : id ∉ part.portIds) : part.portIds.length < part.ports.length := by
  have hlt : ∀ j ∈ id :: part.portIds, j < part.ports.length := by
    intro j hj
    rcases List.mem_cons.mp hj with rfl | hj
    · exact hid
    · exact h.named j hj
  exact length_le_of_lt (List.nodup_cons.mpr ⟨hnot, h.once⟩) hlt

theorem addEvent_isSome (h : part.events.length < part.eventMax) : (part.addEvent event).isSome := by
  rw [addEvent, if_pos h]
  rfl

/-- The timer has its two places. -/
structure TimerOk (part : PortPartition) (timer : Int) (timerSet : Bool) : Prop where
  two : part.timerEvents + (if timer = 0 then 0 else 1) ≤ 2
  one : part.point = .timer → timerSet = false → part.timerEvents + (if timer = 0 then 0 else 1) ≤ 1

end PortPartition

open ChannelQueuing PortPartition

/-- What holds of one port, its partition and its channel. -/
structure PortBound (part : PortPartition) (c : ChannelQueuing) (id : Nat) (port : QueuingPort) :
    Prop where
  idle : port.isCreated = false → port.waiters = []
  linked : port.isCreated = true → (c.sideOf port.direction).generation = part.generation ∧
    (c.sideOf port.direction).handlerId = id
  notified : (c.sideOf port.direction).isNotify = true → id ∉ part.portIds ∧
    (c.sideOf port.direction).handlerId = id
  served : part.point.Serves id → id ∉ part.portIds ∧ (c.sideOf port.direction).isNotify = false
  there : port.isCreated = true → part.normal = true → part.point.Rests id → id ∈ part.portIds →
    c.Available port.direction
  takes : part.point.Takes id port.direction

/-- What holds of a channel. -/
structure ChannelBound (c : ChannelQueuing) : Prop where
  sized : c.Sized
  inRing : c.InRing
  send : c.sNMessages ≤ c.send.maxNbMessage

/-- Each side of a channel has at most one port, in the partition of the side. -/
structure Wired (s : PortSystem) : Prop where
  attached : ∀ (p id : Nat) (port : QueuingPort), (s.partitions p).ports[id]? = some port →
    s.part port.channel port.direction = p
  unique : ∀ (p i j : Nat) (port port' : QueuingPort), (s.partitions p).ports[i]? = some port →
    (s.partitions p).ports[j]? = some port' → port.channel = port'.channel →
    port.direction = port'.direction → i = j

structure Bounded (s : PortSystem) : Prop where
  wired : Wired s
  ring : ∀ p, (s.partitions p).RingOk
  ports : ∀ (p id : Nat) (port : QueuingPort), (s.partitions p).ports[id]? = some port →
    PortBound (s.partitions p) (s.channels port.channel) id port
  channels : ∀ ch, ChannelBound (s.channels ch)
  owned : ∀ ch side, ((s.channels ch).sideOf side).isNotify = true →
    ∃ (id : Nat) (port : QueuingPort), (s.partitions (s.part ch side)).ports[id]? = some port ∧ port.channel = ch ∧
      port.direction = side

/-! Channels -/

namespace ChannelQueuing

variable {c d : ChannelQueuing} {g size : Nat} {subscribe : Bool}

theorem available_recv (hs : c.Sized) (hr : c.InRing) :
    c.Available .recv ↔ 0 < c.rNMessages := by
  rw [rNMessages_eq hs hr, Nat.pos_iff_ne_zero, ne_eq, RingIndex.sub_eq_zero hr.recv]
  exact ⟨fun h he => h he.symm, fun h he => h he.symm⟩

/-- What an operation does for the other side of the channel: it leaves it as it is, or it sends
the notification that has been asked for, and then there is something for that side. -/
structure Tells (c d : ChannelQueuing) (side : Side) (event : Option PartitionEvent) : Prop where
  link : d.SameLink c side
  still : event = none → (d.sideOf side).isNotify = (c.sideOf side).isNotify
  sent : ∀ e, event = some e → (c.sideOf side).isNotify = true ∧ (d.sideOf side).isNotify = false ∧
    e.handlerId = (c.sideOf side).handlerId ∧ e.eventType ≠ .timer ∧ d.Available side

theorem sideNotify_some {s : ChannelQueuingSide} {ty : PartitionEventType} {e : PartitionEvent}
    (h : (sideNotify s ty).2 = some e) : s.isNotify = true ∧ e = ⟨s.handlerId, ty⟩ ∧
      (sideNotify s ty).1.isNotify = false := by
  unfold sideNotify at h ⊢
  split_ifs at h with hn
  · obtain rfl := Option.some.inj h
    simp [hn]

theorem sideNotify_none {s : ChannelQueuingSide} {ty : PartitionEventType}
    (h : (sideNotify s ty).2 = none) : (sideNotify s ty).1 = s := by
  unfold sideNotify at h ⊢
  split_ifs at h with hn
  · rw [if_neg hn]

/-- What an operation makes of the channel and of the side that calls it. -/
structure Moved (c d : ChannelQueuing) (side : Side) : Prop where
  bound : ChannelBound d
  link : d.SameLink c side
  still : (d.sideOf side).isNotify = (c.sideOf side).isNotify

theorem sProduceMessage_bound {r : ChannelQueuing × Option PartitionEvent} (hb : ChannelBound c)
    (h : c.sProduceMessage g size = some r) :
    ChannelBound r.1 ∧ (g = c.recv.generation → c.Available .recv ∨ r.2 ≠ none →
      r.1.Available .recv) := by
  obtain ⟨hcfg, hring, hroom, hcases⟩ := sProduceMessage_spec hb.sized hb.inRing h
  have hsized := hb.sized.of_same hcfg
  refine ⟨⟨hsized, hring, ?_⟩, fun hg ha => ?_⟩
  · rw [hcfg.sendMax]
    rcases hcases with ⟨-, hzero⟩ | ⟨-, -, hzero, -⟩ | ⟨-, -, -, hzero | hone⟩ <;> omega
  · rw [available_recv hb.sized hb.inRing] at ha
    rw [available_recv hsized hring]
    have hpos := hb.sized.recv_pos
    rcases hcases with ⟨hne, -⟩ | ⟨-, -, -, hmoved⟩ | ⟨-, hfull, hsame, -⟩
    · exact absurd hg hne
    · omega
    · omega

theorem sProduceMessage_tells {r : ChannelQueuing × Option PartitionEvent} (hb : ChannelBound c)
    (h : c.sProduceMessage g size = some r) :
    Moved c r.1 .send ∧ Tells c r.1 .recv r.2 := by
  obtain ⟨hbound, havailable⟩ := sProduceMessage_bound hb h
  have hlink := fun side => (sProduceMessage_link h side).1
  unfold sProduceMessage at h
  split_ifs at h
  obtain rfl := Option.some.inj h
  refine ⟨⟨hbound, hlink .send, ?_⟩, hlink .recv, fun hnone => ?_, fun e he => ?_⟩
  · unfold sTransmit
    split_ifs <;> rfl
  · unfold sTransmit at hnone ⊢
    split_ifs at hnone ⊢
    · exact congrArg ChannelQueuingSide.isNotify (sideNotify_none hnone)
    · rfl
    · rfl
    · rfl
  · have hsome : ((c.sStore size).sTransmit g).2 ≠ none := by simp [he]
    unfold sTransmit at he
    split_ifs at he with hconn hfree
    obtain ⟨hnotify, rfl, hoff⟩ := sideNotify_some he
    refine ⟨hnotify, ?_, rfl, by simp, havailable hconn (.inr hsome)⟩
    simp only [sTransmit, if_pos hconn, if_pos hfree]
    exact hoff

theorem rConsumeMessage_bound {r : ChannelQueuing × Bool × Option PartitionEvent}
    (hb : ChannelBound c) (h : c.rConsumeMessage g = some r) :
    ChannelBound r.1 ∧ (g = c.send.generation → c.Available .send ∨ r.2.2 ≠ none →
      r.1.Available .send) := by
  obtain ⟨hcfg, hring, hcases⟩ := rConsumeMessage_spec hb.sized hb.inRing h
  have hsized := hb.sized.of_same hcfg
  have hsend := hb.send
  refine ⟨⟨hsized, hring, ?_⟩, fun hg ha => ?_⟩
  · rw [hcfg.sendMax]
    rcases hcases with ⟨-, -, hless⟩ | ⟨-, -, hsame⟩ <;> omega
  · show r.1.sNMessages < r.1.send.maxNbMessage
    rw [hcfg.sendMax]
    have hpos := hb.sized.send_pos
    rcases hcases with ⟨-, -, hless⟩ | ⟨hne | hzero, -, hsame⟩
    · omega
    · exact absurd hg hne
    · omega

theorem rConsumeMessage_tells {r : ChannelQueuing × Bool × Option PartitionEvent}
    (hb : ChannelBound c) (h : c.rConsumeMessage g = some r) :
    Moved c r.1 .recv ∧ Tells c r.1 .send r.2.2 := by
  obtain ⟨hbound, havailable⟩ := rConsumeMessage_bound hb h
  have hlink := fun side => (rConsumeMessage_link h side).1
  unfold rConsumeMessage at h
  split_ifs at h
  obtain rfl := Option.some.inj h
  refine ⟨⟨hbound, hlink .recv, ?_⟩, hlink .send, fun hnone => ?_, fun e he => ?_⟩
  · unfold rRefill
    split_ifs <;> rfl
  · unfold rRefill at hnone ⊢
    split_ifs at hnone ⊢
    · exact congrArg ChannelQueuingSide.isNotify (sideNotify_none hnone)
    · rfl
  · have he : (c.rAdvance.rRefill g).2 = some e := he
    have hsome : (c.rAdvance.rRefill g).2 ≠ none := by simp [he]
    unfold rRefill at he
    split_ifs at he with hmove
    obtain ⟨hnotify, rfl, hoff⟩ := sideNotify_some he
    refine ⟨hnotify, ?_, rfl, by simp, havailable hmove.1 (.inr hsome)⟩
    simp only [rRefill, if_pos hmove]
    exact hoff

end ChannelQueuing

end Chpok
