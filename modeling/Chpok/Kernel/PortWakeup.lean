import Chpok.Kernel.QueuingPort
import Chpok.Kernel.ChannelOccupancy

/-! Blocked callers of queuing ports are not forgotten: whenever no section is being
executed, a port with waiters has asked its channel for a notification, or the event
for it is in the ring of its partition. -/

namespace Chpok

namespace ChannelQueuing

variable {c d : ChannelQueuing} {g size : Nat} {subscribe : Bool} {side : Side}

def sideOf (c : ChannelQueuing) : Side → ChannelQueuingSide
  | .send => c.send
  | .recv => c.recv

/-- A message, or a free slot, is there for a side. -/
def Available (c : ChannelQueuing) : Side → Prop
  | .send => c.sNMessages < c.send.maxNbMessage
  | .recv => c.recv.nextMessage ≠ c.border

/-- A side has nothing to do and has asked for a notification. -/
def Watching (c : ChannelQueuing) (side : Side) : Prop :=
  (c.sideOf side).isNotify = true ∧ ¬ c.Available side

/-- An operation leaves the connection of a side as it is. -/
def SameLink (d c : ChannelQueuing) (side : Side) : Prop :=
  (d.sideOf side).generation = (c.sideOf side).generation ∧
    (d.sideOf side).handlerId = (c.sideOf side).handlerId

theorem rGetMessage_link {r : ChannelQueuing × Option (Nat × Nat)}
    (h : c.rGetMessage subscribe = some r) (side : Side) :
    r.1.SameLink c side ∧ (side = .send → c.Watching side → r.1.Watching side) := by
  rcases (rGetMessage_cases h).1 with he | he <;> rw [he] <;> cases side
  · exact ⟨⟨rfl, rfl⟩, fun _ hw => hw⟩
  · exact ⟨⟨rfl, rfl⟩, fun _ hw => hw⟩
  · exact ⟨⟨rfl, rfl⟩, fun _ hw => hw⟩
  · exact ⟨⟨rfl, rfl⟩, fun hs => nomatch hs⟩

theorem sGetMessage_link {r : ChannelQueuing × Option Nat}
    (h : c.sGetMessage subscribe = some r) (side : Side) :
    r.1.SameLink c side ∧ (side = .recv → c.Watching side → r.1.Watching side) := by
  rcases (sGetMessage_cases h).1 with he | he <;> rw [he] <;> cases side
  · exact ⟨⟨rfl, rfl⟩, fun _ hw => hw⟩
  · exact ⟨⟨rfl, rfl⟩, fun _ hw => hw⟩
  · exact ⟨⟨rfl, rfl⟩, fun hs => nomatch hs⟩
  · exact ⟨⟨rfl, rfl⟩, fun _ hw => hw⟩

theorem rGetMessage_watching {r : ChannelQueuing × Option (Nat × Nat)}
    (h : c.rGetMessage true = some r) (hnone : r.2 = none) : r.1.Watching .recv := by
  unfold rGetMessage at h
  split_ifs at h with hne hsub
  · obtain ⟨pos, _, rfl⟩ := Option.map_eq_some_iff.mp h
    cases hnone
  · obtain rfl := Option.some.inj h
    exact ⟨rfl, hne⟩
  · exact absurd rfl hsub

theorem sGetMessage_watching {r : ChannelQueuing × Option Nat}
    (h : c.sGetMessage true = some r) (hnone : r.2 = none) : r.1.Watching .send := by
  unfold sGetMessage at h
  split_ifs at h with hroom hsub
  · obtain ⟨pos, _, rfl⟩ := Option.map_eq_some_iff.mp h
    cases hnone
  · obtain rfl := Option.some.inj h
    exact ⟨rfl, hroom⟩
  · exact absurd rfl hsub

theorem sideInit_link (g handlerId : Nat) (other : Side) (hne : other ≠ side) :
    (c.sideInit side g handlerId).SameLink c other ∧
      (c.Watching other → (c.sideInit side g handlerId).Watching other) := by
  cases side <;> cases other <;> first | exact absurd rfl hne | exact ⟨⟨rfl, rfl⟩, id⟩

theorem sideInit_self (g handlerId : Nat) :
    ((c.sideInit side g handlerId).sideOf side).generation = g ∧
      ((c.sideInit side g handlerId).sideOf side).handlerId = handlerId := by
  cases side <;> exact ⟨rfl, rfl⟩

/-- A watching side is either left so or sent an event. -/
def Alerts (c d : ChannelQueuing) (side : Side) (event : Option PartitionEvent) : Prop :=
  c.Watching side → d.Watching side ∨
    ∃ ty, ty ≠ .timer ∧ event = some ⟨(c.sideOf side).handlerId, ty⟩

theorem sideNotify_alerts {s : ChannelQueuingSide} {ty : PartitionEventType}
    (h : s.isNotify = true) : (sideNotify s ty).2 = some ⟨s.handlerId, ty⟩ := by
  simp [sideNotify, h]

theorem rConsumeMessage_link {r : ChannelQueuing × Bool × Option PartitionEvent}
    (h : c.rConsumeMessage g = some r) (side : Side) :
    r.1.SameLink c side ∧
      (side = .send → g = c.send.generation → c.Alerts r.1 side r.2.2) := by
  unfold rConsumeMessage at h
  split_ifs at h
  obtain rfl := Option.some.inj h
  obtain ⟨-, -, hgen, hid⟩ := sideNotify_fields c.send .portSendAvailable
  unfold rRefill
  split_ifs with hmove
  · refine ⟨?_, ?_⟩
    · cases side
      · exact ⟨hgen, hid⟩
      · exact ⟨rfl, rfl⟩
    · rintro rfl - ⟨hnotify, -⟩
      exact .inr ⟨.portSendAvailable, by decide, sideNotify_alerts hnotify⟩
  · refine ⟨?_, ?_⟩
    · cases side <;> exact ⟨rfl, rfl⟩
    · rintro rfl - hw
      exact .inl hw

theorem sProduceMessage_link {r : ChannelQueuing × Option PartitionEvent}
    (h : c.sProduceMessage g size = some r) (side : Side) :
    r.1.SameLink c side ∧
      (side = .recv → g = c.recv.generation → c.Alerts r.1 side r.2) := by
  unfold sProduceMessage at h
  split_ifs at h
  obtain rfl := Option.some.inj h
  obtain ⟨-, -, hgen, hid⟩ := sideNotify_fields c.recv .portReceiveAvailable
  unfold sTransmit
  split_ifs with hconn hfree hdrop
  · refine ⟨?_, ?_⟩
    · cases side
      · exact ⟨rfl, rfl⟩
      · exact ⟨hgen, hid⟩
    · rintro rfl - ⟨hnotify, -⟩
      exact .inr ⟨.portReceiveAvailable, by decide, sideNotify_alerts hnotify⟩
  · refine ⟨?_, ?_⟩
    · cases side <;> exact ⟨rfl, rfl⟩
    · rintro rfl - hw
      exact .inl hw
  · refine ⟨?_, ?_⟩
    · cases side <;> exact ⟨rfl, rfl⟩
    · rintro rfl - hw
      exact .inl hw
  · refine ⟨?_, ?_⟩
    · cases side <;> exact ⟨rfl, rfl⟩
    · rintro rfl hg
      exact absurd hg hconn

end ChannelQueuing

namespace PortPoint

/-- `port_queuing_fired` is at work on the port. -/
def Serves (id : Nat) : PortPoint → Prop
  | .fired i | .firedConsume i | .firedProduce i _ => i = id
  | _ => False

/-- A message is taken from an IN port and sent to an OUT port, and a call does so only
when nobody waits. -/
def Fits (id : Nat) (port : QueuingPort) : PortPoint → Prop
  | .consume i => i = id → port.waiters = [] ∧ port.direction = .recv
  | .produce i _ => i = id → port.waiters = [] ∧ port.direction = .send
  | .firedConsume i => i = id → port.direction = .recv
  | .firedProduce i _ => i = id → port.direction = .send
  | _ => True

/-- The loop that empties the event ring is at work. -/
def Drains : PortPoint → Prop
  | .drain | .fired _ | .firedConsume _ | .firedProduce _ _ => True
  | _ => False

end PortPoint

/-- An event for the port is in the ring. -/
def PortPartition.Pending (part : PortPartition) (id : Nat) : Prop :=
  ∃ event ∈ part.events, event.eventType ≠ .timer ∧ event.handlerId = id

namespace PortSystem

open ChannelQueuing

variable {s t : PortSystem} {busy busy' : Nat → Nat → Prop} {p q id : Nat} {ch : Nat}

/-- The side of the channel belongs to the port in its present incarnation. -/
def Linked (s : PortSystem) (generation id : Nat) (port : QueuingPort) : Prop :=
  ((s.channels port.channel).sideOf port.direction).generation = generation ∧
    ((s.channels port.channel).sideOf port.direction).handlerId = id

def Watching (s : PortSystem) (port : QueuingPort) : Prop :=
  (s.channels port.channel).Watching port.direction

/-- What holds of one port, unless it is `busy`. -/
structure PortOk (s : PortSystem) (busy : Prop) (p id : Nat) (port : QueuingPort) : Prop where
  attached : s.part port.channel port.direction = p
  unused : port.isCreated = false → port.waiters = []
  linked : port.isCreated = true → s.Linked (s.partitions p).generation id port
  watched : port.waiters ≠ [] → busy ∨ (s.partitions p).Pending id ∨ s.Watching port
  fits : (s.partitions p).point.Fits id port

/-- All ports are in order, each channel side has one port, and the ring is not
forgotten. -/
structure Inv (s : PortSystem) (busy : Nat → Nat → Prop) : Prop where
  ports : ∀ p id port, (s.partitions p).ports[id]? = some port → s.PortOk (busy p id) p id port
  unique : ∀ (p i j : Nat) (port port' : QueuingPort), (s.partitions p).ports[i]? = some port →
    (s.partitions p).ports[j]? = some port' → port.channel = port'.channel →
    port.direction = port'.direction → i = j
  ring : ∀ p, (s.partitions p).events ≠ [] →
    (s.partitions p).isEvent = true ∨ (s.partitions p).point.Drains

def Serving (s : PortSystem) (p id : Nat) : Prop := (s.partitions p).point.Serves id

theorem PortOk.created {b : Prop} {port : QueuingPort} (h : s.PortOk b p id port)
    (hne : port.waiters ≠ []) : port.isCreated = true := by
  by_contra hc
  exact hne (h.unused (by simpa using hc))

@[simp] theorem setPartition_partitions_self (part : PortPartition) :
    (s.setPartition p part).partitions p = part := Function.update_self ..

theorem setPartition_partitions_ne (hne : q ≠ p) (part : PortPartition) :
    (s.setPartition p part).partitions q = s.partitions q := Function.update_of_ne hne ..

@[simp] theorem setPartition_channels (part : PortPartition) :
    (s.setPartition p part).channels = s.channels := rfl

@[simp] theorem setPartition_part (part : PortPartition) :
    (s.setPartition p part).part = s.part := rfl

@[simp] theorem setChannel_partitions (c : ChannelQueuing) :
    (s.setChannel ch c).partitions = s.partitions := rfl

@[simp] theorem setChannel_part (c : ChannelQueuing) : (s.setChannel ch c).part = s.part := rfl

@[simp] theorem setChannel_channels_self (c : ChannelQueuing) :
    (s.setChannel ch c).channels ch = c := Function.update_self ..

theorem setChannel_channels_ne {ch' : Nat} (hne : ch' ≠ ch) (c : ChannelQueuing) :
    (s.setChannel ch c).channels ch' = s.channels ch' := Function.update_of_ne hne ..

theorem Inv.same_port {port port' : QueuingPort} {j : Nat} (h : s.Inv busy)
    (hp : (s.partitions p).ports[id]? = some port)
    (hp' : (s.partitions q).ports[j]? = some port') (hc : port'.channel = port.channel)
    (hd : port'.direction = port.direction) : q = p ∧ j = id := by
  have hq : q = p := by
    rw [← (h.ports q j port' hp').attached, ← (h.ports p id port hp).attached, hc, hd]
  subst hq
  exact ⟨rfl, h.unique q j id port' port hp' hp hc hd⟩

/-- Both halves of a port's claim on its channel carry over to a new channel. -/
theorem Inv.setChannel {d : ChannelQueuing} (h : s.Inv busy)
    (hlink : ∀ p id port, (s.partitions p).ports[id]? = some port → port.channel = ch →
      port.isCreated = true → s.Linked (s.partitions p).generation id port →
      (d.sideOf port.direction).generation = (s.partitions p).generation ∧
        (d.sideOf port.direction).handlerId = id)
    (hbusy : ∀ p id, busy p id → busy' p id)
    (hwatch : ∀ p id port, (s.partitions p).ports[id]? = some port → port.channel = ch →
      port.isCreated = true → s.Watching port → busy' p id ∨ d.Watching port.direction) :
    (s.setChannel ch d).Inv busy' := by
  refine ⟨fun p id port hp => ?_, h.unique, h.ring⟩
  have hok := h.ports p id port hp
  by_cases hc : port.channel = ch
  · refine ⟨hok.attached, hok.unused, fun hcr => ?_, fun hne => ?_, hok.fits⟩
    · simp only [Linked, hc, setChannel_channels_self]
      exact hlink p id port hp hc hcr (hok.linked hcr)
    · rcases hok.watched hne with hb | hpend | hw
      · exact .inl (hbusy p id hb)
      · exact .inr (.inl hpend)
      · refine (hwatch p id port hp hc (hok.created hne) hw).imp_right fun hd => .inr ?_
        simpa only [Watching, hc, setChannel_channels_self] using hd
  · have hsame : ∀ generation, (s.setChannel ch d).Linked generation id port ↔
        s.Linked generation id port := by
      intro generation
      simp only [Linked, setChannel_channels_ne hc]
    refine ⟨hok.attached, hok.unused, fun hcr => (hsame _).mpr (hok.linked hcr),
      fun hne => ?_, hok.fits⟩
    rcases hok.watched hne with hb | hpend | hw
    · exact .inl (hbusy p id hb)
    · exact .inr (.inl hpend)
    · refine .inr (.inr ?_)
      simpa only [Watching, setChannel_channels_ne hc] using hw

/-- A partition goes on with its own ports, events and point; what it does to each of
its ports is given by `hports`. -/
theorem Inv.setPartition {part : PortPartition} (h : s.Inv busy)
    (hbusy : ∀ q id, q ≠ p → busy q id → busy' q id)
    (hring : part.events ≠ [] → part.isEvent = true ∨ part.point.Drains)
    (hports : ∀ id port', part.ports[id]? = some port' → ∃ port,
      (s.partitions p).ports[id]? = some port ∧ port'.channel = port.channel ∧
      port'.direction = port.direction ∧
      (port'.isCreated = false → port'.waiters = []) ∧
      (port'.isCreated = true → s.Linked part.generation id port') ∧
      (port'.waiters ≠ [] → busy' p id ∨ part.Pending id ∨ s.Watching port') ∧
      part.point.Fits id port') :
    (s.setPartition p part).Inv busy' := by
  refine ⟨fun q id port' hp => ?_, fun q i j port port' hi hj => ?_, fun q => ?_⟩
  · by_cases hq : q = p
    · subst hq
      rw [setPartition_partitions_self] at hp
      obtain ⟨port, hport, hc, hd, hunused, hlinked, hwatched, hfits⟩ := hports id port' hp
      have hok := h.ports q id port hport
      refine ⟨by simpa only [setPartition_part, hc, hd] using hok.attached, hunused, ?_, ?_, ?_⟩
      · rwa [setPartition_partitions_self]
      · rwa [setPartition_partitions_self]
      · rwa [setPartition_partitions_self]
    · rw [setPartition_partitions_ne hq] at hp
      have hok := h.ports q id port' hp
      refine ⟨hok.attached, hok.unused, ?_, ?_, ?_⟩
      · rw [setPartition_partitions_ne hq]
        exact hok.linked
      · rw [setPartition_partitions_ne hq]
        exact fun hne => (hok.watched hne).imp_left (hbusy q id hq)
      · rw [setPartition_partitions_ne hq]
        exact hok.fits
  · by_cases hq : q = p
    · subst hq
      rw [setPartition_partitions_self] at hi hj
      obtain ⟨port0, hport0, hc0, hd0, -⟩ := hports i port hi
      obtain ⟨port1, hport1, hc1, hd1, -⟩ := hports j port' hj
      intro hc hd
      exact h.unique q i j port0 port1 hport0 hport1 (by rw [← hc0, ← hc1, hc])
        (by rw [← hd0, ← hd1, hd])
    · rw [setPartition_partitions_ne hq] at hi hj
      exact h.unique q i j port port' hi hj
  · by_cases hq : q = p
    · subst hq
      rwa [setPartition_partitions_self]
    · rw [setPartition_partitions_ne hq]
      exact h.ring q

theorem Inv.setPoint {point : PortPoint} (h : s.Inv busy)
    (hother : ∀ q id, q ≠ p → busy q id → busy' q id)
    (hbusy : ∀ id port, (s.partitions p).ports[id]? = some port → port.waiters ≠ [] →
      busy p id → busy' p id ∨ (s.partitions p).Pending id ∨ s.Watching port)
    (hring : (s.partitions p).isEvent = false → (s.partitions p).point.Drains →
      (s.partitions p).events ≠ [] → point.Drains)
    (hfits : ∀ id port, (s.partitions p).ports[id]? = some port → point.Fits id port) :
    (s.setPoint p point).Inv busy' := by
  refine h.setPartition hother (fun hne => ?_) ?_
  · by_cases he : (s.partitions p).isEvent = true
    · exact .inl he
    · refine .inr (hring (by simpa using he) ?_ hne)
      exact (h.ring p hne).resolve_left he
  · intro id port hp
    have hok := h.ports p id port hp
    refine ⟨port, hp, rfl, rfl, hok.unused, hok.linked, fun hne => ?_, hfits id port hp⟩
    exact (hok.watched hne).elim (hbusy id port hp hne) .inr

theorem Inv.addEvent {event : PartitionEvent} {part : PortPartition} (h : s.Inv busy)
    (ha : (s.partitions q).addEvent event = some part)
    (hbusy : ∀ p id, busy p id → busy' p id ∨
      p = q ∧ event.eventType ≠ .timer ∧ event.handlerId = id) :
    (s.setPartition q part).Inv busy' := by
  unfold PortPartition.addEvent at ha
  split_ifs at ha
  obtain rfl := Option.some.inj ha
  refine h.setPartition (fun p id hp hb => ?_) (fun _ => ?_) ?_
  · exact (hbusy p id hb).resolve_right fun hq => hp hq.1
  · by_cases he : (s.partitions q).events = []
    · simp [he]
    · exact (h.ring q he).imp_left fun hi => by simp [hi]
  · intro id port hp
    have hok := h.ports q id port hp
    refine ⟨port, hp, rfl, rfl, hok.unused, hok.linked, fun hne => ?_, hok.fits⟩
    rcases hok.watched hne with hb | ⟨e, he, hty, hid⟩ | hw
    · rcases hbusy q id hb with hb' | ⟨-, hty, hid⟩
      · exact .inl hb'
      · exact .inr (.inl ⟨event, by simp, hty, hid⟩)
    · exact .inr (.inl ⟨e, by simp [he], hty, hid⟩)
    · exact .inr (.inr hw)

/-- The code of a partition stands where it stood, with the same ports. -/
def SamePlace (t s : PortSystem) : Prop :=
  ∀ q, (t.partitions q).ports = (s.partitions q).ports ∧
    (t.partitions q).point = (s.partitions q).point ∧
    (t.partitions q).normal = (s.partitions q).normal

theorem Inv.notify {side : Side} {event : Option PartitionEvent} (h : s.Inv busy)
    (hn : s.notify ch side event = some t)
    (hbusy : ∀ p id, busy p id → busy' p id ∨ ∃ ty, ty ≠ .timer ∧ event = some ⟨id, ty⟩ ∧
      p = s.part ch side) :
    t.Inv busy' ∧ t.SamePlace s := by
  cases event with
  | none =>
    obtain rfl := Option.some.inj hn
    refine ⟨⟨fun p id port hp => ?_, h.unique, h.ring⟩, fun q => ⟨rfl, rfl, rfl⟩⟩
    have hok := h.ports p id port hp
    refine ⟨hok.attached, hok.unused, hok.linked, fun hne => ?_, hok.fits⟩
    refine (hok.watched hne).imp_left fun hb => (hbusy p id hb).resolve_right ?_
    rintro ⟨ty, -, he, -⟩
    cases he
  | some event =>
    obtain ⟨part, ha, rfl⟩ := Option.map_eq_some_iff.mp hn
    constructor
    · refine h.addEvent ha fun p id hb => (hbusy p id hb).imp_right ?_
      rintro ⟨ty, hty, he, hp⟩
      obtain rfl := Option.some.inj he
      exact ⟨hp, hty, rfl⟩
    · unfold PortPartition.addEvent at ha
      split_ifs at ha
      obtain rfl := Option.some.inj ha
      intro q
      by_cases hq : q = s.part ch side
      · subst hq
        rw [setPartition_partitions_self]
        exact ⟨rfl, rfl, rfl⟩
      · rw [setPartition_partitions_ne hq]
        exact ⟨rfl, rfl, rfl⟩

/-- An operation of one port on its channel. Only this port may have to look at the
channel again; the port at the other side is alerted. -/
theorem Inv.operate {port : QueuingPort} {d : ChannelQueuing} (h : s.Inv busy)
    (other : Side) (event : Option PartitionEvent) (hp : (s.partitions p).ports[id]? = some port)
    (hother : ∀ side, side ≠ port.direction → side = other)
    (hlink : ∀ side, d.SameLink (s.channels port.channel) side)
    (halert : s.sideGeneration port.channel other =
      ((s.channels port.channel).sideOf other).generation →
      (s.channels port.channel).Alerts d other event)
    (hn : (s.setChannel port.channel d).notify port.channel other event = some t) :
    t.Inv (fun q j => busy q j ∨ q = p ∧ j = id) ∧ t.SamePlace s := by
  have hchannel : (s.setChannel port.channel d).Inv (fun q j =>
      (busy q j ∨ q = p ∧ j = id) ∨ ∃ ty, ty ≠ .timer ∧ event = some ⟨j, ty⟩ ∧
        q = s.part port.channel other) := by
    refine h.setChannel ?_ (fun q j hb => .inl (.inl hb)) ?_
    · intro q j port' _ hc _ hl
      obtain ⟨hgen, hid⟩ := hlink port'.direction
      rw [Linked, hc] at hl
      exact ⟨hgen.trans hl.1, hid.trans hl.2⟩
    · intro q j port' hp' hc hcr hw
      have hok := h.ports q j port' hp'
      by_cases hd : port'.direction = port.direction
      · exact .inl (.inl (.inr (h.same_port hp hp' hc hd)))
      · have hside := hother _ hd
        obtain ⟨hgen, hid⟩ := hok.linked hcr
        have hq := hok.attached
        rw [hc, hside] at hgen hid hq
        rw [Watching, hc, hside] at hw
        have hconn : s.sideGeneration port.channel other =
            ((s.channels port.channel).sideOf other).generation := by
          rw [sideGeneration, hq, hgen]
        rcases halert hconn hw with hw' | ⟨ty, hty, he⟩
        · rw [hside]
          exact .inr hw'
        · rw [hid] at he
          exact .inl (.inr ⟨ty, hty, he, hq.symm⟩)
  exact hchannel.notify hn fun q j hb => hb

theorem Inv.portQueuingReceive {port : QueuingPort} (h : s.Inv busy)
    (hp : (s.partitions p).ports[id]? = some port) (hd : port.direction = .recv)
    (hr : s.portQueuingReceive port.channel = some t) :
    t.Inv (fun q j => busy q j ∨ q = p ∧ j = id) ∧ t.SamePlace s := by
  obtain ⟨r, hc, hn⟩ := Option.bind_eq_some_iff.mp hr
  refine h.operate .send r.2.2 hp (fun side hne => ?_) (fun side => (rConsumeMessage_link hc side).1)
    ((rConsumeMessage_link hc .send).2 rfl) hn
  cases side
  · rfl
  · exact absurd hd.symm hne

theorem Inv.portQueuingSend {port : QueuingPort} {bytes : List UInt8} (h : s.Inv busy)
    (hp : (s.partitions p).ports[id]? = some port) (hd : port.direction = .send)
    (hr : s.portQueuingSend port.channel bytes = some t) :
    t.Inv (fun q j => busy q j ∨ q = p ∧ j = id) ∧ t.SamePlace s := by
  obtain ⟨r, hc, hn⟩ := Option.bind_eq_some_iff.mp hr
  have hfill : ∀ side, r.1.SameLink (s.channels port.channel) side := by
    intro side
    have := (sProduceMessage_link hc side).1
    cases side <;> exact this
  refine h.operate .recv r.2 hp (fun side hne => ?_) hfill ((sProduceMessage_link hc .recv).2 rfl) hn
  cases side
  · exact absurd hd.symm hne
  · rfl

theorem Inv.look {port : QueuingPort} {d : ChannelQueuing} (h : s.Inv busy)
    (hp : (s.partitions p).ports[id]? = some port)
    (hlink : ∀ side, d.SameLink (s.channels port.channel) side)
    (hwatch : ∀ side, side ≠ port.direction → (s.channels port.channel).Watching side →
      d.Watching side) :
    (s.setChannel port.channel d).Inv (fun q j => busy q j ∨ q = p ∧ j = id) := by
  cases hd : port.direction with
  | send =>
    refine (h.operate .recv none hp (fun side hne => ?_) hlink
      (fun _ hw => .inl (hwatch _ (by rw [hd]; decide) hw)) rfl).1
    cases side
    · exact absurd hd.symm hne
    · rfl
  | recv =>
    refine (h.operate .send none hp (fun side hne => ?_) hlink
      (fun _ hw => .inl (hwatch _ (by rw [hd]; decide) hw)) rfl).1
    cases side
    · rfl
    · exact absurd hd.symm hne

theorem Inv.rGetMessage {port : QueuingPort} {subscribe : Bool}
    {r : ChannelQueuing × Option (Nat × Nat)} (h : s.Inv busy)
    (hp : (s.partitions p).ports[id]? = some port) (hd : port.direction = .recv)
    (hr : (s.channels port.channel).rGetMessage subscribe = some r) :
    (s.setChannel port.channel r.1).Inv fun q j => busy q j ∨ q = p ∧ j = id := by
  refine h.look hp (fun side => (rGetMessage_link hr side).1) fun side hs hw => ?_
  refine (rGetMessage_link hr side).2 ?_ hw
  cases side
  · rfl
  · exact absurd hd.symm hs

theorem Inv.sGetMessage {port : QueuingPort} {subscribe : Bool}
    {r : ChannelQueuing × Option Nat} (h : s.Inv busy)
    (hp : (s.partitions p).ports[id]? = some port) (hd : port.direction = .send)
    (hr : (s.channels port.channel).sGetMessage subscribe = some r) :
    (s.setChannel port.channel r.1).Inv fun q j => busy q j ∨ q = p ∧ j = id := by
  refine h.look hp (fun side => (sGetMessage_link hr side).1) fun side hs hw => ?_
  refine (sGetMessage_link hr side).2 ?_ hw
  cases side
  · exact absurd hd.symm hs
  · rfl

/-- The code of one partition goes on, and then the ports being served are again the
only busy ones. -/
theorem Inv.advance {part : PortPartition} (h : s.Inv busy)
    (hbusy : ∀ q id, q ≠ p → busy q id → s.Serving q id)
    (hring : part.events ≠ [] → part.isEvent = true ∨ part.point.Drains)
    (hports : ∀ id port', part.ports[id]? = some port' → ∃ port,
      (s.partitions p).ports[id]? = some port ∧ port'.channel = port.channel ∧
      port'.direction = port.direction ∧
      (port'.isCreated = false → port'.waiters = []) ∧
      (port'.isCreated = true → s.Linked part.generation id port') ∧
      (port'.waiters ≠ [] → part.point.Serves id ∨ part.Pending id ∨ s.Watching port') ∧
      part.point.Fits id port') :
    (s.setPartition p part).Inv (s.setPartition p part).Serving := by
  refine h.setPartition (fun q id hq hb => ?_) hring fun id port' hp => ?_
  · rw [Serving, setPartition_partitions_ne hq]
    exact hbusy q id hq hb
  · rw [Serving, setPartition_partitions_self]
    exact hports id port' hp

theorem Inv.advancePoint {point : PortPoint} (h : s.Inv busy)
    (hother : ∀ q id, q ≠ p → busy q id → s.Serving q id)
    (hbusy : ∀ id port, (s.partitions p).ports[id]? = some port → port.waiters ≠ [] →
      busy p id → point.Serves id ∨ (s.partitions p).Pending id ∨ s.Watching port)
    (hring : (s.partitions p).isEvent = false → (s.partitions p).point.Drains →
      (s.partitions p).events ≠ [] → point.Drains)
    (hfits : ∀ id port, (s.partitions p).ports[id]? = some port → point.Fits id port) :
    (s.setPoint p point).Inv (s.setPoint p point).Serving := by
  refine h.setPoint (fun q id hq hb => ?_) (fun id port hp hne hb => ?_) hring hfits
  · rw [PortSystem.setPoint, Serving, setPartition_partitions_ne hq]
    exact hother q id hq hb
  · rw [PortSystem.setPoint, Serving, setPartition_partitions_self]
    exact hbusy id port hp hne hb

theorem Inv.leave {port : QueuingPort} (h : s.Inv fun q j => s.Serving q j ∨ q = p ∧ j = id)
    (hout : (s.partitions p).point = .outside)
    (hp : (s.partitions p).ports[id]? = some port)
    (hwatched : port.waiters ≠ [] → (s.partitions p).Pending id ∨ s.Watching port) :
    (s.setPoint p .again).Inv (s.setPoint p .again).Serving := by
  refine h.advancePoint (fun q j hq hb => ?_) (fun j port' hp' hne hb => ?_) (fun _ hd => ?_)
    fun _ _ _ => trivial
  · exact hb.resolve_right fun hj => hq hj.1
  · rcases hb with hb | ⟨-, rfl⟩
    · rw [Serving, hout] at hb
      exact hb.elim
    · obtain rfl := Option.some.inj (hp.symm.trans hp')
      exact .inr (hwatched hne)
  · rw [hout] at hd
    exact hd.elim

theorem ports_set {ports : List QueuingPort} {port' port'' : QueuingPort} {j : Nat}
    (h : (ports.set id port')[j]? = some port'') :
    j = id ∧ port'' = port' ∨ j ≠ id ∧ ports[j]? = some port'' := by
  by_cases hj : j = id
  · subst hj
    by_cases hlt : j < ports.length
    · rw [List.getElem?_set_self hlt] at h
      exact .inl ⟨rfl, (Option.some.inj h).symm⟩
    · rw [List.getElem?_eq_none (by simpa using hlt)] at h
      cases h
  · rw [List.getElem?_set_ne (Ne.symm hj)] at h
    exact .inr ⟨hj, h⟩

theorem Inv.block {port : QueuingPort} {w : PortWaiter}
    (h : s.Inv fun q j => s.Serving q j ∨ q = p ∧ j = id)
    (hout : (s.partitions p).point = .outside)
    (hp : (s.partitions p).ports[id]? = some port) (hc : port.isCreated = true)
    (hwatched : (s.partitions p).Pending id ∨ s.Watching port) :
    (s.block p id port w).Inv (s.block p id port w).Serving := by
  refine h.advance (fun q j hq hb => hb.resolve_right fun hj => hq hj.1) (fun hne => ?_) ?_
  · refine .inl ((h.ring p hne).resolve_right ?_)
    rw [hout]
    exact fun hd => hd
  · intro j port' hp'
    rcases ports_set hp' with ⟨rfl, rfl⟩ | ⟨hj, hp'⟩
    · refine ⟨port, hp, rfl, rfl, fun hf => ?_, fun _ => (h.ports p j port hp).linked hc,
        fun _ => .inr hwatched, trivial⟩
      simp [hc] at hf
    · have hok := h.ports p j port' hp'
      refine ⟨port', hp', rfl, rfl, hok.unused, hok.linked, fun hne => ?_, trivial⟩
      rcases hok.watched hne with hb | hpend | hw
      · rcases hb with hb | ⟨-, hj'⟩
        · rw [Serving, hout] at hb
          exact hb.elim
        · exact absurd hj' hj
      · exact .inr (.inl hpend)
      · exact .inr (.inr hw)

theorem getPortQueuing_eq {part : PortPartition} {port : QueuingPort}
    (h : part.getPortQueuing id = some (some port)) :
    part.ports[id]? = some port ∧ port.isCreated = true := by
  unfold PortPartition.getPortQueuing at h
  split_ifs at h with hlen
  · cases Option.some.inj h
  obtain ⟨port', hp, he⟩ := Option.map_eq_some_iff.mp h
  split_ifs at he with hc
  obtain rfl := Option.some.inj he
  exact ⟨hp, hc⟩

theorem call_cases {f : QueuingPort → Option PortSystem} (h : s.call p id f = some t) :
    (s.partitions p).point = .outside ∧ (t = s ∨ ∃ port,
      (s.partitions p).getPortQueuing id = some (some port) ∧ f port = some t) := by
  unfold call at h
  split_ifs at h with hout
  refine ⟨hout, ?_⟩
  obtain ⟨port, hp, hf⟩ := Option.bind_eq_some_iff.mp h
  cases port with
  | none => exact .inl (Option.some.inj hf).symm
  | some port => exact .inr ⟨port, hp, hf⟩

theorem Inv.weaken (h : s.Inv s.Serving) : s.Inv fun q j => s.Serving q j ∨ q = p ∧ j = id := by
  refine ⟨fun q j port hp => ?_, h.unique, h.ring⟩
  have hok := h.ports q j port hp
  exact ⟨hok.attached, hok.unused, hok.linked, fun hne => (hok.watched hne).imp_left .inl,
    hok.fits⟩

/-- A call that has to wait, or may not, because of the waiters before it. -/
theorem Inv.queueUp {port : QueuingPort} {w : PortWaiter} {mayWait : Bool} (h : s.Inv s.Serving)
    (hout : (s.partitions p).point = .outside)
    (hp : (s.partitions p).ports[id]? = some port) (hc : port.isCreated = true)
    (hne : port.waiters ≠ [])
    (ht : t = if mayWait then s.block p id port w else s.setPoint p .again) :
    t.Inv t.Serving := by
  have hwatched := ((h.ports p id port hp).watched hne).resolve_left (by
    rw [Serving, hout]
    exact fun hs => hs)
  subst ht
  split_ifs
  · exact h.weaken.block hout hp hc hwatched
  · exact h.weaken.leave hout hp fun _ => hwatched

theorem Inv.begin {port : QueuingPort} {point : PortPoint}
    (h : s.Inv fun q j => s.Serving q j ∨ q = p ∧ j = id)
    (hout : (s.partitions p).point = .outside)
    (hp : (s.partitions p).ports[id]? = some port) (hnil : port.waiters = [])
    (hfits : ∀ j port', (j = id → port' = port) → point.Fits j port') :
    (s.setPoint p point).Inv (s.setPoint p point).Serving := by
  refine h.advancePoint (fun q j hq hb => hb.resolve_right fun hj => hq hj.1)
    (fun j port' hp' hne' hb => ?_) (fun _ hdrain => ?_) fun j port' hp' => ?_
  · rcases hb with hb | ⟨-, rfl⟩
    · rw [Serving, hout] at hb
      exact hb.elim
    · obtain rfl := Option.some.inj (hp.symm.trans hp')
      exact absurd hnil hne'
  · rw [hout] at hdrain
    exact hdrain.elim
  · refine hfits j port' fun hj => ?_
    subst hj
    exact Option.some.inj (hp'.symm.trans hp)

theorem receive_inv {port : QueuingPort} {w : PortWaiter} {mayWait : Bool} (h : s.Inv s.Serving)
    (hout : (s.partitions p).point = .outside)
    (hp : (s.partitions p).ports[id]? = some port) (hc : port.isCreated = true)
    (ht : s.receive p id port w mayWait = some t) : t.Inv t.Serving := by
  unfold receive at ht
  by_cases hd : port.direction ≠ .recv
  · rw [if_pos hd] at ht
    exact Option.some.inj ht ▸ h
  rw [if_neg hd] at ht
  have hdir := not_not.mp hd
  by_cases hne : port.waiters ≠ []
  · rw [if_pos hne] at ht
    exact h.queueUp hout hp hc hne (Option.some.inj ht).symm
  rw [if_neg hne] at ht
  have hnil := not_not.mp hne
  obtain ⟨r, hr, he⟩ := Option.map_eq_some_iff.mp ht
  have hlook := h.rGetMessage hp hdir hr
  cases hm : r.2 with
  | some m =>
    simp only [hm] at he
    refine he ▸ hlook.begin hout hp hnil fun j port' hj hid => ?_
    rw [hj hid.symm]
    exact ⟨hnil, hdir⟩
  | none =>
    simp only [hm] at he
    split_ifs at he with hw
    · subst he hw
      refine hlook.block hout hp hc (.inr ?_)
      rw [Watching, setChannel_channels_self, hdir]
      exact rGetMessage_watching hr hm
    · exact he ▸ hlook.leave hout hp fun hne' => absurd hnil hne'

theorem send_inv {port : QueuingPort} {w : PortWaiter} {mayWait : Bool} (h : s.Inv s.Serving)
    (hout : (s.partitions p).point = .outside)
    (hp : (s.partitions p).ports[id]? = some port) (hc : port.isCreated = true)
    (ht : s.send p id port w mayWait = some t) : t.Inv t.Serving := by
  unfold send at ht
  by_cases hd : port.direction ≠ .send
  · rw [if_pos hd] at ht
    exact Option.some.inj ht ▸ h
  rw [if_neg hd] at ht
  have hdir := not_not.mp hd
  by_cases hlen : w.waitLen = 0 ∨ (s.channels port.channel).maxMessageSize < w.waitLen
  · rw [if_pos hlen] at ht
    exact Option.some.inj ht ▸ h
  rw [if_neg hlen] at ht
  by_cases hne : port.waiters ≠ []
  · rw [if_pos hne] at ht
    exact h.queueUp hout hp hc hne (Option.some.inj ht).symm
  rw [if_neg hne] at ht
  have hnil := not_not.mp hne
  obtain ⟨r, hr, he⟩ := Option.map_eq_some_iff.mp ht
  have hlook := h.sGetMessage hp hdir hr
  cases hm : r.2 with
  | some m =>
    simp only [hm] at he
    refine he ▸ hlook.begin hout hp hnil fun j port' hj hid => ?_
    rw [hj hid.symm]
    exact ⟨hnil, hdir⟩
  | none =>
    simp only [hm] at he
    split_ifs at he with hw
    · subst he hw
      refine hlook.block hout hp hc (.inr ?_)
      rw [Watching, setChannel_channels_self, hdir]
      exact sGetMessage_watching hr hm
    · exact he ▸ hlook.leave hout hp fun hne' => absurd hnil hne'

theorem clear_inv {port : QueuingPort} (h : s.Inv s.Serving)
    (hout : (s.partitions p).point = .outside)
    (hp : (s.partitions p).ports[id]? = some port) (hc : port.isCreated = true)
    (hquiet : port.direction = .recv → port.waiters = [] ∨ (s.partitions p).Pending id) :
    (s.clear p id port).Inv (s.clear p id port).Serving := by
  unfold clear
  by_cases hd : port.direction ≠ .recv
  · rwa [if_pos hd]
  rw [if_neg hd]
  have hdir := not_not.mp hd
  obtain ⟨hgen, hid⟩ := (h.ports p id port hp).linked hc
  have hlook : (s.sideInit p id port).Inv fun q j => s.Serving q j ∨ q = p ∧ j = id := by
    refine h.look hp (fun side => ?_) fun side hs hw => (sideInit_link _ _ side hs).2 hw
    by_cases hs : side = port.direction
    · obtain ⟨hg, hi⟩ := @sideInit_self (s.channels port.channel) port.direction
        (s.partitions p).generation id
      rw [hs]
      exact ⟨hg.trans hgen.symm, hi.trans hid.symm⟩
    · exact (sideInit_link _ _ side hs).1
  refine hlook.leave hout hp fun hne => .inl ((hquiet hdir).resolve_left hne)

theorem create_inv {port : QueuingPort} {messageSize maxNbMessage : Nat} {direction : Side}
    {discipline : QueuingDiscipline} (h : s.Inv s.Serving)
    (hout : (s.partitions p).point = .outside)
    (hp : (s.partitions p).ports[id]? = some port) :
    (s.create p id port messageSize maxNbMessage direction discipline).Inv
      (s.create p id port messageSize maxNbMessage direction discipline).Serving := by
  unfold create
  split_ifs with hcr
  any_goals exact h
  have hok := h.ports p id port hp
  have hnil := hok.unused (by simpa using hcr)
  have hlook : (s.sideInit p id port).Inv s.Serving := by
    refine h.setChannel (fun q j port' hp' hch hcr' hl => ?_) (fun _ _ hb => hb) ?_
    · have hside : port'.direction ≠ port.direction := fun hd => by
        obtain ⟨rfl, rfl⟩ := h.same_port hp hp' hch hd
        obtain rfl := Option.some.inj (hp.symm.trans hp')
        exact hcr hcr'
      obtain ⟨hgen, hid⟩ := (sideInit_link (c := s.channels port.channel)
        (s.partitions p).generation id _ hside).1
      rw [Linked, hch] at hl
      exact ⟨hgen.trans hl.1, hid.trans hl.2⟩
    · intro q j port' hp' hch hcr' hw
      have hside : port'.direction ≠ port.direction := fun hd => by
        obtain ⟨rfl, rfl⟩ := h.same_port hp hp' hch hd
        obtain rfl := Option.some.inj (hp.symm.trans hp')
        exact hcr hcr'
      rw [Watching, hch] at hw
      exact .inr ((sideInit_link _ _ _ hside).2 hw)
  have hself := @sideInit_self (s.channels port.channel) port.direction
    (s.partitions p).generation id
  have hswap : ∀ port', ((s.setPartition p ((s.partitions p).setPort id port')).sideInit p id port)
      = (s.sideInit p id port).setPartition p ((s.partitions p).setPort id port') := by
    intro port'
    simp [sideInit, setPartition, PortSystem.setChannel, PortPartition.setPort]
  rw [hswap]
  refine hlook.advance (fun q j _ hb => hb) (h.ring p) fun j port' hp' => ?_
  rcases ports_set hp' with ⟨rfl, rfl⟩ | ⟨hj, hp'⟩
  · refine ⟨port, hp, rfl, rfl, fun hf => ?_, fun _ => ?_, fun hne => absurd hnil hne, ?_⟩
    · cases hf
    · rw [Linked, sideInit, setChannel_channels_self]
      exact hself
    · simp only [PortPartition.setPort, hout]
      trivial
  · have hok' := hlook.ports p j port' hp'
    exact ⟨port', hp', rfl, rfl, hok'.unused, hok'.linked, hok'.watched, hok'.fits⟩

theorem remove_waiters {port : QueuingPort} {threads : List Nat}
    (h : (port.remove threads).waiters ≠ []) : port.waiters ≠ [] := fun hnil =>
  h (by simp [QueuingPort.remove, hnil])

theorem Inv.remove {threads : List Nat} {events : List PartitionEvent} {point : PortPoint}
    (h : s.Inv s.Serving)
    (hevents : ∀ id, (s.partitions p).Pending id →
      ∃ event ∈ events, event.eventType ≠ .timer ∧ event.handlerId = id)
    (hring : events ≠ [] → (s.partitions p).isEvent = true ∨ point.Drains)
    (hserves : ∀ id, ¬ (s.partitions p).point.Serves id)
    (hfits : ∀ id port, point.Fits id port) :
    (s.setPartition p { (s.partitions p).remove threads with
      events := events, point := point }).Inv
      (s.setPartition p { (s.partitions p).remove threads with
        events := events, point := point }).Serving := by
  refine h.advance (fun q j _ hb => hb) hring fun j port' hp' => ?_
  simp only [PortPartition.remove, List.getElem?_map, Option.map_eq_some_iff] at hp'
  obtain ⟨port, hp, rfl⟩ := hp'
  have hok := h.ports p j port hp
  refine ⟨port, hp, rfl, rfl, fun hf => ?_, hok.linked, fun hne => .inr ?_, hfits _ _⟩
  · have := hok.unused hf
    simp [QueuingPort.remove, this]
  · rcases hok.watched (remove_waiters hne) with hb | hpend | hw
    · exact absurd hb (hserves j)
    · exact .inl (hevents j hpend)
    · exact .inr hw

theorem restart_inv (h : s.Inv s.Serving) :
    (s.setPartition p (s.partitions p).restart).Inv
      (s.setPartition p (s.partitions p).restart).Serving := by
  refine h.advance (fun q j _ hb => hb) (fun hne => absurd rfl hne) fun j port' hp' => ?_
  simp only [PortPartition.restart, List.getElem?_map, Option.map_eq_some_iff] at hp'
  obtain ⟨port, hp, rfl⟩ := hp'
  exact ⟨port, hp, rfl, rfl, fun _ => rfl, nofun, fun hne => absurd rfl hne, trivial⟩

theorem Inv.done {s₁ : PortSystem} {port : QueuingPort} {point : PortPoint}
    (h : s₁.Inv fun q j => s.Serving q j ∨ q = p ∧ j = id) (hplace : s₁.SamePlace s)
    (hp : (s.partitions p).ports[id]? = some port)
    (hserves : ∀ j, (s.partitions p).point.Serves j → point.Serves j)
    (hself : port.waiters = [] ∨ point.Serves id)
    (hdrains : (s.partitions p).point.Drains → point.Drains)
    (hfits : ∀ id port, point.Fits id port) :
    (s₁.setPoint p point).Inv (s₁.setPoint p point).Serving := by
  obtain ⟨hports, hpoint, -⟩ := hplace p
  refine h.advancePoint (fun q j hq hb => ?_) (fun j port' hp' hne hb => ?_) ?_
    fun _ _ _ => hfits _ _
  · rw [Serving, (hplace q).2.1]
    exact hb.resolve_right fun hj => hq hj.1
  · rw [hports] at hp'
    rcases hb with hb | ⟨-, rfl⟩
    · exact .inl (hserves j hb)
    · obtain rfl := Option.some.inj (hp.symm.trans hp')
      exact .inl (hself.resolve_left hne)
  · rw [hpoint]
    exact fun _ hd _ => hdrains hd

theorem Inv.endFired {port : QueuingPort}
    (h : s.Inv fun q j => s.Serving q j ∨ q = p ∧ j = id)
    (hpoint : (s.partitions p).point = .fired id)
    (hp : (s.partitions p).ports[id]? = some port)
    (hwatched : port.waiters ≠ [] → s.Watching port) :
    (s.setPoint p .drain).Inv (s.setPoint p .drain).Serving := by
  refine h.advancePoint (fun q j hq hb => hb.resolve_right fun hj => hq hj.1)
    (fun j port' hp' hne hb => ?_) (fun _ _ _ => trivial) fun _ _ _ => trivial
  have hj : j = id := by
    rcases hb with hb | hj
    · rw [Serving, hpoint] at hb
      exact hb.symm
    · exact hj.2
  subst hj
  obtain rfl := Option.some.inj (hp.symm.trans hp')
  exact .inr (.inr (hwatched hne))

theorem Inv.wakeUp {port : QueuingPort} {w : PortWaiter} {rest : List PortWaiter}
    {point : PortPoint} (h : s.Inv fun q j => s.Serving q j ∨ q = p ∧ j = id)
    (hpoint : (s.partitions p).point = .fired id)
    (hp : (s.partitions p).ports[id]? = some port) (hw : port.waiters = w :: rest)
    (hserves : point.Serves id) (hdrains : point.Drains)
    (hfits : ∀ j port', (j = id → port'.direction = port.direction) → point.Fits j port') :
    (s.wakeUp p id port rest point).Inv (s.wakeUp p id port rest point).Serving := by
  refine h.advance (fun q j hq hb => hb.resolve_right fun hj => hq hj.1)
    (fun _ => .inr hdrains) fun j port' hp' => ?_
  rcases ports_set hp' with ⟨rfl, rfl⟩ | ⟨hj, hp'⟩
  · have hok := h.ports p j port hp
    have hcr := hok.created (by simp [hw])
    exact ⟨port, hp, rfl, rfl, fun hf => by simp [hcr] at hf, fun _ => hok.linked hcr,
      fun _ => .inl hserves, hfits _ _ fun _ => rfl⟩
  · have hok := h.ports p j port' hp'
    refine ⟨port', hp', rfl, rfl, hok.unused, hok.linked, fun hne => .inr ?_,
      hfits _ _ fun he => absurd he hj⟩
    refine (hok.watched hne).resolve_left ?_
    rintro (hb | ⟨-, he⟩)
    · rw [Serving, hpoint] at hb
      exact hj hb.symm
    · exact hj he

theorem portQueuingFired_inv {port : QueuingPort} (h : s.Inv s.Serving)
    (hpoint : (s.partitions p).point = .fired id)
    (hp : (s.partitions p).ports[id]? = some port)
    (ht : s.portQueuingFired p id port = some t) : t.Inv t.Serving := by
  unfold portQueuingFired at ht
  cases hw : port.waiters with
  | nil =>
    simp only [hw] at ht
    obtain rfl := Option.some.inj ht
    exact h.weaken.endFired hpoint hp fun hne => absurd hw hne
  | cons w rest =>
    simp only [hw] at ht
    cases hdir : port.direction with
    | recv =>
      simp only [hdir] at ht
      obtain ⟨r, hr, he⟩ := Option.map_eq_some_iff.mp ht
      have hlook := h.rGetMessage hp hdir hr
      cases hm : r.2 with
      | none =>
        simp only [hm] at he
        subst he
        refine hlook.endFired hpoint hp fun _ => ?_
        rw [Watching, setChannel_channels_self, hdir]
        exact rGetMessage_watching hr hm
      | some m =>
        simp only [hm] at he
        subst he
        refine hlook.wakeUp hpoint hp hw ?_ ?_ fun j port' hd => ?_
        · rfl
        · trivial
        · exact fun hj => (hd hj.symm).trans hdir
    | send =>
      simp only [hdir] at ht
      obtain ⟨r, hr, he⟩ := Option.map_eq_some_iff.mp ht
      have hlook := h.sGetMessage hp hdir hr
      cases hm : r.2 with
      | none =>
        simp only [hm] at he
        subst he
        refine hlook.endFired hpoint hp fun _ => ?_
        rw [Watching, setChannel_channels_self, hdir]
        exact sGetMessage_watching hr hm
      | some m =>
        simp only [hm] at he
        subst he
        refine hlook.wakeUp hpoint hp hw ?_ ?_ fun j port' hd => ?_
        · rfl
        · trivial
        · exact fun hj => (hd hj.symm).trans hdir

/-- An event that is not of the timer goes to its port. -/
theorem drain_inv {due : Bool} {expired : List Nat} {bytes : List UInt8}
    (h : s.Inv s.Serving) (hpoint : (s.partitions p).point = .drain)
    (ht : s.resume p due expired bytes = some t) : t.Inv t.Serving := by
  unfold resume at ht
  simp only [hpoint] at ht
  cases hev : (s.partitions p).events with
  | nil =>
    simp only [hev] at ht
    obtain rfl := Option.some.inj ht
    refine h.advancePoint (fun q j _ hb => hb) (fun j port hp _ hb => ?_)
      (fun _ _ hne => absurd hev hne) fun _ _ _ => trivial
    rw [Serving, hpoint] at hb
    exact hb.elim
  | cons event rest =>
    simp only [hev] at ht
    have hpending : ∀ j, (s.partitions p).Pending j → event.eventType ≠ .timer ∧
        event.handlerId = j ∨ ∃ e ∈ rest, e.eventType ≠ .timer ∧ e.handlerId = j := by
      rintro j ⟨e, he, hty⟩
      rw [hev] at he
      rcases List.mem_cons.mp he with rfl | he
      · exact .inl hty
      · exact .inr ⟨e, he, hty⟩
    have hfire : event.eventType ≠ .timer →
        t = s.setPartition p { s.partitions p with
          events := rest, point := .fired event.handlerId } → t.Inv t.Serving := by
      rintro - rfl
      refine h.advance (fun q j _ hb => hb) (fun _ => .inr trivial) fun j port hp => ?_
      have hok := h.ports p j port hp
      refine ⟨port, hp, rfl, rfl, hok.unused, hok.linked, fun hne => ?_, trivial⟩
      rcases hok.watched hne with hb | hpend | hw
      · rw [Serving, hpoint] at hb
        exact hb.elim
      · rcases hpending j hpend with ⟨-, hj⟩ | hrest
        · exact .inl hj
        · exact .inr (.inl hrest)
      · exact .inr (.inr hw)
    cases hty : event.eventType with
    | timer =>
      simp only [hty] at ht
      obtain rfl := Option.some.inj ht
      have hpoint' : { (s.partitions p).remove expired with events := rest } =
          { (s.partitions p).remove expired with events := rest, point := .drain } := by
        simp only [PortPartition.remove, hpoint]
      rw [hpoint']
      refine h.remove (fun j hj => ?_) (fun _ => .inr trivial) (fun j => ?_)
        fun _ _ => trivial
      · exact (hpending j hj).resolve_left fun he => he.1 hty
      · rw [hpoint]
        exact fun hs => hs
    | portSendAvailable =>
      simp only [hty] at ht
      exact hfire (by simp [hty]) (Option.some.inj ht).symm
    | portReceiveAvailable =>
      simp only [hty] at ht
      exact hfire (by simp [hty]) (Option.some.inj ht).symm

/-- A section goes on where no port is served and no event is drained. -/
theorem Inv.moveOn {point : PortPoint} (h : s.Inv s.Serving)
    (hserves : ∀ j, ¬ (s.partitions p).point.Serves j)
    (hdrains : ¬ (s.partitions p).point.Drains) (hfits : ∀ id port, point.Fits id port) :
    (s.setPoint p point).Inv (s.setPoint p point).Serving :=
  h.advancePoint (fun _ _ _ hb => hb) (fun j _ _ _ hb => absurd hb (hserves j))
    (fun _ hd => absurd hd hdrains) fun _ _ _ => hfits _ _

/-- The message of a call is consumed, and its section ends. -/
theorem consume_inv {port : QueuingPort} {s₁ : PortSystem} (h : s.Inv s.Serving)
    (hpoint : (s.partitions p).point = .consume id)
    (hp : (s.partitions p).ports[id]? = some port)
    (hs₁ : s.portQueuingReceive port.channel = some s₁) :
    (s₁.setPoint p .again).Inv (s₁.setPoint p .again).Serving := by
  obtain ⟨hnil, hdir⟩ : port.waiters = [] ∧ port.direction = .recv := by
    have := (h.ports p id port hp).fits
    rw [hpoint] at this
    exact this rfl
  obtain ⟨hinv, hplace⟩ := h.portQueuingReceive hp hdir hs₁
  refine hinv.done hplace hp (fun j hj => ?_) (.inl hnil) (fun hd => ?_) fun _ _ => trivial
  · rw [hpoint] at hj
    exact hj
  · rw [hpoint] at hd
    exact hd

/-- The message of a call is sent, and its section ends. -/
theorem produce_inv {port : QueuingPort} {s₁ : PortSystem} {len : Nat} {bytes : List UInt8}
    (h : s.Inv s.Serving) (hpoint : (s.partitions p).point = .produce id len)
    (hp : (s.partitions p).ports[id]? = some port)
    (hs₁ : s.portQueuingSend port.channel bytes = some s₁) :
    (s₁.setPoint p .again).Inv (s₁.setPoint p .again).Serving := by
  obtain ⟨hnil, hdir⟩ : port.waiters = [] ∧ port.direction = .send := by
    have := (h.ports p id port hp).fits
    rw [hpoint] at this
    exact this rfl
  obtain ⟨hinv, hplace⟩ := h.portQueuingSend hp hdir hs₁
  refine hinv.done hplace hp (fun j hj => ?_) (.inl hnil) (fun hd => ?_) fun _ _ => trivial
  · rw [hpoint] at hj
    exact hj
  · rw [hpoint] at hd
    exact hd

/-- A message is consumed for a waiter that has been woken up. -/
theorem firedConsume_inv {port : QueuingPort} {s₁ : PortSystem} (h : s.Inv s.Serving)
    (hpoint : (s.partitions p).point = .firedConsume id)
    (hp : (s.partitions p).ports[id]? = some port)
    (hs₁ : s.portQueuingReceive port.channel = some s₁) :
    (s₁.setPoint p (.fired id)).Inv (s₁.setPoint p (.fired id)).Serving := by
  have hdir : port.direction = .recv := by
    have := (h.ports p id port hp).fits
    rw [hpoint] at this
    exact this rfl
  obtain ⟨hinv, hplace⟩ := h.portQueuingReceive hp hdir hs₁
  refine hinv.done hplace hp (fun j hj => ?_) (.inr ?_) (fun _ => trivial) fun _ _ => trivial
  · rw [hpoint] at hj
    exact hj
  · rfl

/-- The message of a waiter that has been woken up is sent. -/
theorem firedProduce_inv {port : QueuingPort} {s₁ : PortSystem} {len : Nat} {bytes : List UInt8}
    (h : s.Inv s.Serving) (hpoint : (s.partitions p).point = .firedProduce id len)
    (hp : (s.partitions p).ports[id]? = some port)
    (hs₁ : s.portQueuingSend port.channel bytes = some s₁) :
    (s₁.setPoint p (.fired id)).Inv (s₁.setPoint p (.fired id)).Serving := by
  have hdir : port.direction = .send := by
    have := (h.ports p id port hp).fits
    rw [hpoint] at this
    exact this rfl
  obtain ⟨hinv, hplace⟩ := h.portQueuingSend hp hdir hs₁
  refine hinv.done hplace hp (fun j hj => ?_) (.inr ?_) (fun _ => trivial) fun _ _ => trivial
  · rw [hpoint] at hj
    exact hj
  · rfl

/-- The ring is begun to be drained. -/
theorem beginDrain_inv (h : s.Inv s.Serving) (hpoint : (s.partitions p).point = .again) :
    (s.setPartition p { s.partitions p with isEvent := false, point := .drain }).Inv
      (s.setPartition p { s.partitions p with isEvent := false, point := .drain }).Serving := by
  refine h.advance (fun q j _ hb => hb) (fun _ => .inr trivial) fun j port hp => ?_
  have hok := h.ports p j port hp
  refine ⟨port, hp, rfl, rfl, hok.unused, hok.linked, fun hne => .inr ?_, trivial⟩
  refine (hok.watched hne).resolve_left ?_
  rw [Serving, hpoint]
  exact fun hs => hs

/-- The waits that have expired end. -/
theorem expire_inv {expired : List Nat} (h : s.Inv s.Serving)
    (hpoint : (s.partitions p).point = .timer) :
    (s.setPartition p { (s.partitions p).remove expired with point := .again }).Inv
      (s.setPartition p { (s.partitions p).remove expired with point := .again }).Serving := by
  refine h.remove (fun j hj => hj) (fun hne => ?_) (fun j => ?_) fun _ _ => trivial
  · refine .inl ((h.ring p hne).resolve_right ?_)
    rw [hpoint]
    exact fun hd => hd
  · rw [hpoint]
    exact fun hs => hs

theorem resume_inv {due : Bool} {expired : List Nat} {bytes : List UInt8}
    (h : s.Inv s.Serving) (ht : s.resume p due expired bytes = some t) : t.Inv t.Serving := by
  unfold resume at ht
  cases hpoint : (s.partitions p).point with
  | outside =>
    simp only [hpoint] at ht
    cases ht
  | consume id =>
    simp only [hpoint] at ht
    obtain ⟨port, hp, hf⟩ := Option.bind_eq_some_iff.mp ht
    obtain ⟨s₁, hs₁, rfl⟩ := Option.map_eq_some_iff.mp hf
    exact consume_inv h hpoint hp hs₁
  | produce id len =>
    simp only [hpoint] at ht
    obtain ⟨port, hp, hf⟩ := Option.bind_eq_some_iff.mp ht
    split_ifs at hf
    obtain ⟨s₁, hs₁, rfl⟩ := Option.map_eq_some_iff.mp hf
    exact produce_inv h hpoint hp hs₁
  | again =>
    simp only [hpoint] at ht
    split_ifs at ht
    · exact Option.some.inj ht ▸ beginDrain_inv h hpoint
    · exact Option.some.inj ht ▸ h.moveOn (by simp [hpoint, PortPoint.Serves])
        (by simp [hpoint, PortPoint.Drains]) fun _ _ => trivial
  | drain => exact drain_inv h hpoint ht
  | fired id =>
    simp only [hpoint] at ht
    obtain ⟨port, hp, hf⟩ := Option.bind_eq_some_iff.mp ht
    exact portQueuingFired_inv h hpoint hp hf
  | firedConsume id =>
    simp only [hpoint] at ht
    obtain ⟨port, hp, hf⟩ := Option.bind_eq_some_iff.mp ht
    obtain ⟨s₁, hs₁, rfl⟩ := Option.map_eq_some_iff.mp hf
    exact firedConsume_inv h hpoint hp hs₁
  | firedProduce id len =>
    simp only [hpoint] at ht
    obtain ⟨port, hp, hf⟩ := Option.bind_eq_some_iff.mp ht
    split_ifs at hf
    obtain ⟨s₁, hs₁, rfl⟩ := Option.map_eq_some_iff.mp hf
    exact firedProduce_inv h hpoint hp hs₁
  | timer =>
    simp only [hpoint] at ht
    split_ifs at ht
    · exact Option.some.inj ht ▸ expire_inv h hpoint
    · exact Option.some.inj ht ▸ h.moveOn (by simp [hpoint, PortPoint.Serves])
        (by simp [hpoint, PortPoint.Drains]) fun _ _ => trivial
  | enable =>
    simp only [hpoint] at ht
    refine Option.some.inj ht ▸ h.moveOn (by simp [hpoint, PortPoint.Serves])
      (by simp [hpoint, PortPoint.Drains]) fun _ _ => ?_
    split_ifs <;> trivial

/-- No port is cleared under its waiters, unless an event for it is on its way. -/
def ClearsQuiet (s : PortSystem) (e : Nat × PortInput) : Prop :=
  ∀ id port, e.2 = .clear id → (s.partitions e.1).getPortQueuing id = some (some port) →
    port.direction = .recv → port.waiters = [] ∨ (s.partitions e.1).Pending id

theorem Inv.enter {part : PortPartition} (h : s.Inv s.Serving)
    (hout : (s.partitions p).point = .outside) (hports : part.ports = (s.partitions p).ports)
    (hgen : part.generation = (s.partitions p).generation)
    (hevents : part.events = (s.partitions p).events)
    (hisEvent : part.isEvent = (s.partitions p).isEvent) (hpoint : part.point = .again) :
    (s.setPartition p part).Inv (s.setPartition p part).Serving := by
  refine h.advance (fun q j _ hb => hb) (fun hne => .inl ?_) fun j port hp => ?_
  · rw [hevents] at hne
    rw [hisEvent]
    refine (h.ring p hne).resolve_right ?_
    rw [hout]
    exact fun hd => hd
  · rw [hports] at hp
    have hok := h.ports p j port hp
    rw [hgen, hpoint, PortPartition.Pending, hevents]
    refine ⟨port, hp, rfl, rfl, hok.unused, hok.linked, fun hne => ?_, trivial⟩
    refine .inr ((hok.watched hne).resolve_left ?_)
    rw [Serving, hout]
    exact fun hs => hs

theorem step_inv {e : Nat × PortInput} (h : s.Inv s.Serving) (hok : s.ClearsQuiet e)
    (hst : s.step e = some t) : t.Inv t.Serving := by
  obtain ⟨p, e⟩ := e
  cases e with
  | create id messageSize maxNbMessage direction discipline =>
    simp only [step] at hst
    split_ifs at hst with hout
    obtain ⟨port, hp, rfl⟩ := Option.map_eq_some_iff.mp hst
    exact create_inv h hout hp
  | setModeNormal =>
    simp only [step] at hst
    split_ifs at hst with hout
    obtain rfl := Option.some.inj hst
    exact h.enter hout rfl rfl rfl rfl rfl
  | receive id thread priority mayWait =>
    obtain ⟨hout, rfl | ⟨port, hget, hf⟩⟩ := call_cases hst
    · exact h
    · obtain ⟨hp, hc⟩ := getPortQueuing_eq hget
      split_ifs at hf
      exact receive_inv h hout hp hc hf
  | send id thread priority len mayWait =>
    obtain ⟨hout, rfl | ⟨port, hget, hf⟩⟩ := call_cases hst
    · exact h
    · obtain ⟨hp, hc⟩ := getPortQueuing_eq hget
      split_ifs at hf
      exact send_inv h hout hp hc hf
  | clear id =>
    obtain ⟨hout, rfl | ⟨port, hget, hf⟩⟩ := call_cases hst
    · exact h
    · obtain ⟨hp, hc⟩ := getPortQueuing_eq hget
      obtain rfl := Option.some.inj hf
      exact clear_inv h hout hp hc (hok id port rfl hget)
  | stop thread =>
    simp only [step] at hst
    split_ifs at hst with hout
    obtain rfl := Option.some.inj hst
    refine h.remove (fun j hj => hj) (fun hne => ?_) (fun j => ?_) fun _ _ => trivial
    · refine .inl ((h.ring p hne).resolve_right ?_)
      rw [hout]
      exact fun hd => hd
    · rw [hout]
      exact fun hs => hs
  | timerEvent =>
    simp only [step] at hst
    obtain ⟨part, ha, rfl⟩ := Option.map_eq_some_iff.mp hst
    have hpoint : part.point = (s.partitions p).point := by
      unfold PortPartition.addEvent at ha
      split_ifs at ha
      obtain rfl := Option.some.inj ha
      rfl
    refine h.addEvent ha fun q j hb => .inl ?_
    by_cases hq : q = p
    · subst hq
      rwa [Serving, setPartition_partitions_self, hpoint]
    · rwa [Serving, setPartition_partitions_ne hq]
  | onEvent =>
    simp only [step] at hst
    split_ifs at hst with hout
    obtain rfl := Option.some.inj hst
    exact h.enter hout.1 rfl rfl rfl rfl rfl
  | restart =>
    obtain rfl := Option.some.inj hst
    exact restart_inv h
  | resume due expired bytes => exact resume_inv h hst

/-- The configuration, and the state in which all partitions have just been started. -/
structure Booted (s : PortSystem) : Prop where
  attached : ∀ p (port : QueuingPort), port ∈ (s.partitions p).ports →
    s.part port.channel port.direction = p
  unique : ∀ (p i j : Nat) (port port' : QueuingPort), (s.partitions p).ports[i]? = some port →
    (s.partitions p).ports[j]? = some port' → port.channel = port'.channel →
    port.direction = port'.direction → i = j
  idle : ∀ p (port : QueuingPort), port ∈ (s.partitions p).ports →
    port.isCreated = false ∧ port.waiters = []
  quiet : ∀ p, (s.partitions p).events = [] ∧ (s.partitions p).point = .outside

theorem Booted.inv (h : s.Booted) : s.Inv s.Serving := by
  refine ⟨fun p id port hp => ?_, h.unique, fun p hne => absurd (h.quiet p).1 hne⟩
  have hmem := List.mem_of_getElem? hp
  obtain ⟨hcr, hnil⟩ := h.idle p port hmem
  refine ⟨h.attached p port hmem, fun _ => hnil, fun hc => ?_, fun hne => absurd hnil hne, ?_⟩
  · rw [hcr] at hc
    cases hc
  · rw [(h.quiet p).2]
    trivial

/-- Partition 0 sends to partition 1 over channel 0. -/
def senderAndReceiver : PortSystem where
  partitions p :=
    { generation := 1
      normal := false
      ports := if p = 0 then [⟨[], 0, .send, .fifo, false⟩]
        else if p = 1 then [⟨[], 0, .recv, .fifo, false⟩] else []
      events := []
      eventMax := 3
      isEvent := false
      point := .outside }
  channels _ := ChannelSystem.oneAndTwo.init
  part _ side := match side with
    | .send => 0
    | .recv => 1

theorem senderAndReceiver_booted : senderAndReceiver.Booted := by
  have hports : ∀ p, (senderAndReceiver.partitions p).ports =
      if p = 0 then [⟨[], 0, .send, .fifo, false⟩]
      else if p = 1 then [⟨[], 0, .recv, .fifo, false⟩] else [] := fun _ => rfl
  refine ⟨fun p port hp => ?_, fun p i j port port' hi hj _ _ => ?_, fun p port hp => ?_,
    fun p => ⟨rfl, rfl⟩⟩
  · rw [hports] at hp
    split_ifs at hp with h0 h1
    · obtain rfl := List.mem_singleton.mp hp
      exact h0.symm
    · obtain rfl := List.mem_singleton.mp hp
      exact h1.symm
    · cases hp
  · have hi' := (List.getElem?_eq_some_iff.mp hi).1
    have hj' := (List.getElem?_eq_some_iff.mp hj).1
    rw [hports] at hi' hj'
    split_ifs at hi' hj' <;> simp_all
  · rw [hports] at hp
    split_ifs at hp with h0 h1
    · obtain rfl := List.mem_singleton.mp hp
      exact ⟨rfl, rfl⟩
    · obtain rfl := List.mem_singleton.mp hp
      exact ⟨rfl, rfl⟩
    · cases hp

/-- A section in which nothing is left to do ends. -/
def sectionEnd (p : Nat) : List (Nat × PortInput) :=
  List.replicate 3 (p, .resume false [] [])

/-- Both ports are created, and process 7 of partition 1 waits for a message. -/
def receiverWaits : List (Nat × PortInput) :=
  [(0, .create 0 4 2 .send .fifo), (1, .create 0 4 1 .recv .fifo), (1, .setModeNormal)] ++
    sectionEnd 1 ++ [(1, .receive 0 7 10 true)] ++ sectionEnd 1

/-- A message is sent from partition 0. -/
def senderSends : List (Nat × PortInput) :=
  [(0, .send 0 3 10 1 false), (0, .resume false [] [65])] ++ sectionEnd 0

/-- What the process and its channel look like in the end. -/
def receiverView (t : PortSystem) :
    List QueuingPort × List PartitionEvent × PortPoint × Bool × Nat × Nat :=
  ((t.partitions 1).ports, (t.partitions 1).events, (t.partitions 1).point,
    (t.channels 0).recv.isNotify, (t.channels 0).recv.nextMessage, (t.channels 0).border)

end PortSystem

end Chpok
