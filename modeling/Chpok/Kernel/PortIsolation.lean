import Chpok.Kernel.PortWakeup
import Chpok.Library.Noninterference

/-! Partitions that no channel connects. Whatever the others do with their ports, a set of
partitions that no channel leads into or out of finds its ports, its event rings and its channels
as if it were alone. -/

namespace Chpok

namespace PortPartition

/-- The channels, with their sides, at which the ports of a partition are attached. -/
def wiring (part : PortPartition) : List (Nat × Side) :=
  part.ports.map fun port => (port.channel, port.direction)

theorem mem_wiring {part : PortPartition} {id : Nat} {port : QueuingPort}
    (h : part.ports[id]? = some port) : (port.channel, port.direction) ∈ part.wiring :=
  List.mem_map.mpr ⟨port, List.mem_of_getElem? h, rfl⟩

theorem wiring_setPort {part : PortPartition} {id : Nat} {port port' : QueuingPort}
    (h : part.ports[id]? = some port) (hc : port'.channel = port.channel)
    (hd : port'.direction = port.direction) : (part.setPort id port').wiring = part.wiring := by
  refine List.ext_getElem? fun i => ?_
  simp only [wiring, setPort, List.getElem?_map, List.getElem?_set]
  split_ifs with hi hlt
  · subst hi
    simp [h, hc, hd]
  · subst hi
    rw [List.getElem?_eq_none (Nat.le_of_not_lt hlt)]
  · rfl

theorem wiring_remove (part : PortPartition) (threads : List Nat) :
    (part.remove threads).wiring = part.wiring := by
  simp [wiring, remove, QueuingPort.remove, Function.comp_def]

theorem wiring_restart (part : PortPartition) : part.restart.wiring = part.wiring := by
  simp [wiring, restart, QueuingPort.init, Function.comp_def]

theorem wiring_addEvent {part part' : PortPartition} {event : PartitionEvent}
    (h : part.addEvent event = some part') : part'.wiring = part.wiring := by
  unfold addEvent at h
  split_ifs at h
  obtain rfl := Option.some.inj h
  rfl

end PortPartition

namespace PortSystem

open PortPartition

variable {Q : Nat → Prop} {s s' t t' u : PortSystem} {p q id ch : Nat}

/-- The partition has a port on the channel. -/
def Uses (s : PortSystem) (p ch : Nat) : Prop := ∃ side, (ch, side) ∈ (s.partitions p).wiring

theorem uses_of_port {port : QueuingPort} (h : (s.partitions p).ports[id]? = some port) :
    s.Uses p port.channel := ⟨_, mem_wiring h⟩

/-- What a partition does reaches no further than the channels of its ports. -/
structure Reach (p : Nat) (s t : PortSystem) : Prop where
  part : t.part = s.part
  wiring : ∀ q, (t.partitions q).wiring = (s.partitions q).wiring
  partitions : ∀ q, t.partitions q ≠ s.partitions q →
    q = p ∨ ∃ ch side, s.Uses p ch ∧ q = s.part ch side
  channels : ∀ ch, t.channels ch ≠ s.channels ch → s.Uses p ch

theorem Reach.refl (p : Nat) (s : PortSystem) : Reach p s s :=
  ⟨rfl, fun _ => rfl, fun _ hne => absurd rfl hne, fun _ hne => absurd rfl hne⟩

theorem Reach.uses (h : Reach p s t) : t.Uses q ch ↔ s.Uses q ch := by
  simp only [Uses, h.wiring]

theorem Reach.trans (h : Reach p s t) (h' : Reach p t u) : Reach p s u := by
  refine ⟨h'.part.trans h.part, fun q => (h'.wiring q).trans (h.wiring q), fun q hne => ?_,
    fun ch hne => ?_⟩
  · by_cases he : u.partitions q = t.partitions q
    · exact h.partitions q (he ▸ hne)
    · rcases h'.partitions q he with rfl | ⟨ch, side, huses, rfl⟩
      · exact .inl rfl
      · exact .inr ⟨ch, side, h.uses.mp huses, congrFun (congrFun h.part ch) side⟩
  · by_cases he : u.channels ch = t.channels ch
    · exact h.channels ch (he ▸ hne)
    · exact h.uses.mp (h'.channels ch he)

theorem Reach.setPartition {part : PortPartition} (h : Reach p s t)
    (hq : q = p ∨ ∃ ch side, s.Uses p ch ∧ q = s.part ch side)
    (hw : part.wiring = (t.partitions q).wiring) : Reach p s (t.setPartition q part) := by
  refine ⟨h.part, fun q' => ?_, fun q' hne => ?_, h.channels⟩
  · by_cases he : q' = q
    · subst he
      rw [setPartition_partitions_self, hw, h.wiring]
    · rw [setPartition_partitions_ne he, h.wiring]
  · by_cases he : q' = q
    · exact he ▸ hq
    · exact h.partitions q' (by rwa [setPartition_partitions_ne he] at hne)

theorem Reach.setPoint (h : Reach p s t) (point : PortPoint) : Reach p s (t.setPoint p point) :=
  h.setPartition (.inl rfl) rfl

theorem Reach.setChannel (h : Reach p s t) (huses : s.Uses p ch) (c : ChannelQueuing) :
    Reach p s (t.setChannel ch c) := by
  refine ⟨h.part, h.wiring, h.partitions, fun ch' hne => ?_⟩
  by_cases he : ch' = ch
  · exact he ▸ huses
  · exact h.channels ch' (by rwa [setChannel_channels_ne he] at hne)

theorem Reach.notify {side : Side} {event : Option PartitionEvent} (h : Reach p s t)
    (huses : s.Uses p ch) (hn : t.notify ch side event = some u) : Reach p s u := by
  cases event with
  | none => exact Option.some.inj hn ▸ h
  | some event =>
    obtain ⟨part, hpart, rfl⟩ := Option.map_eq_some_iff.mp hn
    refine h.setPartition (.inr ⟨ch, side, huses, ?_⟩) (wiring_addEvent hpart)
    exact congrFun (congrFun h.part ch) side

theorem portQueuingReceive_reach (huses : s.Uses p ch) (h : s.portQueuingReceive ch = some t) :
    Reach p s t := by
  obtain ⟨r, -, hn⟩ := Option.bind_eq_some_iff.mp h
  exact ((Reach.refl p s).setChannel huses _).notify huses hn

theorem portQueuingSend_reach {bytes : List UInt8} (huses : s.Uses p ch)
    (h : s.portQueuingSend ch bytes = some t) : Reach p s t := by
  obtain ⟨r, -, hn⟩ := Option.bind_eq_some_iff.mp h
  exact ((Reach.refl p s).setChannel huses _).notify huses hn

theorem block_reach {port : QueuingPort} (h : Reach p s t)
    (hp : (t.partitions p).ports[id]? = some port) (w : PortWaiter) :
    Reach p s (t.block p id port w) :=
  h.setPartition (.inl rfl) (wiring_setPort hp rfl rfl)

theorem wakeUp_reach {port : QueuingPort} {rest : List PortWaiter} {point : PortPoint}
    (h : Reach p s t) (hp : (t.partitions p).ports[id]? = some port) :
    Reach p s (t.wakeUp p id port rest point) :=
  h.setPartition (.inl rfl) (wiring_setPort hp rfl rfl)

section

variable {port : QueuingPort} (hp : (s.partitions p).ports[id]? = some port)

include hp

theorem queueUp_reach {mayWait : Bool} {w : PortWaiter} :
    Reach p s (if mayWait then s.block p id port w else s.setPoint p .again) := by
  split_ifs
  · exact block_reach (.refl p s) hp w
  · exact (Reach.refl p s).setPoint _

theorem setChannel_queueUp_reach {mayWait : Bool} {w : PortWaiter} (c : ChannelQueuing) :
    Reach p s (if mayWait then (s.setChannel port.channel c).block p id port w
      else (s.setChannel port.channel c).setPoint p .again) := by
  have hreach := (Reach.refl p s).setChannel (uses_of_port hp) c
  split_ifs
  · exact block_reach hreach hp w
  · exact hreach.setPoint _

theorem receive_reach {w : PortWaiter} {mayWait : Bool}
    (h : s.receive p id port w mayWait = some t) : Reach p s t := by
  unfold receive at h
  split at h
  · exact Option.some.inj h ▸ .refl p s
  split at h
  · exact Option.some.inj h ▸ queueUp_reach hp
  · obtain ⟨⟨c, message⟩, -, rfl⟩ := Option.map_eq_some_iff.mp h
    cases message with
    | none => exact setChannel_queueUp_reach hp c
    | some m => exact ((Reach.refl p s).setChannel (uses_of_port hp) c).setPoint _

theorem send_reach {w : PortWaiter} {mayWait : Bool}
    (h : s.send p id port w mayWait = some t) : Reach p s t := by
  unfold send at h
  split at h
  · exact Option.some.inj h ▸ .refl p s
  split at h
  · exact Option.some.inj h ▸ .refl p s
  split at h
  · exact Option.some.inj h ▸ queueUp_reach hp
  · obtain ⟨⟨c, slot⟩, -, rfl⟩ := Option.map_eq_some_iff.mp h
    cases slot with
    | none => exact setChannel_queueUp_reach hp c
    | some m => exact ((Reach.refl p s).setChannel (uses_of_port hp) c).setPoint _

theorem clear_reach : Reach p s (s.clear p id port) := by
  unfold clear
  split_ifs
  · exact .refl p s
  · exact ((Reach.refl p s).setChannel (uses_of_port hp) _).setPoint _

theorem create_reach {messageSize maxNbMessage : Nat} {direction : Side}
    {discipline : QueuingDiscipline} :
    Reach p s (s.create p id port messageSize maxNbMessage direction discipline) := by
  have hport : Reach p s (s.setPartition p ((s.partitions p).setPort id
      { port with isCreated := true, discipline := discipline })) :=
    (Reach.refl p s).setPartition (.inl rfl) (wiring_setPort hp rfl rfl)
  unfold create
  split_ifs <;> first
    | exact .refl p s
    | exact hport.setChannel (uses_of_port hp) _

theorem portQueuingFired_reach (h : s.portQueuingFired p id port = some t) : Reach p s t := by
  have hlook := fun c => (Reach.refl p s).setChannel (uses_of_port hp) c
  unfold portQueuingFired at h
  split at h
  · exact Option.some.inj h ▸ (Reach.refl p s).setPoint _
  · split at h
    · obtain ⟨⟨c, message⟩, -, rfl⟩ := Option.map_eq_some_iff.mp h
      cases message with
      | none => exact (hlook c).setPoint _
      | some m => exact wakeUp_reach (hlook c) hp
    · obtain ⟨⟨c, slot⟩, -, rfl⟩ := Option.map_eq_some_iff.mp h
      cases slot with
      | none => exact (hlook c).setPoint _
      | some m => exact wakeUp_reach (hlook c) hp

end

theorem resume_reach {due : Bool} {expired : List Nat} {bytes : List UInt8}
    (h : s.resume p due expired bytes = some t) : Reach p s t := by
  unfold resume at h
  split at h
  · cases h
  · obtain ⟨port, hp, hr⟩ := Option.bind_eq_some_iff.mp h
    obtain ⟨m, hm, rfl⟩ := Option.map_eq_some_iff.mp hr
    exact (portQueuingReceive_reach (uses_of_port hp) hm).setPoint _
  · obtain ⟨port, hp, hr⟩ := Option.bind_eq_some_iff.mp h
    split_ifs at hr
    obtain ⟨m, hm, rfl⟩ := Option.map_eq_some_iff.mp hr
    exact (portQueuingSend_reach (uses_of_port hp) hm).setPoint _
  · split_ifs at h
    · exact Option.some.inj h ▸ (Reach.refl p s).setPartition (.inl rfl) rfl
    · exact Option.some.inj h ▸ (Reach.refl p s).setPoint _
  · split at h
    · exact Option.some.inj h ▸ (Reach.refl p s).setPoint _
    · split at h
      · exact Option.some.inj h ▸ (Reach.refl p s).setPartition (.inl rfl) (wiring_remove _ _)
      · exact Option.some.inj h ▸ (Reach.refl p s).setPartition (.inl rfl) rfl
      · exact Option.some.inj h ▸ (Reach.refl p s).setPartition (.inl rfl) rfl
  · obtain ⟨port, hp, hr⟩ := Option.bind_eq_some_iff.mp h
    exact portQueuingFired_reach hp hr
  · obtain ⟨port, hp, hr⟩ := Option.bind_eq_some_iff.mp h
    obtain ⟨m, hm, rfl⟩ := Option.map_eq_some_iff.mp hr
    exact (portQueuingReceive_reach (uses_of_port hp) hm).setPoint _
  · obtain ⟨port, hp, hr⟩ := Option.bind_eq_some_iff.mp h
    split_ifs at hr
    obtain ⟨m, hm, rfl⟩ := Option.map_eq_some_iff.mp hr
    exact (portQueuingSend_reach (uses_of_port hp) hm).setPoint _
  · split_ifs at h
    · exact Option.some.inj h ▸ (Reach.refl p s).setPartition (.inl rfl) (wiring_remove _ _)
    · exact Option.some.inj h ▸ (Reach.refl p s).setPoint _
  · exact Option.some.inj h ▸ (Reach.refl p s).setPoint _

theorem call_reach {f : QueuingPort → Option PortSystem} (h : s.call p id f = some t)
    (hf : ∀ port, (s.partitions p).ports[id]? = some port → f port = some t → Reach p s t) :
    Reach p s t := by
  obtain ⟨-, rfl | ⟨port, hget, hport⟩⟩ := call_cases h
  · exact .refl p t
  · exact hf port (getPortQueuing_eq hget).1 hport

theorem step_reach {e : Nat × PortInput} (h : s.step e = some t) : Reach e.1 s t := by
  obtain ⟨p, e⟩ := e
  cases e with
  | create id messageSize maxNbMessage direction discipline =>
    simp only [step] at h
    split_ifs at h
    obtain ⟨port, hp, rfl⟩ := Option.map_eq_some_iff.mp h
    exact create_reach hp
  | setModeNormal =>
    simp only [step] at h
    split_ifs at h
    exact Option.some.inj h ▸ (Reach.refl p s).setPartition (.inl rfl) rfl
  | receive id thread priority mayWait =>
    refine call_reach h fun port hp hr => ?_
    split_ifs at hr
    exact receive_reach hp hr
  | send id thread priority len mayWait =>
    refine call_reach h fun port hp hr => ?_
    split_ifs at hr
    exact send_reach hp hr
  | clear id =>
    exact call_reach h fun port hp hr => Option.some.inj hr ▸ clear_reach hp
  | stop thread =>
    simp only [step] at h
    split_ifs at h
    exact Option.some.inj h ▸ (Reach.refl p s).setPartition (.inl rfl) (wiring_remove _ _)
  | timerEvent =>
    obtain ⟨part, hpart, rfl⟩ := Option.map_eq_some_iff.mp h
    exact (Reach.refl p s).setPartition (.inl rfl) (wiring_addEvent hpart)
  | onEvent =>
    simp only [step] at h
    split_ifs at h
    exact Option.some.inj h ▸ (Reach.refl p s).setPoint _
  | restart =>
    exact Option.some.inj h ▸ (Reach.refl p s).setPartition (.inl rfl) (wiring_restart _)
  | resume due expired bytes => exact resume_reach h

/-- Every port is at the side of its channel that belongs to its partition, and no channel leads
into the set or out of it. -/
structure Apart (Q : Nat → Prop) (s : PortSystem) : Prop where
  attached : ∀ p ch side, (ch, side) ∈ (s.partitions p).wiring → s.part ch side = p
  separate : ∀ ch, Q (s.part ch .send) ↔ Q (s.part ch .recv)

theorem Apart.of_reach (h : s.Apart Q) (hr : Reach p s t) : t.Apart Q := by
  refine ⟨fun q ch side hw => ?_, fun ch => ?_⟩
  · rw [hr.part]
    exact h.attached q ch side (hr.wiring q ▸ hw)
  · rw [hr.part]
    exact h.separate ch

theorem Apart.side_iff (h : s.Apart Q) (huses : s.Uses p ch) (side : Side) :
    Q (s.part ch side) ↔ Q p := by
  obtain ⟨own, hw⟩ := huses
  have hsep := h.separate ch
  rw [← h.attached p ch own hw]
  cases side <;> cases own <;> simp [hsep]

/-- The partitions of the set and their channels are in the same state. -/
structure Alike (Q : Nat → Prop) (s t : PortSystem) : Prop where
  part : t.part = s.part
  partitions : ∀ p, Q p → t.partitions p = s.partitions p
  channels : ∀ ch, Q (s.part ch .send) → t.channels ch = s.channels ch

theorem alike_equivalence (Q : Nat → Prop) : Equivalence (Alike Q) where
  refl _ := ⟨rfl, fun _ _ => rfl, fun _ _ => rfl⟩
  symm h := ⟨h.part.symm, fun p hp => (h.partitions p hp).symm,
    fun ch hch => (h.channels ch (h.part ▸ hch)).symm⟩
  trans h h' := ⟨h'.part.trans h.part, fun p hp => (h'.partitions p hp).trans (h.partitions p hp),
    fun ch hch => (h'.channels ch (h.part.symm ▸ hch)).trans (h.channels ch hch)⟩

theorem Reach.alike (h : Reach p s t) (ha : s.Apart Q) (hp : ¬ Q p) : Alike Q s t := by
  refine ⟨h.part, fun q hq => ?_, fun ch hch => ?_⟩
  · by_contra hne
    rcases h.partitions q hne with rfl | ⟨ch, side, huses, rfl⟩
    · exact hp hq
    · exact hp ((ha.side_iff huses side).mp hq)
  · by_contra hne
    exact hp ((ha.side_iff (h.channels ch hne) .send).mp hch)

/-! Inputs of the set, in states that look alike -/

theorem Alike.setPartition (h : Alike Q s s') (p : Nat) (part : PortPartition) :
    Alike Q (s.setPartition p part) (s'.setPartition p part) := by
  refine ⟨h.part, fun q hq => ?_, h.channels⟩
  by_cases he : q = p
  · subst he
    simp
  · rw [setPartition_partitions_ne he, setPartition_partitions_ne he, h.partitions q hq]

theorem Alike.setChannel (h : Alike Q s s') (ch : Nat) (c : ChannelQueuing) :
    Alike Q (s.setChannel ch c) (s'.setChannel ch c) := by
  refine ⟨h.part, h.partitions, fun ch' hch => ?_⟩
  by_cases he : ch' = ch
  · subst he
    simp
  · rw [setChannel_channels_ne he, setChannel_channels_ne he, h.channels ch' hch]

section

variable (h : Alike Q s s') (hQ : Q p)

include h hQ

theorem Alike.setPoint (point : PortPoint) : Alike Q (s.setPoint p point) (s'.setPoint p point) := by
  unfold PortSystem.setPoint
  rw [h.partitions p hQ]
  exact h.setPartition p _

theorem Alike.block {id : Nat} (port : QueuingPort) (w : PortWaiter) :
    Alike Q (s.block p id port w) (s'.block p id port w) := by
  unfold PortSystem.block
  rw [h.partitions p hQ]
  exact h.setPartition p _

theorem Alike.wakeUp {id : Nat} (port : QueuingPort) (rest : List PortWaiter) (point : PortPoint) :
    Alike Q (s.wakeUp p id port rest point) (s'.wakeUp p id port rest point) := by
  unfold PortSystem.wakeUp
  rw [h.partitions p hQ]
  exact h.setPartition p _

theorem Alike.queueUp {id : Nat} (port : QueuingPort) (w : PortWaiter) (mayWait : Bool) :
    Alike Q (if mayWait then s.block p id port w else s.setPoint p .again)
      (if mayWait then s'.block p id port w else s'.setPoint p .again) :=
  Lockstep.rel_ite .rfl (fun _ => h.block hQ port w) fun _ => h.setPoint hQ .again

end

theorem Alike.notify (h : Alike Q s s') {side : Side} (hQ : Q (s.part ch side))
    (event : Option PartitionEvent) :
    Option.Rel (Alike Q) (s.notify ch side event) (s'.notify ch side event) := by
  cases event with
  | none => exact .some h
  | some event =>
    unfold PortSystem.notify
    rw [h.part, h.partitions _ hQ]
    exact Lockstep.rel_map (Lockstep.rel_refl _) fun _ part he => he ▸ h.setPartition _ _

section

variable {port : QueuingPort} (h : Alike Q s s') (ha : s.Apart Q) (hQ : Q p)
  (hp : (s.partitions p).ports[id]? = some port)

include h ha hQ hp

theorem Alike.channel : s'.channels port.channel = s.channels port.channel :=
  h.channels _ ((ha.side_iff (uses_of_port hp) .send).mpr hQ)

theorem Alike.sideGeneration (side : Side) :
    s'.sideGeneration port.channel side = s.sideGeneration port.channel side := by
  unfold PortSystem.sideGeneration
  rw [h.part, h.partitions _ ((ha.side_iff (uses_of_port hp) side).mpr hQ)]

theorem Alike.portQueuingReceive : Option.Rel (Alike Q) (s.portQueuingReceive port.channel)
    (s'.portQueuingReceive port.channel) := by
  unfold PortSystem.portQueuingReceive
  rw [h.channel ha hQ hp, h.sideGeneration ha hQ hp]
  refine Lockstep.rel_bind (Lockstep.rel_refl _) fun r _ he => he ▸ ?_
  exact (h.setChannel _ _).notify ((ha.side_iff (uses_of_port hp) .send).mpr hQ) _

theorem Alike.portQueuingSend (bytes : List UInt8) :
    Option.Rel (Alike Q) (s.portQueuingSend port.channel bytes)
      (s'.portQueuingSend port.channel bytes) := by
  unfold PortSystem.portQueuingSend
  rw [h.channel ha hQ hp, h.sideGeneration ha hQ hp]
  refine Lockstep.rel_bind (Lockstep.rel_refl _) fun r _ he => he ▸ ?_
  exact (h.setChannel _ _).notify ((ha.side_iff (uses_of_port hp) .recv).mpr hQ) _

theorem Alike.receive (w : PortWaiter) (mayWait : Bool) :
    Option.Rel (Alike Q) (s.receive p id port w mayWait) (s'.receive p id port w mayWait) := by
  unfold PortSystem.receive
  rw [h.channel ha hQ hp]
  refine Lockstep.rel_ite .rfl (fun _ => .some h) fun _ => ?_
  refine Lockstep.rel_ite .rfl (fun _ => .some (h.queueUp hQ port w mayWait)) fun _ => ?_
  refine Lockstep.rel_map (Lockstep.rel_refl _) fun r _ he => he ▸ ?_
  have hset := h.setChannel port.channel r.1
  cases r.2 with
  | none => exact hset.queueUp hQ port w mayWait
  | some m => exact hset.setPoint hQ _

theorem Alike.send (w : PortWaiter) (mayWait : Bool) :
    Option.Rel (Alike Q) (s.send p id port w mayWait) (s'.send p id port w mayWait) := by
  unfold PortSystem.send
  rw [h.channel ha hQ hp]
  refine Lockstep.rel_ite .rfl (fun _ => .some h) fun _ => ?_
  refine Lockstep.rel_ite .rfl (fun _ => .some h) fun _ => ?_
  refine Lockstep.rel_ite .rfl (fun _ => .some (h.queueUp hQ port w mayWait)) fun _ => ?_
  refine Lockstep.rel_map (Lockstep.rel_refl _) fun r _ he => he ▸ ?_
  have hset := h.setChannel port.channel r.1
  cases r.2 with
  | none => exact hset.queueUp hQ port w mayWait
  | some m => exact hset.setPoint hQ _

theorem Alike.sideInit : Alike Q (s.sideInit p id port) (s'.sideInit p id port) := by
  unfold PortSystem.sideInit
  rw [h.channel ha hQ hp, h.partitions p hQ]
  exact h.setChannel _ _

theorem Alike.clear : Alike Q (s.clear p id port) (s'.clear p id port) :=
  Lockstep.rel_ite .rfl (fun _ => h) fun _ => (h.sideInit ha hQ hp).setPoint hQ _

theorem Alike.create (messageSize maxNbMessage : Nat) (direction : Side)
    (discipline : QueuingDiscipline) :
    Alike Q (s.create p id port messageSize maxNbMessage direction discipline)
      (s'.create p id port messageSize maxNbMessage direction discipline) := by
  unfold PortSystem.create
  rw [h.channel ha hQ hp, h.partitions p hQ]
  refine Lockstep.rel_ite .rfl (fun _ => h) fun _ => ?_
  refine Lockstep.rel_ite .rfl (fun _ => h) fun _ => ?_
  refine Lockstep.rel_ite .rfl (fun _ => h) fun _ => ?_
  refine Lockstep.rel_ite .rfl (fun _ => h) fun _ => ?_
  refine Lockstep.rel_ite .rfl (fun _ => h) fun _ => ?_
  unfold PortSystem.sideInit
  simp only [setPartition_channels, setPartition_partitions_self, h.channel ha hQ hp]
  exact (h.setPartition _ _).setChannel _ _

theorem Alike.portQueuingFired : Option.Rel (Alike Q) (s.portQueuingFired p id port)
    (s'.portQueuingFired p id port) := by
  unfold PortSystem.portQueuingFired
  rw [h.channel ha hQ hp]
  cases port.waiters with
  | nil => exact .some (h.setPoint hQ _)
  | cons t rest =>
    cases port.direction with
    | recv =>
      refine Lockstep.rel_map (Lockstep.rel_refl _) fun r _ he => he ▸ ?_
      have hset := h.setChannel port.channel r.1
      cases r.2 with
      | none => exact hset.setPoint hQ _
      | some m => exact hset.wakeUp hQ port rest _
    | send =>
      refine Lockstep.rel_map (Lockstep.rel_refl _) fun r _ he => he ▸ ?_
      have hset := h.setChannel port.channel r.1
      cases r.2 with
      | none => exact hset.setPoint hQ _
      | some m => exact hset.wakeUp hQ port rest _

end

theorem Alike.withPort (h : Alike Q s s') (hQ : Q p) (f : PortSystem → QueuingPort → Option PortSystem)
    (hf : ∀ port, (s.partitions p).ports[id]? = some port →
      Option.Rel (Alike Q) (f s port) (f s' port)) :
    Option.Rel (Alike Q) ((s.partitions p).ports[id]?.bind (f s))
      ((s'.partitions p).ports[id]?.bind (f s')) := by
  rw [h.partitions p hQ]
  cases hp : (s.partitions p).ports[id]? with
  | none => exact .none
  | some port => exact hf port hp

theorem Alike.call (h : Alike Q s s') (hQ : Q p) {f f' : QueuingPort → Option PortSystem}
    (hf : ∀ port, (s.partitions p).ports[id]? = some port → Option.Rel (Alike Q) (f port) (f' port)) :
    Option.Rel (Alike Q) (s.call p id f) (s'.call p id f') := by
  unfold PortSystem.call
  rw [h.partitions p hQ]
  refine Lockstep.rel_ite .rfl (fun _ => ?_) fun _ => .none
  cases hget : (s.partitions p).getPortQueuing id with
  | none => exact .none
  | some found =>
    cases found with
    | none => exact .some h
    | some port => exact hf port (getPortQueuing_eq hget).1

section

variable (h : Alike Q s s') (ha : s.Apart Q) (hQ : Q p)

include h ha hQ

theorem Alike.resume (due : Bool) (expired : List Nat) (bytes : List UInt8) :
    Option.Rel (Alike Q) (s.resume p due expired bytes) (s'.resume p due expired bytes) := by
  have hpart := h.partitions p hQ
  have hreceive : ∀ id point, Option.Rel (Alike Q)
      ((s.partitions p).ports[id]?.bind fun (port : QueuingPort) =>
        (s.portQueuingReceive port.channel).map (·.setPoint p point))
      ((s'.partitions p).ports[id]?.bind fun (port : QueuingPort) =>
        (s'.portQueuingReceive port.channel).map (·.setPoint p point)) := fun id point =>
    h.withPort hQ (fun s port => (s.portQueuingReceive port.channel).map (·.setPoint p point))
      fun port hp => Lockstep.rel_map (h.portQueuingReceive ha hQ hp) fun _ _ ht => ht.setPoint hQ _
  have hsend : ∀ id len point, Option.Rel (Alike Q)
      ((s.partitions p).ports[id]?.bind fun (port : QueuingPort) => if bytes.length = len then
        (s.portQueuingSend port.channel bytes).map (·.setPoint p point) else none)
      ((s'.partitions p).ports[id]?.bind fun (port : QueuingPort) => if bytes.length = len then
        (s'.portQueuingSend port.channel bytes).map (·.setPoint p point) else none) :=
    fun id len point => h.withPort hQ (fun s port => if bytes.length = len then
        (s.portQueuingSend port.channel bytes).map (·.setPoint p point) else none) fun port hp =>
      Lockstep.rel_ite .rfl (fun _ => Lockstep.rel_map (h.portQueuingSend ha hQ hp bytes)
        fun _ _ ht => ht.setPoint hQ _) fun _ => .none
  unfold PortSystem.resume
  rw [hpart] at hreceive hsend ⊢
  cases (s.partitions p).point with
  | outside => exact .none
  | consume id => exact hreceive id .again
  | produce id len => exact hsend id len .again
  | again =>
    exact Lockstep.rel_ite .rfl (fun _ => .some (h.setPartition p _)) fun _ => .some (h.setPoint hQ _)
  | drain =>
    dsimp only
    cases (s.partitions p).events with
    | nil => exact .some (h.setPoint hQ _)
    | cons event rest =>
      dsimp only
      cases event.eventType <;> exact .some (h.setPartition p _)
  | fired id =>
    have hfired : Option.Rel (Alike Q) ((s.partitions p).ports[id]?.bind (s.portQueuingFired p id))
        ((s'.partitions p).ports[id]?.bind (s'.portQueuingFired p id)) :=
      h.withPort hQ (fun s port => s.portQueuingFired p id port) fun port hp =>
        h.portQueuingFired ha hQ hp
    rwa [hpart] at hfired
  | firedConsume id => exact hreceive id (.fired id)
  | firedProduce id len => exact hsend id len (.fired id)
  | timer =>
    exact Lockstep.rel_ite .rfl (fun _ => .some (h.setPartition p _)) fun _ => .some (h.setPoint hQ _)
  | enable => exact .some (h.setPoint hQ _)

theorem Alike.step (e : PortInput) :
    Option.Rel (Alike Q) (s.step (p, e)) (s'.step (p, e)) := by
  have hpart := h.partitions p hQ
  cases e with
  | create id messageSize maxNbMessage direction discipline =>
    unfold PortSystem.step
    rw [hpart]
    refine Lockstep.rel_ite .rfl (fun _ => ?_) fun _ => .none
    cases hp : (s.partitions p).ports[id]? with
    | none => exact .none
    | some port => exact .some (h.create ha hQ hp _ _ _ _)
  | setModeNormal =>
    unfold PortSystem.step
    rw [hpart]
    exact Lockstep.rel_ite .rfl (fun _ => .some (h.setPartition p _)) fun _ => .none
  | receive id thread priority mayWait =>
    refine h.call hQ fun port hp => ?_
    rw [hpart]
    exact Lockstep.rel_ite .rfl (fun _ => .none) fun _ => h.receive ha hQ hp _ _
  | send id thread priority len mayWait =>
    refine h.call hQ fun port hp => ?_
    rw [hpart]
    exact Lockstep.rel_ite .rfl (fun _ => .none) fun _ => h.send ha hQ hp _ _
  | clear id => exact h.call hQ fun port hp => .some (h.clear ha hQ hp)
  | stop thread =>
    unfold PortSystem.step
    rw [hpart]
    exact Lockstep.rel_ite .rfl (fun _ => .some (h.setPartition p _)) fun _ => .none
  | timerEvent =>
    unfold PortSystem.step
    rw [hpart]
    exact Lockstep.rel_map (Lockstep.rel_refl _) fun _ part he => he ▸ h.setPartition p _
  | onEvent =>
    unfold PortSystem.step
    rw [hpart]
    exact Lockstep.rel_ite .rfl (fun _ => .some (h.setPoint hQ _)) fun _ => .none
  | restart =>
    unfold PortSystem.step
    rw [hpart]
    exact .some (h.setPartition p _)
  | resume due expired bytes => exact h.resume ha hQ due expired bytes

end

theorem unwinding (Q : Nat → Prop) :
    Noninterference.Unwinding step (Apart Q) (Alike Q) fun e => Q e.1 where
  equivalence := alike_equivalence Q
  keeps _ _ _ ha he := ha.of_reach (step_reach he)
  foreign _ _ _ ha hQ he := (step_reach he).alike ha hQ
  consistent _ _ e ha _ h hQ := h.step ha hQ e.2

/-- What the partitions outside a set without channels to it do can be left out of a run: the set
then does the same and ends in the same state, messages, ports, events and generations included.
So it ends alike in any two runs in which it does the same. -/
theorem partitions_isolated {Q : Nat → Prop} [DecidablePred Q] {s t : PortSystem}
    (ha : s.Apart Q) {es : List (Nat × PortInput)} (h : Run.exec step s es = some t) :
    (∃ u, Run.exec step s (es.filter fun e => Q e.1) = some u ∧ Alike Q t u) ∧
      ∀ s' t' es', s'.Apart Q → Alike Q s s' →
        (es.filter fun e => Q e.1) = es'.filter (fun e => Q e.1) →
        Run.exec step s' es' = some t' → Alike Q t t' :=
  ⟨(unwinding Q).purge ha ha ((alike_equivalence Q).refl s) h,
    fun _ _ _ ha' hss hfilter h' => (unwinding Q).alike_of_filter_eq ha ha' hss hfilter h h'⟩

/-- Partition `2 * ch` sends to partition `2 * ch + 1` over channel `ch`. -/
def sendersAndReceivers : PortSystem where
  partitions p :=
    { generation := 1
      normal := false
      ports := [⟨[], p / 2, if p % 2 = 0 then .send else .recv, .fifo, false⟩]
      events := []
      eventMax := 3
      isEvent := false
      point := .outside }
  channels _ := ChannelSystem.oneAndTwo.init
  part ch side := match side with
    | .send => 2 * ch
    | .recv => 2 * ch + 1

theorem sendersAndReceivers_apart : sendersAndReceivers.Apart (· < 2) := by
  refine ⟨fun p ch side hw => ?_, fun ch => ?_⟩
  · have hside : (ch, side) = (p / 2, if p % 2 = 0 then Side.send else .recv) :=
      List.mem_singleton.mp hw
    obtain ⟨rfl, rfl⟩ := Prod.mk.inj hside
    split_ifs with heven
    · exact Nat.mul_div_cancel' (Nat.dvd_of_mod_eq_zero heven)
    · show 2 * (p / 2) + 1 = p
      omega
  · show 2 * ch < 2 ↔ 2 * ch + 1 < 2
    omega

/-- One pair exchanges a message while the sender of another opens its port and restarts. -/
theorem partitions_isolated_sendersAndReceivers :
    ∃ t u, Run.exec step sendersAndReceivers
        [(0, .create 0 4 2 .send .fifo), (2, .create 0 4 2 .send .fifo),
          (1, .create 0 4 1 .recv .fifo), (2, .send 0 3 10 1 false), (0, .send 0 3 10 1 false),
          (2, .resume false [] [66]), (0, .resume false [] [65]), (2, .restart)] = some t ∧
      Run.exec step sendersAndReceivers
        [(0, .create 0 4 2 .send .fifo), (1, .create 0 4 1 .recv .fifo),
          (0, .send 0 3 10 1 false), (0, .resume false [] [65])] = some u ∧
      Alike (· < 2) t u ∧ (u.channels 0).content 0 1 = [65] := by
  refine ⟨_, _, rfl, rfl, ?_, rfl⟩
  have hrun : Run.exec step sendersAndReceivers
      [(0, .create 0 4 2 .send .fifo), (2, .create 0 4 2 .send .fifo),
        (1, .create 0 4 1 .recv .fifo), (2, .send 0 3 10 1 false), (0, .send 0 3 10 1 false),
        (2, .resume false [] [66]), (0, .resume false [] [65]), (2, .restart)] = some _ := rfl
  obtain ⟨⟨u, hu, halike⟩, -⟩ := partitions_isolated sendersAndReceivers_apart hrun
  obtain rfl := Option.some.inj hu
  exact halike

end PortSystem

end Chpok
