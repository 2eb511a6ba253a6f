import Chpok.Kernel.ChannelFifo
import Chpok.Kernel.PortIsolation
import Chpok.Kernel.RingOverflow

/-! Each channel, seen from its two ports. A run of all partitions, with blocked callers served by
`port_queuing_fired`, restarts and refused calls, is for each channel a run of the channel system:
what passes through the ports is what passes through the channel. -/

namespace Chpok

namespace PortPoint

/-- The code is between the two operations of a transfer at the port. -/
def Uses (id : Nat) : PortPoint → Prop
  | .consume i | .firedConsume i | .produce i _ | .firedProduce i _ => i = id
  | _ => False

end PortPoint

namespace PortPartition

/-- What a channel can tell of a partition: its generation, and which ports are created. -/
def stamp (part : PortPartition) : Nat × List (Nat × Side × Bool) :=
  (part.generation, part.ports.map fun port => (port.channel, port.direction, port.isCreated))

theorem stamp_setPort {part : PortPartition} {id : Nat} {port port' : QueuingPort}
    {point : PortPoint} (h : part.ports[id]? = some port) (hc : port'.channel = port.channel)
    (hd : port'.direction = port.direction) (hcr : port'.isCreated = port.isCreated) :
    stamp { part.setPort id port' with point := point } = part.stamp := by
  refine Prod.ext rfl (List.ext_getElem? fun i => ?_)
  simp only [stamp, setPort, List.getElem?_map, List.getElem?_set]
  split_ifs with hi hlt
  · subst hi
    simp [h, hc, hd, hcr]
  · subst hi
    rw [List.getElem?_eq_none (Nat.le_of_not_lt hlt)]
  · rfl

theorem stamp_remove (part : PortPartition) (threads : List Nat) :
    (part.remove threads).stamp = part.stamp := by
  simp [stamp, remove, QueuingPort.remove, Function.comp_def]

theorem stamp_addEvent {part part' : PortPartition} {event : PartitionEvent}
    (h : part.addEvent event = some part') : part'.stamp = part.stamp := by
  unfold addEvent at h
  split_ifs at h
  obtain rfl := Option.some.inj h
  rfl

/-- The port at which a transfer has been begun is created. -/
def Held (part : PortPartition) : Prop :=
  ∀ id, part.point.Uses id → ∃ p, part.stamp.2[id]? = some p ∧ p.2.2 = true

theorem held_of_port {part : PortPartition} {id : Nat} {port : QueuingPort}
    (h : part.ports[id]? = some port) (hcr : port.isCreated = true)
    (huses : ∀ j, part.point.Uses j → j = id) : part.Held := by
  intro j hj
  obtain rfl := huses j hj
  exact ⟨(port.channel, port.direction, port.isCreated), by simp [stamp, h], hcr⟩

theorem Held.port {part : PortPartition} {id : Nat} {port : QueuingPort} (h : part.Held)
    (huses : part.point.Uses id) (hp : part.ports[id]? = some port) : port.isCreated = true := by
  obtain ⟨x, hx, hcr⟩ := h id huses
  simp only [stamp, List.getElem?_map, hp, Option.map_some, Option.some.injEq] at hx
  subst hx
  exact hcr

theorem held_of_eq {part part' : PortPartition} (h : part.Held)
    (hpoint : part'.point = part.point) (hstamp : part'.stamp = part.stamp) : part'.Held := by
  unfold Held
  rw [hpoint, hstamp]
  exact h

/-- Whether a port at the side of the channel is created. -/
def created (part : PortPartition) (ch : Nat) (side : Side) : Bool :=
  part.stamp.2.any fun p => p.1 == ch && p.2.1 == side && p.2.2

theorem created_iff {part : PortPartition} {ch : Nat} {side : Side} :
    part.created ch side = true ↔ ∃ (id : Nat) (port : QueuingPort), part.ports[id]? = some port ∧
      port.channel = ch ∧ port.direction = side ∧ port.isCreated = true := by
  simp only [created, stamp, List.any_map, List.any_eq_true, Function.comp_apply,
    Bool.and_eq_true, beq_iff_eq]
  constructor
  · rintro ⟨port, hmem, ⟨hc, hd⟩, hcr⟩
    obtain ⟨id, hid⟩ := List.mem_iff_getElem?.mp hmem
    exact ⟨id, port, hid, hc, hd, hcr⟩
  · rintro ⟨id, port, hid, hc, hd, hcr⟩
    exact ⟨port, List.mem_of_getElem? hid, ⟨hc, hd⟩, hcr⟩

end PortPartition

namespace PortSystem

open ChannelQueuing PortPartition ChannelOutput StagedFifo

variable {s t u : PortSystem} {p id ch : Nat} {port : QueuingPort}

/-- A channel with its two ports. -/
def view (s : PortSystem) (ch : Nat) : ChannelSystem where
  channel := s.channels ch
  sendGeneration := s.sideGeneration ch .send
  recvGeneration := s.sideGeneration ch .recv
  sendCreated := (s.partitions (s.part ch .send)).created ch .send
  recvCreated := (s.partitions (s.part ch .recv)).created ch .recv

/-- The ports and the generations are the same. -/
structure SameStamps (s t : PortSystem) : Prop where
  part : t.part = s.part
  stamp : ∀ q, (t.partitions q).stamp = (s.partitions q).stamp

theorem SameStamps.refl (s : PortSystem) : SameStamps s s := ⟨rfl, fun _ => rfl⟩

theorem SameStamps.setPartition {part : PortPartition} (h : SameStamps s t)
    (hpart : part.stamp = (t.partitions p).stamp) : SameStamps s (t.setPartition p part) := by
  refine ⟨h.part, fun q => ?_⟩
  by_cases hq : q = p
  · subst hq
    rw [setPartition_partitions_self, hpart, h.stamp]
  · rw [setPartition_partitions_ne hq, h.stamp]

theorem SameStamps.notify {side : Side} {event : Option PartitionEvent} (h : SameStamps s t)
    (hn : t.notify ch side event = some u) : SameStamps s u ∧ u.channels = t.channels := by
  cases event with
  | none => exact Option.some.inj hn ▸ ⟨h, rfl⟩
  | some event =>
    obtain ⟨part, hpart, rfl⟩ := Option.map_eq_some_iff.mp hn
    exact ⟨h.setPartition (stamp_addEvent hpart), rfl⟩

theorem SameStamps.view_eq (h : SameStamps s t) (ch : Nat) :
    t.view ch = { s.view ch with channel := t.channels ch } := by
  have hgen : ∀ side, t.sideGeneration ch side = s.sideGeneration ch side := fun side => by
    unfold sideGeneration
    rw [h.part]
    exact congrArg Prod.fst (h.stamp _)
  have hcreated : ∀ side, (t.partitions (t.part ch side)).created ch side =
      (s.partitions (s.part ch side)).created ch side := fun side => by
    unfold created
    rw [h.part, h.stamp]
  simp only [view, hgen, hcreated]

theorem view_created (hw : Wired s) (hp : (s.partitions p).ports[id]? = some port) :
    (s.partitions p).created port.channel port.direction = port.isCreated := by
  rw [Bool.eq_iff_iff, created_iff]
  constructor
  · rintro ⟨j, port', hj, hc, hd, hcr⟩
    obtain rfl := hw.unique p j id port' port hj hp hc hd
    rwa [← Option.some.inj (hj.symm.trans hp)]
  · exact fun hcr => ⟨id, port, hp, rfl, rfl, hcr⟩

/-- The run of a channel that goes with what has been done at its ports, and the messages that
have passed through it. In `calm` no port of the channel has been opened or closed. -/
def Projects (calm : Prop) (ch : Nat) (s t : PortSystem) (passed : List (Act (List UInt8))) :
    Prop :=
  ∀ outs, ∃ is outs', Run.exec (Run.record ChannelSystem.step) (s.view ch, outs) is =
    some (t.view ch, outs') ∧ acts outs' = acts outs ++ passed ∧
      (calm → ∀ i ∈ is, i.IsTransfer)

variable {calm : Prop}

theorem Projects.of_view_eq (h : t.view ch = s.view ch) : Projects calm ch s t [] :=
  fun outs => ⟨[], outs, by rw [h]; rfl, by simp, by simp⟩

theorem Projects.trans {passed passed' : List (Act (List UInt8))}
    (h : Projects calm ch s t passed) (h' : Projects calm ch t u passed') :
    Projects calm ch s u (passed ++ passed') := by
  intro outs
  obtain ⟨is, outs', hrun, hacts, his⟩ := h outs
  obtain ⟨is', outs'', hrun', hacts', his'⟩ := h' outs'
  refine ⟨is ++ is', outs'', Run.exec_append.mpr ⟨_, hrun, hrun'⟩,
    by rw [hacts', hacts, List.append_assoc], fun hcalm i hi => ?_⟩
  exact (List.mem_append.mp hi).elim (his hcalm i) (his' hcalm i)

theorem Projects.mono {calm' : Prop} {passed : List (Act (List UInt8))} (himp : calm' → calm)
    (h : Projects calm ch s t passed) : Projects calm' ch s t passed := by
  intro outs
  obtain ⟨is, outs', hrun, hacts, his⟩ := h outs
  exact ⟨is, outs', hrun, hacts, fun hcalm => his (himp hcalm)⟩

/-- A port is opened or closed. -/
theorem Projects.disturb {i : ChannelInput} (hcalm : ¬ calm)
    (h : (s.view ch).step i = some (t.view ch, .done)) : Projects calm ch s t [] :=
  fun outs => ⟨[i], outs ++ [.done], by simp [Run.exec, Run.record, h],
    by rw [acts_snoc]; rfl, fun hc => absurd hc hcalm⟩

theorem Projects.of_same (h : SameStamps s t) (hch : t.channels ch = s.channels ch) :
    Projects calm ch s t [] := .of_view_eq (by rw [h.view_eq, hch]; rfl)

theorem SameStamps.setChannel (h : SameStamps s t) (ch : Nat) (c : ChannelQueuing) :
    SameStamps s (t.setChannel ch c) := ⟨h.part, h.stamp⟩

/-! Operations on a channel by a port that is created -/

/-- An operation on one channel leaves the others as they are. -/
theorem Projects.operate {ch' : Nat} {c : ChannelQueuing} (moved : Nat → List (Act (List UInt8)))
    (h : SameStamps s t) (hch : t.channels = Function.update s.channels ch' c)
    (hstep : ∀ outs, ∃ is outs', Run.exec (Run.record ChannelSystem.step) (s.view ch', outs) is =
      some ({ s.view ch' with channel := c }, outs') ∧ acts outs' = acts outs ++ moved ch' ∧
        ∀ i ∈ is, i.IsTransfer) :
    Projects calm ch s t (if ch = ch' then moved ch else []) := by
  split_ifs with he
  · subst he
    intro outs
    rw [h.view_eq, hch, Function.update_self]
    obtain ⟨is, outs', hrun, hacts, his⟩ := hstep outs
    exact ⟨is, outs', hrun, hacts, fun _ => his⟩
  · exact .of_same h (by rw [hch, Function.update_of_ne he])

theorem Projects.quiet {ch' : Nat} {c : ChannelQueuing} {i : ChannelInput} {o : ChannelOutput}
    (h : SameStamps s t) (hch : t.channels = Function.update s.channels ch' c)
    (hstep : (s.view ch').step i = some ({ s.view ch' with channel := c }, o))
    (ho : o.act = none) (hi : i.IsTransfer) : Projects calm ch s t [] := by
  have hcall : Projects calm ch s t (if ch = ch' then [] else []) :=
    .operate (fun _ => []) h hch fun outs => ⟨[i], outs ++ [o],
      by simp [Run.exec, Run.record, hstep], by simp [acts_snoc, ho], by simpa⟩
  rwa [ite_self] at hcall

/-- The message that is about to be taken out of a channel, with what its receiver is told about
those before it. -/
def nextConsumed (s : PortSystem) (ch : Nat) : Act (List UInt8) :=
  .consumed ((s.channels ch).messageIn (s.channels ch).recv.nextMessage)
    (s.channels ch).messageDiscarded

/-- The message that has just been given to a channel; it is dropped when the sender's position
does not move on. -/
def lastProduced (s t : PortSystem) (ch : Nat) (bytes : List UInt8) : Act (List UInt8) :=
  .produced bytes ((t.channels ch).send.nextMessage == (s.channels ch).send.nextMessage)

theorem content_fill (c : ChannelQueuing) (pos : Nat) (bytes : List UInt8) :
    (c.fill pos bytes).content pos bytes.length = bytes := by
  refine List.ext_getElem (by simp [content]) fun i hi hi' => ?_
  simp [content, fill, List.getElem?_eq_getElem hi']

section

variable (hw : Wired s) (hp : (s.partitions p).ports[id]? = some port)

include hw hp

theorem view_recvCreated (hcr : port.isCreated = true) (hd : port.direction = .recv) :
    (s.view port.channel).recvCreated = true := by
  show (s.partitions (s.part port.channel .recv)).created port.channel .recv = true
  rw [← hd, hw.attached p id port hp, view_created hw hp, hcr]

theorem view_sendCreated (hcr : port.isCreated = true) (hd : port.direction = .send) :
    (s.view port.channel).sendCreated = true := by
  show (s.partitions (s.part port.channel .send)).created port.channel .send = true
  rw [← hd, hw.attached p id port hp, view_created hw hp, hcr]

theorem sideGeneration_self :
    s.sideGeneration port.channel port.direction = (s.partitions p).generation := by
  rw [sideGeneration, hw.attached p id port hp]

theorem projects_rGetMessage (hcr : port.isCreated = true) (hd : port.direction = .recv)
    {subscribe : Bool} {r : ChannelQueuing × Option (Nat × Nat)}
    (hr : (s.channels port.channel).rGetMessage subscribe = some r) (h : SameStamps s t)
    (hch : t.channels = Function.update s.channels port.channel r.1) : Projects calm ch s t [] := by
  have hstep : (s.view port.channel).step (.rGetMessage subscribe) =
      some ({ s.view port.channel with channel := r.1 },
        .rMessage (r.2.map fun m => (s.channels port.channel).content m.1 m.2)) := by
    simp only [ChannelSystem.step, view_recvCreated hw hp hcr hd, if_true]
    exact (congrArg _ hr).trans rfl
  exact .quiet h hch hstep rfl trivial

theorem projects_sGetMessage (hcr : port.isCreated = true) (hd : port.direction = .send)
    {subscribe : Bool} {r : ChannelQueuing × Option Nat}
    (hr : (s.channels port.channel).sGetMessage subscribe = some r) (h : SameStamps s t)
    (hch : t.channels = Function.update s.channels port.channel r.1) : Projects calm ch s t [] := by
  have hstep : (s.view port.channel).step (.sGetMessage subscribe) =
      some ({ s.view port.channel with channel := r.1 }, .sSlot r.2) := by
    simp only [ChannelSystem.step, view_sendCreated hw hp hcr hd, if_true]
    exact (congrArg _ hr).trans rfl
  exact .quiet h hch hstep rfl trivial

theorem projects_receive (hcr : port.isCreated = true) (hd : port.direction = .recv)
    (h : s.portQueuingReceive port.channel = some t) :
    SameStamps s t ∧
      Projects calm ch s t (if ch = port.channel then [s.nextConsumed ch] else []) := by
  obtain ⟨r, hr, hn⟩ := Option.bind_eq_some_iff.mp h
  obtain ⟨hsame, hch⟩ := ((SameStamps.refl s).setChannel port.channel r.1).notify hn
  have hflag : r.2.1 = (s.channels port.channel).messageDiscarded := by
    unfold rConsumeMessage at hr
    split_ifs at hr
    rw [← Option.some.inj hr]
  have hstep : (s.view port.channel).step .rConsumeMessage =
      some ({ s.view port.channel with channel := r.1 },
        .consumed ((s.channels port.channel).messageIn
          (s.channels port.channel).recv.nextMessage) r.2.1) := by
    simp only [ChannelSystem.step, view_recvCreated hw hp hcr hd, if_true]
    exact (congrArg _ hr).trans rfl
  rw [hflag] at hstep
  exact ⟨hsame, .operate (fun ch => [s.nextConsumed ch]) hsame hch fun outs =>
    ⟨[.rConsumeMessage], outs ++ [.consumed ((s.channels port.channel).messageIn
      (s.channels port.channel).recv.nextMessage) (s.channels port.channel).messageDiscarded],
      by simp [Run.exec, Run.record, hstep], acts_snoc outs _, by simp [ChannelInput.IsTransfer]⟩⟩

theorem projects_send (hb : ChannelBound (s.channels port.channel)) (hcr : port.isCreated = true)
    (hd : port.direction = .send) {bytes : List UInt8}
    (h : s.portQueuingSend port.channel bytes = some t) :
    SameStamps s t ∧ Projects calm ch s t
      (if ch = port.channel then [lastProduced s t ch bytes] else []) := by
  obtain ⟨r, hr, hn⟩ := Option.bind_eq_some_iff.mp h
  obtain ⟨hsame, hch⟩ := ((SameStamps.refl s).setChannel port.channel r.1).notify hn
  have hnew : t.channels port.channel = r.1 := by
    rw [hch, setChannel_channels_self]
  have hroom : (s.channels port.channel).sNMessages < (s.channels port.channel).send.maxNbMessage := by
    unfold sProduceMessage at hr
    split_ifs at hr with hassert
    exact hassert.1
  have hget : (s.channels port.channel).sGetMessage false =
      some (s.channels port.channel, some (s.channels port.channel).send.nextMessage) := by
    unfold sNMessages at hroom
    unfold sGetMessage messageAt
    rw [if_pos hroom, if_pos hb.inRing.send]
    rfl
  have hfill : (s.view port.channel).step (.sFill bytes) =
      some ({ s.view port.channel with
        channel := (s.channels port.channel).fill (s.channels port.channel).send.nextMessage bytes },
        .filled bytes) := by
    simp only [ChannelSystem.step, view_sendCreated hw hp hcr hd, if_true]
    exact (congrArg (Option.bind · _) hget).trans rfl
  have hproduce : ChannelSystem.step { s.view port.channel with
      channel := (s.channels port.channel).fill (s.channels port.channel).send.nextMessage bytes }
      (.sProduceMessage bytes.length) =
      some ({ s.view port.channel with channel := r.1 }, .produced bytes
        (r.1.send.nextMessage == (s.channels port.channel).send.nextMessage)) := by
    simp only [ChannelSystem.step, view_sendCreated hw hp hcr hd, if_true]
    refine (congrArg _ hr).trans ?_
    exact congrArg (fun message => some (_, ChannelOutput.produced message _)) (content_fill _ _ _)
  refine ⟨hsame, .operate (fun ch => [lastProduced s t ch bytes]) hsame hch fun outs =>
    ⟨[.sFill bytes, .sProduceMessage bytes.length], outs ++ [.filled bytes] ++ [.produced bytes
      (r.1.send.nextMessage == (s.channels port.channel).send.nextMessage)], ?_, ?_,
      by simp [ChannelInput.IsTransfer]⟩⟩
  · simp [Run.exec, Run.record, hfill, hproduce]
  · rw [acts_snoc, acts_snoc, lastProduced, hnew]
    simp [act]

end

/-! Steps of the partitions -/

/-- The port is on the channel. -/
def PortOn (s : PortSystem) (p id ch : Nat) : Prop :=
  (s.partitions p).ports[id]?.map (·.channel) = some ch

instance (s : PortSystem) (p id ch : Nat) : Decidable (s.PortOn p id ch) :=
  inferInstanceAs (Decidable (_ = _))

theorem portOn_iff (hp : (s.partitions p).ports[id]? = some port) :
    s.PortOn p id ch ↔ ch = port.channel := by
  simp [PortOn, hp, eq_comm]

/-- Both ports of the channel are created. -/
def BothCreated (s : PortSystem) (ch : Nat) : Prop :=
  ∀ side, (s.partitions (s.part ch side)).created ch side = true

/-- The step neither restarts a partition of the channel nor clears the receiver's port. -/
structure LeavesOpen (ch : Nat) (s : PortSystem) (e : Nat × PortInput) : Prop where
  restart : e.2 = .restart → ∀ side, s.part ch side ≠ e.1
  clear : ∀ id, e.2 = .clear id → ¬ s.PortOn e.1 id ch


/-- No partition has begun a transfer at a port that is not created. -/
def AllHeld (s : PortSystem) : Prop := ∀ p, (s.partitions p).Held

theorem AllHeld.setPartition {part : PortPartition} (h : s.AllHeld) (hpart : part.Held) :
    (s.setPartition p part).AllHeld := by
  intro q
  by_cases hq : q = p
  · subst hq
    rwa [setPartition_partitions_self]
  · rw [setPartition_partitions_ne hq]
    exact h q

theorem AllHeld.setPoint {point : PortPoint} (h : s.AllHeld) (hpoint : ∀ id, ¬ point.Uses id) :
    (s.setPoint p point).AllHeld :=
  h.setPartition fun id hid => absurd hid (hpoint id)

theorem AllHeld.notify {side : Side} {event : Option PartitionEvent} (h : s.AllHeld)
    (hn : s.notify ch side event = some t) : t.AllHeld := by
  cases event with
  | none => exact Option.some.inj hn ▸ h
  | some event =>
    obtain ⟨part, hpart, rfl⟩ := Option.map_eq_some_iff.mp hn
    have hpoint : part.point = (s.partitions (s.part ch side)).point := by
      rw [addEvent_eq hpart]
    exact h.setPartition (held_of_eq (h _) hpoint (stamp_addEvent hpart))

/-- A step goes with a run of the channel, and no transfer is begun at a port that is not
created. -/
structure Ahead (calm : Prop) (ch : Nat) (s t : PortSystem) (passed : List (Act (List UInt8))) :
    Prop where
  projects : Projects calm ch s t passed
  held : t.AllHeld

theorem Ahead.stay (h : SameStamps s t) (hch : t.channels = s.channels) (hheld : t.AllHeld) :
    Ahead calm ch s t [] := ⟨.of_same h (by rw [hch]), hheld⟩

theorem SameStamps.setPoint (h : SameStamps s t) (point : PortPoint) :
    SameStamps s (t.setPoint p point) := h.setPartition rfl

theorem Ahead.setPoint {point : PortPoint} {passed : List (Act (List UInt8))}
    (h : Ahead calm ch s t passed) (hpoint : ∀ id, ¬ point.Uses id) :
    Ahead calm ch s (t.setPoint p point) passed := by
  have hpoints : Projects calm ch t (t.setPoint p point) [] :=
    .of_same ((SameStamps.refl t).setPoint point) rfl
  refine ⟨?_, h.held.setPoint hpoint⟩
  simpa using h.projects.trans hpoints

section

variable (hheld : s.AllHeld) (hw : Wired s) (hp : (s.partitions p).ports[id]? = some port)

include hheld hp

theorem ahead_block (w : PortWaiter) : Ahead calm ch s (s.block p id port w) [] := by
  refine .stay ((SameStamps.refl s).setPartition (stamp_setPort hp rfl rfl rfl)) rfl ?_
  exact hheld.setPartition fun id hid => hid.elim

theorem ahead_queueUp {mayWait : Bool} {w : PortWaiter} :
    Ahead calm ch s (if mayWait then s.block p id port w else s.setPoint p .again) [] := by
  split_ifs
  · exact ahead_block hheld hp w
  · exact .stay ((SameStamps.refl s).setPoint _) rfl (hheld.setPoint fun _ hid => hid)

include hw

theorem ahead_receive (hcr : port.isCreated = true) {w : PortWaiter} {mayWait : Bool}
    (h : s.receive p id port w mayWait = some t) : Ahead calm ch s t [] := by
  unfold receive at h
  split at h
  · exact Option.some.inj h ▸ .stay (.refl s) rfl hheld
  rename_i hd
  split at h
  · exact Option.some.inj h ▸ ahead_queueUp hheld hp
  · obtain ⟨⟨c, message⟩, hr, rfl⟩ := Option.map_eq_some_iff.mp h
    have hd : port.direction = .recv := by simpa using hd
    have hproj : ∀ t, SameStamps s t → t.channels = Function.update s.channels port.channel c →
        Projects calm ch s t [] := fun t hsame hch => projects_rGetMessage hw hp hcr hd hr hsame hch
    have hset := (SameStamps.refl s).setChannel port.channel c
    cases message with
    | none =>
      dsimp only
      split_ifs
      · exact ⟨hproj _ (hset.setPartition (stamp_setPort hp rfl rfl rfl)) rfl,
          hheld.setPartition fun id hid => hid.elim⟩
      · exact ⟨hproj _ (hset.setPoint _) rfl, hheld.setPoint fun _ hid => hid⟩
    | some m =>
      exact ⟨hproj _ (hset.setPoint _) rfl,
        hheld.setPartition (held_of_port hp hcr fun j hj => Eq.symm hj)⟩

theorem ahead_send (hcr : port.isCreated = true) {w : PortWaiter} {mayWait : Bool}
    (h : s.send p id port w mayWait = some t) : Ahead calm ch s t [] := by
  unfold send at h
  split at h
  · exact Option.some.inj h ▸ .stay (.refl s) rfl hheld
  rename_i hd
  split at h
  · exact Option.some.inj h ▸ .stay (.refl s) rfl hheld
  split at h
  · exact Option.some.inj h ▸ ahead_queueUp hheld hp
  · obtain ⟨⟨c, slot⟩, hr, rfl⟩ := Option.map_eq_some_iff.mp h
    have hd : port.direction = .send := by simpa using hd
    have hproj : ∀ t, SameStamps s t → t.channels = Function.update s.channels port.channel c →
        Projects calm ch s t [] := fun t hsame hch => projects_sGetMessage hw hp hcr hd hr hsame hch
    have hset := (SameStamps.refl s).setChannel port.channel c
    cases slot with
    | none =>
      dsimp only
      split_ifs
      · exact ⟨hproj _ (hset.setPartition (stamp_setPort hp rfl rfl rfl)) rfl,
          hheld.setPartition fun id hid => hid.elim⟩
      · exact ⟨hproj _ (hset.setPoint _) rfl, hheld.setPoint fun _ hid => hid⟩
    | some m =>
      exact ⟨hproj _ (hset.setPoint _) rfl,
        hheld.setPartition (held_of_port hp hcr fun j hj => Eq.symm hj)⟩

theorem ahead_portQueuingFired (hidle : port.isCreated = false → port.waiters = [])
    (h : s.portQueuingFired p id port = some t) : Ahead calm ch s t [] := by
  have hdrain : (s.setPoint p .drain).AllHeld := hheld.setPoint fun _ hid => hid
  unfold portQueuingFired at h
  split at h
  · exact Option.some.inj h ▸ .stay ((SameStamps.refl s).setPoint _) rfl hdrain
  · rename_i w rest hwaiters
    have hcr : port.isCreated = true := by
      by_contra hc
      rw [hidle (by simpa using hc)] at hwaiters
      cases hwaiters
    have hwoken : ({ port with waiters := rest } : QueuingPort).isCreated = true := hcr
    have hport : ((s.partitions p).setPort id { port with waiters := rest }).ports[id]? =
        some { port with waiters := rest } := by
      simp [setPort, (List.getElem?_eq_some_iff.mp hp).1]
    split at h
    · rename_i hd
      obtain ⟨⟨c, message⟩, hr, rfl⟩ := Option.map_eq_some_iff.mp h
      have hset := (SameStamps.refl s).setChannel port.channel c
      cases message with
      | none =>
        exact ⟨projects_rGetMessage hw hp hcr hd hr (hset.setPoint _) rfl, hdrain⟩
      | some m =>
        exact ⟨projects_rGetMessage hw hp hcr hd hr
            (hset.setPartition (stamp_setPort hp rfl rfl rfl)) rfl,
          hheld.setPartition (held_of_port hport hwoken fun j hj => Eq.symm hj)⟩
    · rename_i hd
      obtain ⟨⟨c, slot⟩, hr, rfl⟩ := Option.map_eq_some_iff.mp h
      have hset := (SameStamps.refl s).setChannel port.channel c
      cases slot with
      | none =>
        exact ⟨projects_sGetMessage hw hp hcr hd hr (hset.setPoint _) rfl, hdrain⟩
      | some m =>
        exact ⟨projects_sGetMessage hw hp hcr hd hr
            (hset.setPartition (stamp_setPort hp rfl rfl rfl)) rfl,
          hheld.setPartition (held_of_port hport hwoken fun j hj => Eq.symm hj)⟩

theorem ahead_clear (hcr : port.isCreated = true) (hcalm : calm → ¬ ch = port.channel) :
    Ahead calm ch s (s.clear p id port) [] := by
  unfold clear
  split
  · exact .stay (.refl s) rfl hheld
  · rename_i hd
    have hd : port.direction = .recv := by simpa using hd
    refine ⟨?_, hheld.setPoint fun _ hid => hid⟩
    have hset := ((SameStamps.refl s).setChannel port.channel
      ((s.channels port.channel).sideInit port.direction (s.partitions p).generation id)).setPoint
        (p := p) .again
    by_cases hc : ch = port.channel
    · subst hc
      refine .disturb (i := .clear id) (fun h => hcalm h rfl) ?_
      refine Eq.trans ?_ (congrArg (fun v => some (v, ChannelOutput.done))
        (hset.view_eq port.channel)).symm
      simp only [ChannelSystem.step, view_recvCreated hw hp hcr hd, if_true]
      rw [← sideGeneration_self hw hp, hd, setPoint, setPartition_channels, setChannel_channels_self]
      rfl
    · exact .of_same hset (setChannel_channels_ne hc _)

end

end PortSystem

namespace PortPartition

variable {part : PortPartition} {id ch : Nat} {port port' : QueuingPort} {side : Side}

theorem created_setPort_ne (hp : part.ports[id]? = some port) (hc : port'.channel = port.channel)
    (hd : port'.direction = port.direction)
    (hne : ¬ (ch = port.channel ∧ side = port.direction)) :
    (part.setPort id port').created ch side = part.created ch side := by
  have hlt := (List.getElem?_eq_some_iff.mp hp).1
  rw [Bool.eq_iff_iff, created_iff, created_iff]
  constructor
  · rintro ⟨j, q, hj, rfl, rfl, hcr⟩
    rw [setPort, List.getElem?_set] at hj
    split_ifs at hj with he
    · obtain rfl := Option.some.inj hj
      exact absurd ⟨hc, hd⟩ hne
    · exact ⟨j, q, hj, rfl, rfl, hcr⟩
  · rintro ⟨j, q, hj, rfl, rfl, hcr⟩
    refine ⟨j, q, ?_, rfl, rfl, hcr⟩
    rw [setPort, List.getElem?_set, if_neg]
    · exact hj
    · rintro rfl
      obtain rfl := Option.some.inj (hj.symm.trans hp)
      exact hne ⟨rfl, rfl⟩

theorem created_setPort_self (hp : part.ports[id]? = some port) (hcr : port'.isCreated = true) :
    (part.setPort id port').created port'.channel port'.direction = true := by
  refine created_iff.mpr ⟨id, port', ?_, rfl, rfl, hcr⟩
  simp [setPort, (List.getElem?_eq_some_iff.mp hp).1]

theorem created_restart (part : PortPartition) (ch : Nat) (side : Side) :
    part.restart.created ch side = false := by
  simp [created, stamp, restart, QueuingPort.init, Function.comp_def]

end PortPartition

namespace PortSystem

open ChannelQueuing PortPartition ChannelOutput StagedFifo

variable {s t u : PortSystem} {p id ch : Nat} {port : QueuingPort} {calm : Prop}

/-- The port becomes created and its side of the channel starts. -/
theorem projects_create (hw : Wired s) (hp : (s.partitions p).ports[id]? = some port)
    (hcr : port.isCreated = false) (discipline : QueuingDiscipline)
    (hcalm : calm → ∀ side, (s.partitions (s.part ch side)).created ch side = true) :
    Projects calm ch s ((s.setPartition p ((s.partitions p).setPort id
      { port with isCreated := true, discipline := discipline })).sideInit p id port) [] := by
  set t := (s.setPartition p ((s.partitions p).setPort id
    { port with isCreated := true, discipline := discipline })).sideInit p id port with ht
  have hself : t.partitions p = (s.partitions p).setPort id
      { port with isCreated := true, discipline := discipline } := setPartition_partitions_self _
  have hother : ∀ q, q ≠ p → t.partitions q = s.partitions q := fun q hq =>
    setPartition_partitions_ne hq _
  have hgen : ∀ side, t.sideGeneration ch side = s.sideGeneration ch side := fun side => by
    show (t.partitions (s.part ch side)).generation = (s.partitions (s.part ch side)).generation
    by_cases hq : s.part ch side = p
    · rw [hq, hself]
      rfl
    · rw [hother _ hq]
  have hkept : ∀ side, ¬ (ch = port.channel ∧ side = port.direction) →
      (t.partitions (s.part ch side)).created ch side =
        (s.partitions (s.part ch side)).created ch side := fun side hne => by
    by_cases hq : s.part ch side = p
    · rw [hq, hself]
      exact created_setPort_ne hp rfl rfl hne
    · rw [hother _ hq]
  by_cases hc : ch = port.channel
  · subst hc
    have hchannel : t.channels port.channel = (s.channels port.channel).sideInit port.direction
        (s.partitions p).generation id := by
      rw [ht, PortSystem.sideInit, setChannel_channels_self, setPartition_partitions_self]
      rfl
    have hnow : (t.partitions (s.part port.channel port.direction)).created port.channel
        port.direction = true := by
      rw [hw.attached p id port hp, hself]
      exact created_setPort_self hp rfl
    have hnot : (s.partitions (s.part port.channel port.direction)).created port.channel
        port.direction = false := by
      rw [hw.attached p id port hp, view_created hw hp, hcr]
    have hown := sideGeneration_self hw hp
    have hnew : ¬ calm := fun hc => by
      rw [hcalm hc] at hnot
      contradiction
    cases hd : port.direction with
    | send =>
      rw [hd] at hchannel hnow hnot hown hkept
      refine .disturb (i := .create .send id) hnew ?_
      simp [ChannelSystem.step, view, hgen, hchannel, hnow, hnot, hown, hkept .recv,
        show t.part = s.part from rfl]
    | recv =>
      rw [hd] at hchannel hnow hnot hown hkept
      refine .disturb (i := .create .recv id) hnew ?_
      simp [ChannelSystem.step, view, hgen, hchannel, hnow, hnot, hown, hkept .send,
        show t.part = s.part from rfl]
  · refine .of_view_eq ?_
    have hchannel : t.channels ch = s.channels ch := setChannel_channels_ne hc _
    simp [view, hgen, hchannel, hkept, hc, show t.part = s.part from rfl]

theorem projects_restart (hcalm : calm → ∀ side, s.part ch side ≠ p) :
    Projects calm ch s (s.setPartition p (s.partitions p).restart) [] := by
  set t := s.setPartition p (s.partitions p).restart with ht
  have hown : ∀ side, s.part ch side = p →
      t.sideGeneration ch side = nextGeneration (s.sideGeneration ch side) ∧
        (t.partitions (s.part ch side)).created ch side = false := by
    rintro side rfl
    have hself : t.partitions (s.part ch side) = (s.partitions (s.part ch side)).restart :=
      setPartition_partitions_self _
    refine ⟨congrArg PortPartition.generation hself, ?_⟩
    rw [hself]
    exact created_restart _ ch side
  have hother : ∀ side, s.part ch side ≠ p →
      t.sideGeneration ch side = s.sideGeneration ch side ∧
        t.partitions (s.part ch side) = s.partitions (s.part ch side) := fun side hq =>
    have hsame : t.partitions (s.part ch side) = s.partitions (s.part ch side) :=
      setPartition_partitions_ne hq _
    ⟨congrArg PortPartition.generation hsame, hsame⟩
  intro outs
  -- A partition may be at both ends of the channel.
  by_cases hs : s.part ch .send = p <;> by_cases hr : s.part ch .recv = p
  · refine ⟨[.restart .send, .restart .recv], outs ++ [.done] ++ [.done], ?_, ?_,
      fun hc => absurd hs (hcalm hc _)⟩
    · simp [Run.exec, Run.record, ChannelSystem.step, view, hown _ hs, hown _ hr,
        show t.part = s.part from rfl, show t.channels = s.channels from rfl]
    · rw [acts_snoc, acts_snoc]
      simp [act]
  · refine ⟨[.restart .send], outs ++ [.done], ?_, by simp [acts_snoc, act],
      fun hc => absurd hs (hcalm hc _)⟩
    simp [Run.exec, Run.record, ChannelSystem.step, view, hown _ hs, hother _ hr,
      show t.part = s.part from rfl, show t.channels = s.channels from rfl]
  · refine ⟨[.restart .recv], outs ++ [.done], ?_, by simp [acts_snoc, act],
      fun hc => absurd hr (hcalm hc _)⟩
    simp [Run.exec, Run.record, ChannelSystem.step, view, hother _ hs, hown _ hr,
      show t.part = s.part from rfl, show t.channels = s.channels from rfl]
  · refine ⟨[], outs, ?_, by simp, by simp⟩
    simp [Run.exec, view, hother _ hs, hother _ hr,
      show t.part = s.part from rfl, show t.channels = s.channels from rfl]

/-- The message that passes through a channel in a step, if any. -/
def passes (ch : Nat) (s : PortSystem) (e : Nat × PortInput) (t : PortSystem) :
    List (Act (List UInt8)) :=
  match e.2, (s.partitions e.1).point with
  | .resume _ _ _, .consume id | .resume _ _ _, .firedConsume id =>
    if s.PortOn e.1 id ch then [s.nextConsumed ch] else []
  | .resume _ _ bytes, .produce id _ | .resume _ _ bytes, .firedProduce id _ =>
    if s.PortOn e.1 id ch then [lastProduced s t ch bytes] else []
  | _, _ => []

/-- All messages that pass through a channel in a run. -/
def passed (ch : Nat) : PortSystem → List (Nat × PortInput) → List (Act (List UInt8))
  | _, [] => []
  | s, e :: es =>
    match s.step e with
    | none => []
    | some t => passes ch s e t ++ passed ch t es

section

variable (hb : Bounded s) (hheld : s.AllHeld)

include hb hheld

theorem ahead_consume {point : PortPoint} (hp : (s.partitions p).ports[id]? = some port)
    (hpoint : (s.partitions p).point = .consume id ∨ (s.partitions p).point = .firedConsume id)
    (hafter : ∀ j, ¬ point.Uses j) (h : s.portQueuingReceive port.channel = some u) :
    Ahead calm ch s (u.setPoint p point) (if s.PortOn p id ch then [s.nextConsumed ch] else []) := by
  have huses : (s.partitions p).point.Uses id := by
    rcases hpoint with he | he <;> rw [he] <;> rfl
  have hd : port.direction = .recv := by
    have htakes := (hb.ports p id port hp).takes
    rcases hpoint with he | he <;> rw [he] at htakes <;> exact htakes rfl
  have hcr := (hheld p).port huses hp
  have hproj : Projects calm ch s u (if ch = port.channel then [s.nextConsumed ch] else []) :=
    (projects_receive hb.wired hp hcr hd h).2
  have hkept : u.AllHeld := by
    obtain ⟨r, -, hn⟩ := Option.bind_eq_some_iff.mp h
    exact AllHeld.notify (s := s.setChannel port.channel r.1) hheld hn
  simp only [portOn_iff hp]
  exact Ahead.setPoint ⟨hproj, hkept⟩ hafter

theorem ahead_produce {len : Nat} {bytes : List UInt8} {point : PortPoint}
    (hp : (s.partitions p).ports[id]? = some port)
    (hpoint : (s.partitions p).point = .produce id len ∨
      (s.partitions p).point = .firedProduce id len)
    (hafter : ∀ j, ¬ point.Uses j) (h : s.portQueuingSend port.channel bytes = some u) :
    Ahead calm ch s (u.setPoint p point)
      (if s.PortOn p id ch then [lastProduced s (u.setPoint p point) ch bytes] else []) := by
  have huses : (s.partitions p).point.Uses id := by
    rcases hpoint with he | he <;> rw [he] <;> rfl
  have hd : port.direction = .send := by
    have htakes := (hb.ports p id port hp).takes
    rcases hpoint with he | he <;> rw [he] at htakes <;> exact htakes rfl
  have hcr := (hheld p).port huses hp
  have hproj : Projects calm ch s u (if ch = port.channel then [lastProduced s u ch bytes] else []) :=
    (projects_send hb.wired hp (hb.channels _) hcr hd h).2
  have hkept : u.AllHeld := by
    obtain ⟨r, -, hn⟩ := Option.bind_eq_some_iff.mp h
    exact AllHeld.notify (s := s.setChannel port.channel r.1) hheld hn
  simp only [portOn_iff hp]
  exact Ahead.setPoint ⟨hproj, hkept⟩ hafter

theorem ahead_resume {due : Bool} {expired : List Nat} {bytes : List UInt8}
    (h : s.resume p due expired bytes = some t) :
    Ahead calm ch s t (passes ch s (p, .resume due expired bytes) t) := by
  unfold resume at h
  cases hpoint : (s.partitions p).point with
  | outside =>
    simp only [hpoint] at h
    cases h
  | consume id =>
    simp only [hpoint, passes] at h ⊢
    obtain ⟨port, hp, hr⟩ := Option.bind_eq_some_iff.mp h
    obtain ⟨u, hu, rfl⟩ := Option.map_eq_some_iff.mp hr
    exact ahead_consume hb hheld hp (.inl hpoint) (fun _ hj => hj) hu
  | produce id len =>
    simp only [hpoint, passes] at h ⊢
    obtain ⟨port, hp, hr⟩ := Option.bind_eq_some_iff.mp h
    split_ifs at hr
    obtain ⟨u, hu, rfl⟩ := Option.map_eq_some_iff.mp hr
    exact ahead_produce hb hheld hp (.inl hpoint) (fun _ hj => hj) hu
  | again =>
    simp only [hpoint, passes] at h ⊢
    split_ifs at h
    · exact Option.some.inj h ▸ .stay ((SameStamps.refl s).setPartition rfl) rfl
        (hheld.setPartition fun _ hid => hid.elim)
    · exact Option.some.inj h ▸ .stay ((SameStamps.refl s).setPoint _) rfl
        (hheld.setPoint fun _ hid => hid)
  | drain =>
    simp only [hpoint, passes] at h ⊢
    split at h
    · exact Option.some.inj h ▸ .stay ((SameStamps.refl s).setPoint _) rfl
        (hheld.setPoint fun _ hid => hid)
    · split at h
      · refine Option.some.inj h ▸ .stay ((SameStamps.refl s).setPartition (stamp_remove (s.partitions p) expired)) rfl
          (hheld.setPartition fun id hid => ?_)
        have hdrain : ((s.partitions p).remove expired).point = .drain := hpoint
        rw [hdrain] at hid
        exact hid.elim
      all_goals
        exact Option.some.inj h ▸ .stay ((SameStamps.refl s).setPartition rfl) rfl
          (hheld.setPartition fun _ hid => hid.elim)
  | fired id =>
    simp only [hpoint, passes] at h ⊢
    obtain ⟨port, hp, hr⟩ := Option.bind_eq_some_iff.mp h
    exact ahead_portQueuingFired hheld hb.wired hp (hb.ports p id port hp).idle hr
  | firedConsume id =>
    simp only [hpoint, passes] at h ⊢
    obtain ⟨port, hp, hr⟩ := Option.bind_eq_some_iff.mp h
    obtain ⟨u, hu, rfl⟩ := Option.map_eq_some_iff.mp hr
    exact ahead_consume hb hheld hp (.inr hpoint) (fun _ hj => hj) hu
  | firedProduce id len =>
    simp only [hpoint, passes] at h ⊢
    obtain ⟨port, hp, hr⟩ := Option.bind_eq_some_iff.mp h
    split_ifs at hr
    obtain ⟨u, hu, rfl⟩ := Option.map_eq_some_iff.mp hr
    exact ahead_produce hb hheld hp (.inr hpoint) (fun _ hj => hj) hu
  | timer =>
    simp only [hpoint, passes] at h ⊢
    split_ifs at h
    · exact Option.some.inj h ▸ .stay ((SameStamps.refl s).setPartition (stamp_remove (s.partitions p) expired)) rfl
        (hheld.setPartition fun _ hid => hid.elim)
    · exact Option.some.inj h ▸ .stay ((SameStamps.refl s).setPoint _) rfl
        (hheld.setPoint fun _ hid => hid)
  | enable =>
    simp only [hpoint, passes] at h ⊢
    refine Option.some.inj h ▸ .stay ((SameStamps.refl s).setPoint _) rfl
      (hheld.setPoint fun _ hid => ?_)
    split_ifs at hid <;> exact hid

theorem ahead_call {f : QueuingPort → Option PortSystem} (h : s.call p id f = some t)
    (hf : ∀ port, (s.partitions p).ports[id]? = some port → port.isCreated = true →
      f port = some t → Ahead calm ch s t []) : Ahead calm ch s t [] := by
  obtain ⟨-, rfl | ⟨port, hget, hport⟩⟩ := call_cases h
  · exact .stay (.refl t) rfl hheld
  · exact hf port (getPortQueuing_eq hget).1 (getPortQueuing_eq hget).2 hport

theorem ahead_step {e : Nat × PortInput} (h : s.step e = some t) :
    Ahead (s.BothCreated ch ∧ LeavesOpen ch s e) ch s t (passes ch s e t) := by
  obtain ⟨p, e⟩ := e
  cases e with
  | create id messageSize maxNbMessage direction discipline =>
    simp only [step, passes] at h ⊢
    split_ifs at h with hout
    obtain ⟨port, hp, rfl⟩ := Option.map_eq_some_iff.mp h
    unfold create
    split_ifs with hcr
    any_goals exact .stay (.refl s) rfl hheld
    refine ⟨projects_create hb.wired hp (by simpa using hcr) discipline (·.1), ?_⟩
    refine AllHeld.setPartition hheld fun j hj => ?_
    have houtside : ((s.partitions p).setPort id
        { port with isCreated := true, discipline := discipline }).point = .outside := hout
    rw [houtside] at hj
    exact hj.elim
  | setModeNormal =>
    simp only [step, passes] at h ⊢
    split_ifs at h
    exact Option.some.inj h ▸ .stay ((SameStamps.refl s).setPartition rfl) rfl
      (hheld.setPartition fun _ hid => hid.elim)
  | receive id thread priority mayWait =>
    refine ahead_call hb hheld h fun port hp hcr hr => ?_
    split_ifs at hr
    exact ahead_receive hheld hb.wired hp hcr hr
  | send id thread priority len mayWait =>
    refine ahead_call hb hheld h fun port hp hcr hr => ?_
    split_ifs at hr
    exact ahead_send hheld hb.wired hp hcr hr
  | clear id =>
    refine ahead_call hb hheld h fun port hp hcr hr => ?_
    refine Option.some.inj hr ▸ ahead_clear hheld hb.wired hp hcr fun hcalm he => ?_
    exact hcalm.2.clear id rfl ((portOn_iff hp).mpr he)
  | stop thread =>
    simp only [step, passes] at h ⊢
    split_ifs at h
    exact Option.some.inj h ▸ .stay ((SameStamps.refl s).setPartition (stamp_remove (s.partitions p) [thread])) rfl
      (hheld.setPartition fun _ hid => hid.elim)
  | timerEvent =>
    obtain ⟨part, hpart, rfl⟩ := Option.map_eq_some_iff.mp h
    have hpoint : part.point = (s.partitions p).point := by
      rw [addEvent_eq hpart]
    exact .stay ((SameStamps.refl s).setPartition (stamp_addEvent hpart)) rfl
      (hheld.setPartition (held_of_eq (hheld p) hpoint (stamp_addEvent hpart)))
  | onEvent =>
    simp only [step, passes] at h ⊢
    split_ifs at h
    exact Option.some.inj h ▸ .stay ((SameStamps.refl s).setPoint _) rfl
      (hheld.setPoint fun _ hid => hid)
  | restart =>
    exact Option.some.inj h ▸ ⟨projects_restart (·.2.restart rfl), hheld.setPartition fun _ hid => hid.elim⟩
  | resume due expired bytes => exact ahead_resume hb hheld h

end

theorem transfer_created {v v' : ChannelSystem} {i : ChannelInput} {o : ChannelOutput}
    (hi : i.IsTransfer) (h : v.step i = some (v', o)) :
    v'.sendCreated = v.sendCreated ∧ v'.recvCreated = v.recvCreated := by
  cases i with
  | create | clear | restart => exact hi.elim
  | sFill bytes =>
    simp only [ChannelSystem.step] at h
    split_ifs at h
    obtain ⟨r, -, hf⟩ := Option.bind_eq_some_iff.mp h
    obtain ⟨slot, -, he⟩ := Option.map_eq_some_iff.mp hf
    exact (Prod.mk.inj he).1 ▸ ⟨rfl, rfl⟩
  | sGetMessage | sProduceMessage | rGetMessage | rConsumeMessage =>
    simp only [ChannelSystem.step] at h
    split_ifs at h
    obtain ⟨r, -, he⟩ := Option.map_eq_some_iff.mp h
    exact (Prod.mk.inj he).1 ▸ ⟨rfl, rfl⟩

theorem transfers_created {v v' : ChannelSystem} {outs outs' : List ChannelOutput}
    {is : List ChannelInput} (his : ∀ i ∈ is, i.IsTransfer)
    (h : Run.exec (Run.record ChannelSystem.step) (v, outs) is = some (v', outs')) :
    v'.sendCreated = v.sendCreated ∧ v'.recvCreated = v.recvCreated := by
  have hstep : ∀ (w : ChannelSystem × List ChannelOutput) (i : ChannelInput) w',
      (w.1.sendCreated = v.sendCreated ∧ w.1.recvCreated = v.recvCreated) → i.IsTransfer →
      Run.record ChannelSystem.step w i = some w' →
      (w'.1.sendCreated = v.sendCreated ∧ w'.1.recvCreated = v.recvCreated) := by
    intro w i w' hw hi he
    obtain ⟨⟨x, o⟩, hx, rfl⟩ := Option.map_eq_some_iff.mp he
    obtain ⟨hsend, hrecv⟩ := transfer_created hi hx
    exact ⟨hsend.trans hw.1, hrecv.trans hw.2⟩
  exact Run.invariant_of_meets hstep ⟨rfl, rfl⟩ (Run.meets_of_forall (fun i hi _ => his i hi) _) h

theorem Projects.bothCreated {moved : List (Act (List UInt8))} (h : Projects calm ch s t moved)
    (hcalm : calm) (hs : s.BothCreated ch) : t.BothCreated ch := by
  obtain ⟨is, outs, hrun, -, his⟩ := h []
  obtain ⟨hsend, hrecv⟩ := transfers_created (his hcalm) hrun
  intro side
  cases side with
  | send => exact hsend.trans (hs .send)
  | recv => exact hrecv.trans (hs .recv)

theorem run_projects (hb : Bounded s) (hheld : s.AllHeld) {es : List (Nat × PortInput)}
    (h : Run.exec step s es = some t) :
    Projects (s.BothCreated ch ∧ Run.Meets step (LeavesOpen ch) s es) ch s t (passed ch s es) := by
  induction es generalizing s with
  | nil =>
    obtain rfl : s = t := by simpa [Run.exec] using h
    exact .of_view_eq rfl
  | cons e es ih =>
    obtain ⟨m, hm, ht⟩ := Run.exec_cons.mp h
    have hahead : Ahead (s.BothCreated ch ∧ LeavesOpen ch s e) ch s m _ := ahead_step hb hheld hm
    rw [passed, hm]
    refine (hahead.projects.mono fun hcalm => ⟨hcalm.1, hcalm.2.1⟩).trans
      ((ih (hb.step hm) hahead.held ht).mono fun hcalm => ⟨?_, hcalm.2.2 m hm⟩)
    exact hahead.projects.bothCreated ⟨hcalm.1, hcalm.2.1⟩ hcalm.1

theorem booted_allHeld {s : RingSystem} (hs : s.Booted) : s.AllHeld := by
  intro p id hid
  rw [(hs.quiet p).2] at hid
  exact hid.elim

theorem run_allHeld (hb : Bounded s) (hheld : s.AllHeld) {es : List (Nat × PortInput)}
    (h : Run.exec step s es = some t) : Bounded t ∧ t.AllHeld := by
  have hstep : ∀ s e t, Bounded s ∧ s.AllHeld → step s e = some t → Bounded t ∧ t.AllHeld := by
    intro s e t hi he
    have hahead : Ahead _ 0 s t _ := ahead_step hi.1 hi.2 he
    exact ⟨hi.1.step he, hahead.held⟩
  exact Run.invariant hstep ⟨hb, hheld⟩ h

/-- Whatever the partitions do, with their restarts, their blocked callers and the calls that are
refused, each channel goes through a run of its own two ports, in which the same messages pass. -/
theorem ports_refine_channel {s : RingSystem} (hs : s.Booted) {es : List (Nat × PortInput)}
    (h : Run.exec step s.toPortSystem es = some t) (ch : Nat) :
    ∃ is outs, Run.exec (Run.record ChannelSystem.step) (s.view ch, []) is =
      some (t.view ch, outs) ∧ acts outs = passed ch s.toPortSystem es := by
  have hproj : Projects _ ch _ t _ := run_projects hs.inv.bounded (booted_allHeld hs) h
  obtain ⟨is, outs, hrun, hacts, -⟩ := hproj []
  exact ⟨is, outs, hrun, by simpa [acts] using hacts⟩

def sendersAndReceiversRing : RingSystem :=
  { sendersAndReceivers with timer := fun _ => 0, timerSet := fun _ => false }

theorem sendersAndReceiversRing_booted : sendersAndReceiversRing.Booted := by
  have hmem : ∀ p port, port ∈ (sendersAndReceiversRing.partitions p).ports →
      port = ⟨[], p / 2, if p % 2 = 0 then .send else .recv, .fifo, false⟩ := fun p port h =>
    List.mem_singleton.mp h
  refine ⟨⟨fun p port hp => ?_, fun p i j port port' hi hj _ _ => ?_, fun p port hp => ?_,
    fun p => ⟨rfl, rfl⟩⟩, fun p => rfl, fun ch => ⟨_, by decide, by decide, by decide, rfl⟩⟩
  · refine sendersAndReceivers_apart.attached p port.channel port.direction ?_
    exact List.mem_map.mpr ⟨port, hp, rfl⟩
  · have hi' : i < 1 := (List.getElem?_eq_some_iff.mp hi).1
    have hj' : j < 1 := (List.getElem?_eq_some_iff.mp hj).1
    omega
  · obtain rfl := hmem p port hp
    exact ⟨rfl, rfl⟩

/-- Both ports of channel 0 are created, and process 7 of partition 1 waits for a message. -/
def pairOpens : List (Nat × PortInput) :=
  [(0, .create 0 4 2 .send .fifo), (1, .create 0 4 1 .recv .fifo), (1, .setModeNormal)] ++
    sectionEnd 1

/-- The process that waits is given the message when the event is handled. -/
def pairTransfers : List (Nat × PortInput) :=
  [(1, .receive 0 7 10 true)] ++ sectionEnd 1 ++ senderSends ++
    [(1, .onEvent)] ++ List.replicate 4 (1, .resume false [] [])

theorem ports_refine_channel_sendersAndReceivers :
    ∃ t is outs, Run.exec step sendersAndReceivers (pairOpens ++ pairTransfers) = some t ∧
      Run.exec (Run.record ChannelSystem.step) (sendersAndReceivers.view 0, []) is =
        some (t.view 0, outs) ∧ acts outs = [.produced [65] false, .consumed [65] false] := by
  have hrun : Run.exec step sendersAndReceiversRing.toPortSystem (pairOpens ++ pairTransfers) =
      some _ := rfl
  obtain ⟨is, outs, hexec, hacts⟩ := ports_refine_channel sendersAndReceiversRing_booted hrun 0
  exact ⟨_, is, outs, hrun, hexec, hacts⟩

/-- No message is on its way in the channel, and none has been dropped unnoticed. -/
structure Idle (c : ChannelQueuing) : Prop where
  received : c.rNMessages = 0
  pending : c.sNMessages = 0
  discarded : c.messageDiscarded = false

theorem Idle.follows (hb : Bounded s) (hcreated : s.BothCreated ch) (hidle : Idle (s.channels ch)) :
    (s.view ch).Follows (s.channels ch).recv.maxNbMessage (s.channels ch).send.maxNbMessage
      (s.channels ch).overflowStrategy [] .empty := by
  have hlinked : ∀ side, s.sideGeneration ch side = ((s.channels ch).sideOf side).generation := by
    intro side
    obtain ⟨id, port, hp, rfl, rfl, hcr⟩ := created_iff.mp (hcreated side)
    exact ((hb.ports _ id port hp).linked hcr).1.symm
  have hbound := hb.channels ch
  refine ⟨.empty, ⟨⟨hbound.sized, hbound.inRing, ?_, ?_, fun hpos => ?_⟩,
    ⟨rfl, rfl, hbound.sized.total⟩, rfl, hlinked .send, hlinked .recv, fun _ => hidle.pending,
    ?_, ?_, hidle.discarded.symm⟩, fun bytes h => nomatch h⟩
  · exact hidle.received.trans_le (Nat.zero_le _)
  · exact hidle.pending.trans_le (Nat.zero_le _)
  · exact absurd hidle.pending (Nat.ne_of_gt hpos)
  · exact (List.eq_nil_of_length_eq_zero (received_length.trans hidle.received)).symm
  · exact (List.eq_nil_of_length_eq_zero (pending_length.trans hidle.pending)).symm

/-- From any state reached in which both ports of a channel are created and no message is on its
way, as long as neither partition restarts and the receiver's port is not cleared, the processes
that receive, at once or after a wait, are given the messages of those that send, at once or after a
wait, whole, in the order in which they were sent, and none twice. Under the blocking strategy none
is lost. -/
theorem ports_deliver_in_order {s : RingSystem} (hs : s.Booted)
    {es₁ es₂ : List (Nat × PortInput)} {m t : PortSystem} {ch : Nat}
    (h₁ : Run.exec step s.toPortSystem es₁ = some m) (hcreated : m.BothCreated ch)
    (hidle : Idle (m.channels ch)) (h₂ : Run.exec step m es₂ = some t)
    (hopen : Run.Meets step (LeavesOpen ch) m es₂) :
    (∃ q, Trace (m.channels ch).recv.maxNbMessage (m.channels ch).send.maxNbMessage
        ((m.channels ch).overflowStrategy == .receiverDiscard) (passed ch m es₂) q ∧
      q.front = (t.channels ch).received ∧ q.back = (t.channels ch).pending) ∧
    (passed ch m es₂).filterMap Act.removed ++
        ((t.channels ch).received ++ (t.channels ch).pending) =
      (passed ch m es₂).filterMap Act.kept ∧
    ((m.channels ch).overflowStrategy = .senderBlock →
      (passed ch m es₂).filterMap Act.dropped = []) := by
  obtain ⟨hb, hheld⟩ := run_allHeld hs.inv.bounded (booted_allHeld hs) h₁
  have hproj : Projects _ ch m t _ := run_projects hb hheld h₂
  obtain ⟨is, outs, hrun, hacts, his⟩ := hproj []
  have hpassed : acts outs = passed ch m es₂ := by simpa [acts] using hacts
  have hstep : ∀ v os e v' o,
      (∃ q, ChannelSystem.Follows (m.channels ch).recv.maxNbMessage
        (m.channels ch).send.maxNbMessage (m.channels ch).overflowStrategy v os q) →
      ChannelInput.IsTransfer e → v.step e = some (v', o) →
      (∃ q, ChannelSystem.Follows (m.channels ch).recv.maxNbMessage
        (m.channels ch).send.maxNbMessage (m.channels ch).overflowStrategy v' (os ++ [o]) q) ∧
        Fits (m.channels ch).recv.maxNbMessage (m.channels ch).send.maxNbMessage os o := by
    rintro v os e v' o ⟨q, hq⟩ he hst
    exact ChannelSystem.step_follows hq he hst
  obtain ⟨⟨q, hq⟩, -⟩ := Run.recorded hstep ⟨_, Idle.follows hb hcreated hidle⟩ (by simp)
    (his ⟨hcreated, hopen⟩) hrun
  have htrace := hq.trace
  have hfront : q.front = (t.channels ch).received := hq.refines.front
  have hback : q.back = (t.channels ch).pending := hq.refines.back
  rw [hpassed] at htrace
  refine ⟨⟨q, htrace, hfront, hback⟩, ?_, fun hblock => ?_⟩
  · rw [← hfront, ← hback]
    exact htrace.conserved
  · rw [hblock] at htrace
    exact htrace.dropped_nil

theorem ports_deliver_in_order_sendersAndReceivers :
    ∃ m t, Run.exec step sendersAndReceivers pairOpens = some m ∧
      Run.exec step m pairTransfers = some t ∧
      (passed 0 m pairTransfers).filterMap Act.removed = [[65]] ∧
      (passed 0 m pairTransfers).filterMap Act.removed ++
          ((t.channels 0).received ++ (t.channels 0).pending) =
        (passed 0 m pairTransfers).filterMap Act.kept := by
  have h₁ : Run.exec step sendersAndReceiversRing.toPortSystem pairOpens = some _ := rfl
  have hno : ∀ e ∈ pairTransfers, e.2 ≠ .restart ∧ ∀ id, e.2 ≠ .clear id := by
    simp [pairTransfers, sectionEnd, senderSends]
  have hopen : ∀ e ∈ pairTransfers, ∀ s, LeavesOpen 0 s e := fun e he s =>
    ⟨fun hr => absurd hr (hno e he).1, fun id hc => absurd hc ((hno e he).2 id)⟩
  have hcreated (m : PortSystem) (hm : (m.view 0).sendCreated = true ∧ (m.view 0).recvCreated = true) :
      m.BothCreated 0 := fun side => by
    cases side
    · exact hm.1
    · exact hm.2
  exact ⟨_, _, h₁, rfl, rfl, (ports_deliver_in_order sendersAndReceiversRing_booted h₁
    (hcreated _ ⟨rfl, rfl⟩) ⟨rfl, rfl, rfl⟩ rfl (Run.meets_of_forall hopen _)).2.1⟩

end PortSystem

end Chpok
