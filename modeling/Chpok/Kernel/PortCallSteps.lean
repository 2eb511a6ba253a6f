import Chpok.Kernel.PortCalls
import Chpok.Kernel.PortWakeup

/-! A partition's own calls on its queuing ports are what the system of all partitions does in
its steps: the first step of a call, and the operation on the channel where a message or a free
slot has been found. -/

namespace Chpok

/-- The partition has the ports, the channels and the modes that its calls work on. -/
structure PortSystem.Shows (s : PortSystem) (p : Nat) (a : PartitionPorts) : Prop where
  ports : ∀ i, (s.partitions p).ports[i]? =
    if i < a.nportsQueuing then some (a.portsQueuing i) else none
  channels : s.channels = a.channels
  generation : (s.partitions p).generation = a.generation
  normal : (s.partitions p).normal = a.normal
  peers : ∀ i < a.nportsQueuing, ∀ side ≠ (a.portsQueuing i).direction,
    s.sideGeneration (a.portsQueuing i).channel side =
      a.peerGeneration (a.portsQueuing i).channel

/-- Every ring takes one more event. -/
def PortSystem.HasRoom (s : PortSystem) : Prop :=
  ∀ q, (s.partitions q).events.length < (s.partitions q).eventMax

/-- The call that begins with `input` leads to `t`, and its section is over there. -/
def PortSystem.Completes (s : PortSystem) (p : Nat) (input : PortInput) (bytes : List UInt8)
    (t : PortSystem) : Prop :=
  ∃ m, s.step (p, input) = some m ∧
    (m = t ∨ m.step (p, .resume false [] bytes) = some t) ∧
    ((t.partitions p).point = .outside ∨ (t.partitions p).point = .again)

theorem ChannelQueuing.rGetMessage_found {c d : ChannelQueuing} {subscribe : Bool}
    {message : Nat × Nat} (h : c.rGetMessage subscribe = some (d, some message)) :
    d = c ∧ ∀ again, c.rGetMessage again = some (c, some message) := by
  unfold rGetMessage at h ⊢
  split_ifs at h with hnew hsub
  · obtain ⟨pos, hpos, he⟩ := Option.map_eq_some_iff.mp h
    obtain ⟨rfl, hmessage⟩ := Prod.mk.inj he
    exact ⟨rfl, fun again => by simp [hnew, hpos, ← hmessage]⟩
  · cases h
  · cases h

theorem ChannelQueuing.sGetMessage_found {c d : ChannelQueuing} {subscribe : Bool} {pos : Nat}
    (h : c.sGetMessage subscribe = some (d, some pos)) :
    d = c ∧ pos = c.send.nextMessage ∧ ∀ again, c.sGetMessage again = some (c, some pos) := by
  unfold sGetMessage at h ⊢
  split_ifs at h with hfree hsub
  · obtain ⟨slot, hslot, he⟩ := Option.map_eq_some_iff.mp h
    obtain ⟨rfl, hpos⟩ := Prod.mk.inj he
    obtain rfl := Option.some.inj hpos
    refine ⟨rfl, ?_, fun again => by simp [hfree, hslot]⟩
    unfold messageAt at hslot
    split_ifs at hslot
    exact (Option.some.inj hslot).symm
  · cases h
  · cases h

namespace PartitionPorts

variable {a : PartitionPorts} {timeout : Int} {unready : PortErrno}

/-- A caller with this timeout may be blocked. -/
def MayWait (a : PartitionPorts) (timeout : Int) : Bool := decide (timeout ≠ 0) && a.waitingAllowed

theorem setChannel_channel (a : PartitionPorts) (ch : Nat) :
    a.setChannel ch (a.channels ch) = a := by
  rw [PartitionPorts.setChannel, Function.update_eq_self]

theorem waitRefusal_ok (h : unready ≠ .ok) :
    a.waitRefusal timeout unready = .ok ↔ a.MayWait timeout = true := by
  unfold waitRefusal MayWait
  by_cases hzero : timeout = 0
  · simp [hzero, h]
  · by_cases hallowed : a.waitingAllowed = true <;> simp [hzero, hallowed]

/-- Only callers that may wait ask the channel for a notification. -/
theorem waitRefusal_eq_ok (h : unready ≠ .ok) :
    decide (a.waitRefusal timeout unready = .ok) = a.MayWait timeout := by
  rw [Bool.eq_iff_iff, decide_eq_true_iff, waitRefusal_ok h]

end PartitionPorts

namespace PortSystem

open PartitionPorts

variable {s t : PortSystem} {p id ch : Nat} {a : PartitionPorts}

theorem Shows.port (h : s.Shows p a) (hid : id < a.nportsQueuing) :
    (s.partitions p).ports[id]? = some (a.portsQueuing id) := by
  rw [h.ports, if_pos hid]

theorem Shows.channel (h : s.Shows p a) (ch : Nat) : s.channels ch = a.channels ch :=
  congrFun h.channels ch

/-- Preemption is locked outside the `NORMAL` mode. -/
theorem Shows.mayWait (h : s.Shows p a) (hallowed : a.waitingAllowed = true → a.normal = true)
    {timeout : Int} : (a.MayWait timeout && (s.partitions p).normal) = a.MayWait timeout := by
  rw [h.normal, Bool.and_eq_left_iff_imp]
  exact fun hw => hallowed (Bool.and_eq_true_iff.mp hw).2

theorem Shows.setChannel (h : s.Shows p a) (ch : Nat) (c : ChannelQueuing) :
    (s.setChannel ch c).Shows p (a.setChannel ch c) := by
  refine ⟨h.ports, ?_, h.generation, h.normal, h.peers⟩
  change Function.update s.channels ch c = Function.update a.channels ch c
  rw [h.channels]

theorem Shows.setThread (h : s.Shows p a) (thread : Nat) (data : PortThread) :
    s.Shows p (a.setThread thread data) :=
  ⟨h.ports, h.channels, h.generation, h.normal, h.peers⟩

/-- A partition is changed in nothing that the calls look at. -/
theorem Shows.setPartition (h : s.Shows p a) {q : Nat} {part : PortPartition}
    (hports : part.ports = (s.partitions q).ports)
    (hgeneration : part.generation = (s.partitions q).generation)
    (hnormal : part.normal = (s.partitions q).normal) : (s.setPartition q part).Shows p a := by
  have hgenerations : ∀ i, ((s.setPartition q part).partitions i).generation =
      (s.partitions i).generation := by
    intro i
    by_cases hi : i = q
    · subst hi
      rw [setPartition_partitions_self, hgeneration]
    · rw [setPartition_partitions_ne hi]
  refine ⟨?_, h.channels, (hgenerations p).trans h.generation, ?_, ?_⟩
  · by_cases hp : p = q
    · subst hp
      rw [setPartition_partitions_self, hports]
      exact h.ports
    · rw [setPartition_partitions_ne hp]
      exact h.ports
  · by_cases hp : p = q
    · subst hp
      rw [setPartition_partitions_self, hnormal]
      exact h.normal
    · rw [setPartition_partitions_ne hp]
      exact h.normal
  · intro i hi side hside
    exact (hgenerations _).trans (h.peers i hi side hside)

theorem Shows.setPoint (h : s.Shows p a) (point : PortPoint) : (s.setPoint p point).Shows p a :=
  h.setPartition rfl rfl rfl

/-- A port is changed in its waiters, its discipline or its creation. -/
theorem Shows.setPort (h : s.Shows p a) (port : QueuingPort) (point : PortPoint)
    (hid : id < a.nportsQueuing) (hchannel : port.channel = (a.portsQueuing id).channel)
    (hdirection : port.direction = (a.portsQueuing id).direction) :
    (s.setPartition p { (s.partitions p).setPort id port with point := point }).Shows p
      (a.setQueuing id port) := by
  have hport := h.port hid
  refine ⟨fun i => ?_, h.channels, ?_, ?_, fun i hi side hside => ?_⟩
  · rw [setPartition_partitions_self]
    change ((s.partitions p).ports.set id port)[i]? =
      if i < a.nportsQueuing then some (Function.update a.portsQueuing id port i) else none
    by_cases hi : i = id
    · subst hi
      have hlt := (List.getElem?_eq_some_iff.mp hport).1
      simp [hid, hlt]
    · rw [List.getElem?_set_ne (fun he => hi he.symm), Function.update_of_ne hi]
      exact h.ports i
  · rw [setPartition_partitions_self]
    exact h.generation
  · rw [setPartition_partitions_self]
    exact h.normal
  · have hsame : (Function.update a.portsQueuing id port i).channel = (a.portsQueuing i).channel ∧
        (Function.update a.portsQueuing id port i).direction = (a.portsQueuing i).direction := by
      by_cases he : i = id
      · subst he
        simp [hchannel, hdirection]
      · simp [Function.update_of_ne he]
    have hpeer := h.peers i hi side (hsame.2 ▸ hside)
    change sideGeneration _ (Function.update a.portsQueuing id port i).channel side =
      a.peerGeneration (Function.update a.portsQueuing id port i).channel
    rw [hsame.1, ← hpeer]
    unfold sideGeneration
    change ((s.setPartition p _).partitions (s.part _ side)).generation = _
    by_cases hq : s.part (a.portsQueuing i).channel side = p
    · rw [hq, setPartition_partitions_self]
      rfl
    · rw [setPartition_partitions_ne hq]

theorem Shows.block (h : s.Shows p a) (hid : id < a.nportsQueuing) (waitLen : Nat)
    (timeout : Int) :
    (s.block p id (a.portsQueuing id)
      ⟨a.currentThread, (a.threads a.currentThread).priority, waitLen⟩).Shows p
      (a.portWait id waitLen timeout) := by
  refine Shows.setThread (h.setPort _ _ hid ?_ ?_) _ _
  · rfl
  · rfl

theorem HasRoom.notify (h : s.HasRoom) (ch : Nat) (side : Side) (event : Option PartitionEvent) :
    ∃ t, s.notify ch side event = some t := by
  cases event with
  | none => exact ⟨s, rfl⟩
  | some event =>
    exact ⟨_, congrArg (Option.map _) (if_pos (h (s.part ch side)))⟩

theorem Shows.notify (h : s.Shows p a) {side : Side} {event : Option PartitionEvent}
    (hn : s.notify ch side event = some t) : t.Shows p (a.raise ch event) := by
  have hraised : s.Shows p (a.raise ch event) :=
    ⟨h.ports, h.channels, h.generation, h.normal, h.peers⟩
  cases event with
  | none => exact Option.some.inj hn ▸ hraised
  | some event =>
    obtain ⟨part, hpart, rfl⟩ := Option.map_eq_some_iff.mp hn
    unfold PortPartition.addEvent at hpart
    split_ifs at hpart
    obtain rfl := Option.some.inj hpart
    exact hraised.setPartition rfl rfl rfl

/-- A call either is refused by both or goes on with the same port. -/
theorem Shows.call (h : s.Shows p a) (hpoint : (s.partitions p).point = .outside)
    (hid : id ≠ a.nportsQueuing)
    {rest : Nat → Option (PartitionPorts × Option (PortErrno × PortData))}
    {r : PartitionPorts × Option (PortErrno × PortData)}
    (hcall : (a.withPort a.nportsQueuing (fun i => (a.portsQueuing i).isCreated) id
      rest).outcome = some r) :
    (r.1 = a ∧ ∀ f, s.call p id f = some s) ∨
      (id < a.nportsQueuing ∧ rest id = some r ∧
        ∀ f, s.call p id f = f (a.portsQueuing id)) := by
  have hlength : (s.partitions p).ports.length = a.nportsQueuing := by
    refine Nat.le_antisymm ?_ ?_
    · refine Nat.le_of_not_lt fun hlt => ?_
      have hnone := h.ports a.nportsQueuing
      rw [if_neg (Nat.lt_irrefl _), List.getElem?_eq_none_iff] at hnone
      omega
    · refine Nat.le_of_not_lt fun hlt => ?_
      have hsome := h.port hlt
      rw [List.getElem?_eq_none (Nat.le_refl _)] at hsome
      cases hsome
  have hgo : ∀ f, s.call p id f = ((s.partitions p).getPortQueuing id).bind fun port =>
      port.elim (some s) f := fun f => if_pos hpoint
  have hget : (s.partitions p).getPortQueuing id = if a.nportsQueuing < id then some none
      else (s.partitions p).ports[id]?.map fun port =>
        if port.isCreated then some port else none := by
    rw [← hlength]
    rfl
  unfold withPort at hcall
  split_ifs at hcall with hbehind hcreated
  · refine .inl ⟨(congrArg Prod.fst (Option.some.inj hcall)).symm, fun f => ?_⟩
    rw [hgo, hget, if_pos hbehind]
    rfl
  · have hlt : id < a.nportsQueuing := by omega
    refine .inr ⟨hlt, hcall, fun f => ?_⟩
    rw [hgo, hget, if_neg hbehind, h.port hlt]
    simp [hcreated]
  · have hlt : id < a.nportsQueuing := by omega
    refine .inl ⟨(congrArg Prod.fst (Option.some.inj hcall)).symm, fun f => ?_⟩
    rw [hgo, hget, if_neg hbehind, h.port hlt]
    simp [hcreated]

theorem HasRoom.setPoint (h : s.HasRoom) (q : Nat) (point : PortPoint) :
    (s.setPoint q point).HasRoom := by
  intro i
  by_cases hi : i = q
  · subst hi
    rw [PortSystem.setPoint, setPartition_partitions_self]
    exact h i
  · rw [PortSystem.setPoint, setPartition_partitions_ne hi]
    exact h i

theorem setPoint_point (s : PortSystem) (p : Nat) (point : PortPoint) :
    ((s.setPoint p point).partitions p).point = point := by
  rw [PortSystem.setPoint, setPartition_partitions_self]

section

variable {r : PartitionPorts × Option (PortErrno × PortData)} {timeout : Int} {waitLen : Nat}
  {unready : PortErrno} {data : PortData}

/-- Where a wait is needed, both let the caller wait or both refuse it. -/
theorem Shows.queueUp (h : s.Shows p a) (hid : id < a.nportsQueuing) (hunready : unready ≠ .ok)
    (hr : a.portWaitOrRefuse id waitLen timeout (a.waitRefusal timeout unready) data = some r) :
    ∃ t, (if a.MayWait timeout then s.block p id (a.portsQueuing id)
        ⟨a.currentThread, (a.threads a.currentThread).priority, waitLen⟩
      else s.setPoint p .again) = t ∧ (t.partitions p).point = .again ∧ t.Shows p r.1 := by
  refine ⟨_, rfl, ?_⟩
  unfold portWaitOrRefuse at hr
  by_cases hwait : a.MayWait timeout = true
  · rw [if_pos ((waitRefusal_ok hunready).mpr hwait)] at hr
    rw [if_pos hwait, ← Option.some.inj hr]
    refine ⟨?_, h.block hid waitLen timeout⟩
    rw [PortSystem.block, setPartition_partitions_self]
  · rw [if_neg (mt (waitRefusal_ok hunready).mp hwait)] at hr
    rw [if_neg hwait, ← Option.some.inj hr]
    exact ⟨setPoint_point s p .again, h.setPoint _⟩

/-- The message that a call has found is consumed by the next step. -/
theorem Shows.consume (h : s.Shows p a) (hroom : s.HasRoom) (hid : id < a.nportsQueuing)
    (hdirection : (a.portsQueuing id).direction = .recv)
    (hpoint : (s.partitions p).point = .consume id) {message : Nat × Nat}
    (hfound : (a.channels (a.portsQueuing id).channel).rGetMessage false =
      some (a.channels (a.portsQueuing id).channel, some message))
    (hr : a.portQueuingReceive (a.portsQueuing id).channel = some r) :
    ∃ t, s.step (p, .resume false [] []) = some t ∧
      (t.partitions p).point = .again ∧ t.Shows p r.1 := by
  unfold PartitionPorts.portQueuingReceive at hr
  rw [hfound] at hr
  obtain ⟨k, hconsume, rfl⟩ := Option.map_eq_some_iff.mp hr
  have hother : Side.send ≠ (a.portsQueuing id).direction := by
    rw [hdirection]
    decide
  obtain ⟨t, ht⟩ := HasRoom.notify (s := s.setChannel (a.portsQueuing id).channel k.1) hroom
    (a.portsQueuing id).channel .send k.2.2
  have hreceive : s.portQueuingReceive (a.portsQueuing id).channel = some t := by
    unfold PortSystem.portQueuingReceive
    rw [h.channel, h.peers id hid .send hother, hconsume]
    exact ht
  refine ⟨t.setPoint p .again, ?_, setPoint_point t p .again, ?_⟩
  · change s.resume p false [] [] = _
    unfold PortSystem.resume
    rw [hpoint]
    dsimp only
    rw [h.port hid]
    exact congrArg (Option.map _) hreceive
  · exact (((h.setChannel _ k.1).notify ht).setThread _ _).setPoint _

/-- The slot that a call has found is filled and passed on by the next step. -/
theorem Shows.produce (h : s.Shows p a) (hroom : s.HasRoom) (hid : id < a.nportsQueuing)
    (hdirection : (a.portsQueuing id).direction = .send) {bytes : List UInt8}
    (hpoint : (s.partitions p).point = .produce id bytes.length)
    (hfound : (a.channels (a.portsQueuing id).channel).sGetMessage false =
      some (a.channels (a.portsQueuing id).channel,
        some (a.channels (a.portsQueuing id).channel).send.nextMessage))
    (hr : a.portQueuingSend (a.portsQueuing id).channel bytes = some r) :
    ∃ t, s.step (p, .resume false [] bytes) = some t ∧
      (t.partitions p).point = .again ∧ t.Shows p r.1 := by
  unfold PartitionPorts.portQueuingSend at hr
  rw [hfound] at hr
  obtain ⟨k, hproduce, rfl⟩ := Option.map_eq_some_iff.mp hr
  have hother : Side.recv ≠ (a.portsQueuing id).direction := by
    rw [hdirection]
    decide
  obtain ⟨t, ht⟩ := HasRoom.notify (s := s.setChannel (a.portsQueuing id).channel k.1) hroom
    (a.portsQueuing id).channel .recv k.2
  have hsend : s.portQueuingSend (a.portsQueuing id).channel bytes = some t := by
    unfold PortSystem.portQueuingSend
    rw [h.channel, h.peers id hid .recv hother, hproduce]
    exact ht
  refine ⟨t.setPoint p .again, ?_, setPoint_point t p .again, ?_⟩
  · change s.resume p false [] bytes = _
    unfold PortSystem.resume
    rw [hpoint]
    dsimp only
    rw [h.port hid]
    dsimp only [Option.bind_some]
    rw [if_pos rfl, hsend]
    rfl
  · exact (((h.setChannel _ k.1).notify ht).setThread _ _).setPoint _

theorem setChannel_channel (s : PortSystem) (ch : Nat) : s.setChannel ch (s.channels ch) = s := by
  rw [PortSystem.setChannel, Function.update_eq_self]

/-- The steps of `pok_port_queuing_receive`, with its pointers accepted -/
theorem Shows.receive (h : s.Shows p a) (hroom : s.HasRoom)
    (hpoint : (s.partitions p).point = .outside) (hid : id ≠ a.nportsQueuing)
    (hfree : ¬ (s.partitions p).Waits a.currentThread)
    (hallowed : a.waitingAllowed = true → a.normal = true)
    (hcall : (a.portQueuingReceiveCall id true true (some timeout)).outcome = some r) :
    ∃ t, s.Completes p (.receive id a.currentThread (a.threads a.currentThread).priority
      (a.MayWait timeout)) [] t ∧ t.Shows p r.1 := by
  rcases h.call hpoint hid hcall with ⟨he, hf⟩ | ⟨hlt, hrest, hf⟩
  · exact ⟨s, ⟨s, hf _, .inl rfl, .inl hpoint⟩, he ▸ h⟩
  have hstep : s.step (p, .receive id a.currentThread (a.threads a.currentThread).priority
      (a.MayWait timeout)) = s.receive p id (a.portsQueuing id)
        ⟨a.currentThread, (a.threads a.currentThread).priority, 0⟩ (a.MayWait timeout) := by
    refine (hf _).trans ?_
    rw [if_neg hfree, h.mayWait hallowed]
  unfold PortSystem.receive at hstep
  simp only [not_true_eq_false, if_false] at hrest
  by_cases hdirection : (a.portsQueuing id).direction = .recv
  · rw [if_neg (not_not.mpr hdirection)] at hrest hstep
    by_cases hwaiters : (a.portsQueuing id).waiters = []
    · rw [if_neg (not_not.mpr hwaiters)] at hrest hstep
      obtain ⟨⟨c, found⟩, hget, hr⟩ := Option.bind_eq_some_iff.mp hrest
      rw [waitRefusal_eq_ok (by decide)] at hget
      rw [h.channel, hget] at hstep
      cases found with
      | none =>
        obtain ⟨t, ht, hover, hshows⟩ :=
          Shows.queueUp (h.setChannel (a.portsQueuing id).channel c) hlt (by decide) hr
        exact ⟨t, ⟨t, hstep.trans (congrArg some ht), .inl rfl, .inr hover⟩, hshows⟩
      | some message =>
        obtain ⟨rfl, hagain⟩ := ChannelQueuing.rGetMessage_found hget
        obtain ⟨t, ht, hover, hlast⟩ := (h.setPoint (.consume id)).consume (hroom.setPoint p _) hlt
          hdirection (setPoint_point s p _) (hagain false)
          (by rwa [PartitionPorts.setChannel_channel] at hr)
        refine ⟨t, ⟨s.setPoint p (.consume id), ?_, .inr ht, .inr hover⟩, hlast⟩
        rw [hstep, ← h.channel]
        simp [setChannel_channel]
    · rw [if_pos hwaiters] at hrest hstep
      obtain ⟨t, ht, hover, hshows⟩ := h.queueUp hlt (by decide) hrest
      exact ⟨t, ⟨t, hstep.trans (congrArg some ht), .inl rfl, .inr hover⟩, hshows⟩
  · rw [if_pos hdirection] at hrest hstep
    obtain rfl := Option.some.inj hrest
    exact ⟨s, ⟨s, hstep, .inl rfl, .inl hpoint⟩, h⟩

/-- The steps of `pok_port_queuing_send`, of memory that may be read -/
theorem Shows.send (h : s.Shows p a) (hroom : s.HasRoom)
    (hpoint : (s.partitions p).point = .outside) (hid : id ≠ a.nportsQueuing)
    (hfree : ¬ (s.partitions p).Waits a.currentThread)
    (hallowed : a.waitingAllowed = true → a.normal = true) {memory : Nat → UInt8} {len : Nat}
    (hcall : (a.portQueuingSendCall id (some memory) len (some timeout)).outcome = some r) :
    ∃ t, s.Completes p (.send id a.currentThread (a.threads a.currentThread).priority len
      (a.MayWait timeout)) ((List.range len).map memory) t ∧ t.Shows p r.1 := by
  rcases h.call hpoint hid hcall with ⟨he, hf⟩ | ⟨hlt, hrest, hf⟩
  · exact ⟨s, ⟨s, hf _, .inl rfl, .inl hpoint⟩, he ▸ h⟩
  have hstep : s.step (p, .send id a.currentThread (a.threads a.currentThread).priority len
      (a.MayWait timeout)) = s.send p id (a.portsQueuing id)
        ⟨a.currentThread, (a.threads a.currentThread).priority, len⟩ (a.MayWait timeout) := by
    refine (hf _).trans ?_
    rw [if_neg hfree, h.mayWait hallowed]
  unfold PortSystem.send at hstep
  rw [h.channel] at hstep
  dsimp only at hrest hstep
  by_cases hdirection : (a.portsQueuing id).direction = .send
  · rw [if_neg (not_not.mpr hdirection)] at hrest hstep
    by_cases hsize : len = 0 ∨ (a.channels (a.portsQueuing id).channel).maxMessageSize < len
    · rw [if_pos hsize] at hstep
      have hsame : r.1 = a := by
        rcases hsize with hzero | hlong
        · rw [if_pos hzero] at hrest
          exact (congrArg Prod.fst (Option.some.inj hrest)).symm
        · rw [if_pos hlong, ite_self] at hrest
          exact (congrArg Prod.fst (Option.some.inj hrest)).symm
      exact ⟨s, ⟨s, hstep, .inl rfl, .inl hpoint⟩, hsame ▸ h⟩
    rw [if_neg hsize] at hstep
    rw [if_neg (fun he => hsize (.inl he)), if_neg (fun hl => hsize (.inr hl))] at hrest
    by_cases hwaiters : (a.portsQueuing id).waiters = []
    · rw [if_neg (not_not.mpr hwaiters)] at hrest hstep
      obtain ⟨⟨c, found⟩, hget, hr⟩ := Option.bind_eq_some_iff.mp hrest
      rw [waitRefusal_eq_ok (by decide)] at hget
      rw [hget] at hstep
      cases found with
      | none =>
        obtain ⟨t, ht, hover, hshows⟩ :=
          Shows.queueUp (h.setChannel (a.portsQueuing id).channel c) hlt (by decide) hr
        exact ⟨t, ⟨t, hstep.trans (congrArg some ht), .inl rfl, .inr hover⟩, hshows⟩
      | some pos =>
        obtain ⟨rfl, rfl, hagain⟩ := ChannelQueuing.sGetMessage_found hget
        have hlength : ((List.range len).map memory).length = len := by simp
        have hproduce : ((s.setPoint p (.produce id len)).partitions p).point =
            .produce id ((List.range len).map memory).length := by
          rw [setPoint_point, hlength]
        obtain ⟨t, ht, hover, hlast⟩ := (h.setPoint (.produce id len)).produce
          (hroom.setPoint p _) hlt hdirection hproduce (hagain false)
          (by rwa [PartitionPorts.setChannel_channel] at hr)
        refine ⟨t, ⟨s.setPoint p (.produce id len), ?_, .inr ht, .inr hover⟩, hlast⟩
        rw [hstep, ← h.channel]
        simp [setChannel_channel]
    · rw [if_pos hwaiters] at hrest hstep
      obtain ⟨t, ht, hover, hshows⟩ := h.queueUp hlt (by decide) hrest
      exact ⟨t, ⟨t, hstep.trans (congrArg some ht), .inl rfl, .inr hover⟩, hshows⟩
  · rw [if_pos hdirection] at hrest hstep
    obtain rfl := Option.some.inj hrest
    exact ⟨s, ⟨s, hstep, .inl rfl, .inl hpoint⟩, h⟩

/-- The step of `pok_port_queuing_clear` -/
theorem Shows.clear (h : s.Shows p a) (hpoint : (s.partitions p).point = .outside)
    (hid : id ≠ a.nportsQueuing) (hcall : (a.portQueuingClear id).outcome = some r) :
    ∃ t, s.Completes p (.clear id) [] t ∧ t.Shows p r.1 := by
  rcases h.call hpoint hid hcall with ⟨he, hf⟩ | ⟨hlt, hrest, hf⟩
  · exact ⟨s, ⟨s, hf _, .inl rfl, .inl hpoint⟩, he ▸ h⟩
  have hstep : s.step (p, .clear id) = some (s.clear p id (a.portsQueuing id)) := hf _
  unfold PortSystem.clear PortSystem.sideInit at hstep
  dsimp only at hrest
  by_cases hdirection : (a.portsQueuing id).direction = .recv
  · rw [if_neg (not_not.mpr hdirection)] at hrest hstep
    obtain rfl := Option.some.inj hrest
    rw [h.channel, h.generation, hdirection] at hstep
    exact ⟨_, ⟨_, hstep, .inl rfl, .inr (setPoint_point _ p _)⟩, (h.setChannel _ _).setPoint _⟩
  · rw [if_pos hdirection] at hrest hstep
    obtain rfl := Option.some.inj hrest
    exact ⟨s, ⟨s, hstep, .inl rfl, .inl hpoint⟩, h⟩

/-- The side of the new port is connected. -/
theorem Shows.connect (h : s.Shows p a) (hid : id < a.nportsQueuing) (discipline : QueuingDiscipline)
    {direction : Side} (hdirection : direction = (a.portsQueuing id).direction) :
    ((s.setPartition p ((s.partitions p).setPort id { a.portsQueuing id with
      isCreated := true, discipline := discipline })).sideInit p id (a.portsQueuing id)).Shows p
      ((a.setQueuing id { a.portsQueuing id with
        isCreated := true, discipline := discipline }).setChannel (a.portsQueuing id).channel
          ((a.channels (a.portsQueuing id).channel).sideInit direction a.generation id)) := by
  have hset := h.setPort { a.portsQueuing id with
    isCreated := true, discipline := discipline } (s.partitions p).point hid rfl rfl
  have hsides := hset.setChannel (a.portsQueuing id).channel
    ((a.channels (a.portsQueuing id).channel).sideInit direction a.generation id)
  unfold PortSystem.sideInit
  rw [setPartition_channels, setPartition_partitions_self, h.channel, ← hdirection,
    show ((s.partitions p).setPort id _).generation = a.generation from h.generation]
  exact hsides

/-- The step of `pok_port_queuing_create`, of a port of the partition -/
theorem Shows.create (h : s.Shows p a) (hpoint : (s.partitions p).point = .outside)
    (hid : id < a.nportsQueuing) (messageSize maxNbMessage : Nat) (direction : Side)
    (discipline : QueuingDiscipline) :
    ∃ t, s.Completes p (.create id messageSize maxNbMessage direction discipline) [] t ∧
      t.Shows p (a.portQueuingCreate (some id) messageSize maxNbMessage direction
        discipline).1 := by
  have hstep : s.step (p, .create id messageSize maxNbMessage direction discipline) =
      some (s.create p id (a.portsQueuing id) messageSize maxNbMessage direction
        discipline) := by
    change (if _ then _ else _) = _
    rw [if_pos hpoint]
    exact congrArg (Option.map _) (h.port hid)
  refine ⟨_, ⟨_, hstep, .inl rfl, .inl ?_⟩, ?_⟩
  · have hout : ((s.setPartition p ((s.partitions p).setPort id { a.portsQueuing id with
        isCreated := true, discipline := discipline })).partitions p).point = .outside := by
      rw [setPartition_partitions_self]
      exact hpoint
    unfold PortSystem.create
    split_ifs <;> first | exact hpoint | exact hout
  · unfold PortSystem.create PartitionPorts.portQueuingCreate
    rw [h.channel, h.normal]
    cases direction <;> dsimp only <;> split_ifs with _ _ hdirection <;>
      first | exact h | exact h.connect hid discipline (not_not.mp hdirection)

end

end PortSystem

end Chpok
