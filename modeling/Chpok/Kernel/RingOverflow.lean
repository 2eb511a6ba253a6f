import Chpok.Kernel.RingCalls
import Mathlib.Data.List.Nodup

/-! The ring of a partition with one place for each queuing port and two for the timer does not
overflow. -/

namespace Chpok

open ChannelQueuing PortPartition PortSystem

/-- A step of partition `p` adds no event of a timer, and the timer is about to be set only when
none is left. -/
structure Calm (s t : PortSystem) (p : Nat) : Prop where
  timers : ∀ q, (t.partitions q).timerEvents ≤ (s.partitions q).timerEvents
  points : ∀ q, q ≠ p → (t.partitions q).point = (s.partitions q).point
  arrival : (t.partitions p).point = .timer → (t.partitions p).timerEvents = 0

namespace Calm

variable {s t : PortSystem} {part : PortPartition} {port : QueuingPort} {w : PortWaiter}
  {p id : Nat} {mayWait : Bool}

theorem of_update (h : t.partitions = Function.update s.partitions p part)
    (hle : part.timerEvents ≤ (s.partitions p).timerEvents)
    (harrival : part.point = .timer → part.timerEvents = 0) : Calm s t p where
  timers := by
    intro q
    rw [h]
    by_cases hq : q = p
    · subst hq
      rwa [Function.update_self]
    · exact Nat.le_of_eq (by rw [Function.update_of_ne hq])
  points := by
    intro q hq
    rw [h, Function.update_of_ne hq]
  arrival := by rwa [h, Function.update_self]

theorem of_point (h : t.partitions = Function.update s.partitions p part)
    (hevents : part.events = (s.partitions p).events) (hpoint : part.point ≠ .timer) :
    Calm s t p := by
  refine of_update h ?_ fun he => absurd he hpoint
  exact Nat.le_of_eq (by rw [timerEvents, timerEvents, hevents])

theorem refl (hpoint : (s.partitions p).point ≠ .timer) : Calm s s p :=
  of_point (Function.update_eq_self ..).symm rfl hpoint

theorem trans {u : PortSystem} (hst : Calm s t p) (htu : Calm t u p) : Calm s u p where
  timers := fun q => Nat.le_trans (htu.timers q) (hst.timers q)
  points := fun q hq => (htu.points q hq).trans (hst.points q hq)
  arrival := htu.arrival

theorem receive (hout : (s.partitions p).point = .outside)
    (ht : s.receive p id port w mayWait = some t) : Calm s t p := by
  have hpoint : (s.partitions p).point ≠ .timer := by
    rw [hout]
    decide
  unfold PortSystem.receive at ht
  split_ifs at ht
  · exact Option.some.inj ht ▸ refl hpoint
  · exact Option.some.inj ht ▸ of_point rfl rfl (by simp)
  · exact Option.some.inj ht ▸ of_point rfl rfl (by simp)
  all_goals
    obtain ⟨r, -, rfl⟩ := Option.map_eq_some_iff.mp ht
    split
    · exact of_point rfl rfl (by simp)
    · exact of_point rfl rfl (by simp)

theorem send (hout : (s.partitions p).point = .outside)
    (ht : s.send p id port w mayWait = some t) : Calm s t p := by
  have hpoint : (s.partitions p).point ≠ .timer := by
    rw [hout]
    decide
  unfold PortSystem.send at ht
  split_ifs at ht
  · exact Option.some.inj ht ▸ refl hpoint
  · exact Option.some.inj ht ▸ refl hpoint
  · exact Option.some.inj ht ▸ of_point rfl rfl (by simp)
  · exact Option.some.inj ht ▸ of_point rfl rfl (by simp)
  all_goals
    obtain ⟨r, -, rfl⟩ := Option.map_eq_some_iff.mp ht
    split
    · exact of_point rfl rfl (by simp)
    · exact of_point rfl rfl (by simp)

theorem portQueuingFired (ht : s.portQueuingFired p id port = some t) : Calm s t p := by
  unfold PortSystem.portQueuingFired at ht
  split at ht
  · exact Option.some.inj ht ▸ of_point rfl rfl (by simp)
  · split at ht
    all_goals
      obtain ⟨r, -, rfl⟩ := Option.map_eq_some_iff.mp ht
      split
      · exact of_point rfl rfl (by simp)
      · exact of_point rfl rfl (by simp)

theorem notify {ch : Nat} {side : Side} {event : Option PartitionEvent}
    (hty : ∀ e, event = some e → e.eventType ≠ .timer) (hn : s.notify ch side event = some t)
    (hpoint : (s.partitions p).point ≠ .timer) : Calm s t p := by
  have hplace := Bounded.notify_samePlace hn
  refine ⟨fun q => ?_, fun q _ => (hplace q).2.1, fun he => absurd ((hplace p).2.1 ▸ he) hpoint⟩
  cases event with
  | none =>
    obtain rfl := Option.some.inj hn
    exact Nat.le_refl _
  | some event =>
    obtain ⟨part, ha, rfl⟩ := Option.map_eq_some_iff.mp hn
    obtain rfl := addEvent_eq ha
    by_cases hq : q = s.part ch side
    · subst hq
      rw [setPartition_partitions_self, timerEvents_append rfl, if_neg (hty event rfl)]
      exact Nat.le_refl _
    · exact Nat.le_of_eq (by rw [setPartition_partitions_ne hq])

theorem portQueuingReceive (h : Bounded s) {ch : Nat} (hr : s.portQueuingReceive ch = some t)
    (hpoint : (s.partitions p).point ≠ .timer) : Calm s t p := by
  obtain ⟨r, hc, hn⟩ := Option.bind_eq_some_iff.mp hr
  obtain ⟨-, htells⟩ := rConsumeMessage_tells (h.channels ch) hc
  have hnotify : Calm (s.setChannel ch r.1) t p :=
    notify (fun e he => (htells.sent e he).2.2.2.1) hn hpoint
  exact ⟨hnotify.timers, hnotify.points, hnotify.arrival⟩

theorem portQueuingSend {ch : Nat} {bytes : List UInt8}
    (hr : s.portQueuingSend ch bytes = some t) (hpoint : (s.partitions p).point ≠ .timer) :
    Calm s t p := by
  obtain ⟨r, hc, hn⟩ := Option.bind_eq_some_iff.mp hr
  have hty (e : PartitionEvent) (he : r.2 = some e) : e.eventType ≠ .timer := by
    unfold sProduceMessage at hc
    split_ifs at hc
    obtain rfl := Option.some.inj hc
    unfold sTransmit at he
    split_ifs at he
    obtain ⟨-, rfl, -⟩ := sideNotify_some he
    simp
  have hnotify : Calm (s.setChannel ch r.1) t p := notify hty hn hpoint
  exact ⟨hnotify.timers, hnotify.points, hnotify.arrival⟩

theorem setPoint {point : PortPoint} (hpoint : point ≠ .timer) : Calm s (s.setPoint p point) p :=
  of_point rfl rfl hpoint

theorem timerEvents_nil (h : part.events = []) : part.timerEvents = 0 := by
  rw [timerEvents, h]
  rfl

theorem resume (h : Bounded s) {due : Bool} {expired : List Nat} {bytes : List UInt8}
    (ht : s.resume p due expired bytes = some t) : Calm s t p := by
  unfold PortSystem.resume at ht
  cases hpoint : (s.partitions p).point with
  | outside =>
    simp only [hpoint] at ht
    cases ht
  | consume id =>
    simp only [hpoint] at ht
    obtain ⟨port, -, hf⟩ := Option.bind_eq_some_iff.mp ht
    obtain ⟨s₁, hs₁, rfl⟩ := Option.map_eq_some_iff.mp hf
    exact (portQueuingReceive h hs₁ (by simp [hpoint])).trans (setPoint (by simp))
  | produce id len =>
    simp only [hpoint] at ht
    obtain ⟨port, -, hf⟩ := Option.bind_eq_some_iff.mp ht
    split_ifs at hf
    obtain ⟨s₁, hs₁, rfl⟩ := Option.map_eq_some_iff.mp hf
    exact (portQueuingSend hs₁ (by simp [hpoint])).trans (setPoint (by simp))
  | again =>
    simp only [hpoint] at ht
    split_ifs at ht with hset
    · exact Option.some.inj ht ▸ of_point rfl rfl (by simp)
    · refine Option.some.inj ht ▸ of_update rfl (Nat.le_refl _) fun _ => timerEvents_nil ?_
      by_contra hne
      exact hset (h.flagged_of (by rw [hpoint]; exact fun hd => hd) hne)
  | drain =>
    simp only [hpoint] at ht
    split at ht
    · rename_i hnil
      exact Option.some.inj ht ▸ of_update rfl (Nat.le_refl _) fun _ => timerEvents_nil hnil
    · rename_i event rest hevents
      have hle : List.countP (fun e : PartitionEvent => decide (e.eventType = .timer)) rest ≤
          (s.partitions p).timerEvents := by
        rw [timerEvents, hevents]
        exact (List.sublist_cons_self _ _).countP_le
      split at ht
      · refine Option.some.inj ht ▸ of_update rfl hle fun he => ?_
        exact absurd he (by simp [PortPartition.remove, hpoint])
      all_goals exact Option.some.inj ht ▸ of_update rfl hle fun he => by simp at he
  | fired id =>
    simp only [hpoint] at ht
    obtain ⟨port, -, hf⟩ := Option.bind_eq_some_iff.mp ht
    exact portQueuingFired hf
  | firedConsume id =>
    simp only [hpoint] at ht
    obtain ⟨port, -, hf⟩ := Option.bind_eq_some_iff.mp ht
    obtain ⟨s₁, hs₁, rfl⟩ := Option.map_eq_some_iff.mp hf
    exact (portQueuingReceive h hs₁ (by simp [hpoint])).trans (setPoint (by simp))
  | firedProduce id len =>
    simp only [hpoint] at ht
    obtain ⟨port, -, hf⟩ := Option.bind_eq_some_iff.mp ht
    split_ifs at hf
    obtain ⟨s₁, hs₁, rfl⟩ := Option.map_eq_some_iff.mp hf
    exact (portQueuingSend hs₁ (by simp [hpoint])).trans (setPoint (by simp))
  | timer =>
    simp only [hpoint] at ht
    split_ifs at ht
    · exact Option.some.inj ht ▸ of_point rfl rfl (by simp)
    · exact Option.some.inj ht ▸ setPoint (by simp)
  | enable =>
    simp only [hpoint] at ht
    refine Option.some.inj ht ▸ setPoint ?_
    split_ifs <;> simp

theorem step (h : Bounded s) {e : Nat × PortInput} (hne : e.2 ≠ .timerEvent)
    (hst : s.step e = some t) : Calm s t e.1 := by
  obtain ⟨p, e⟩ := e
  cases e with
  | create id messageSize maxNbMessage direction discipline =>
    simp only [PortSystem.step] at hst
    split_ifs at hst with hout
    obtain ⟨port, -, rfl⟩ := Option.map_eq_some_iff.mp hst
    have hpoint : (s.partitions p).point ≠ .timer := by simp [hout]
    unfold PortSystem.create
    split_ifs
    any_goals exact refl hpoint
    exact of_point rfl rfl hpoint
  | setModeNormal =>
    simp only [PortSystem.step] at hst
    split_ifs at hst
    exact Option.some.inj hst ▸ of_point rfl rfl (by simp)
  | receive id thread priority mayWait =>
    obtain ⟨hout, rfl | ⟨port, -, hf⟩⟩ := call_cases hst
    · exact refl (by simp [hout])
    · split_ifs at hf
      exact receive hout hf
  | send id thread priority len mayWait =>
    obtain ⟨hout, rfl | ⟨port, -, hf⟩⟩ := call_cases hst
    · exact refl (by simp [hout])
    · split_ifs at hf
      exact send hout hf
  | clear id =>
    obtain ⟨hout, rfl | ⟨port, -, hf⟩⟩ := call_cases hst
    · exact refl (by simp [hout])
    · obtain rfl := Option.some.inj hf
      unfold PortSystem.clear
      split_ifs
      · exact refl (by simp [hout])
      · exact of_point rfl rfl (by simp)
  | stop thread =>
    simp only [PortSystem.step] at hst
    split_ifs at hst
    exact Option.some.inj hst ▸ of_point rfl rfl (by simp)
  | timerEvent => exact absurd rfl hne
  | onEvent =>
    simp only [PortSystem.step] at hst
    split_ifs at hst
    exact Option.some.inj hst ▸ setPoint (by simp)
  | restart =>
    obtain rfl := Option.some.inj hst
    refine of_update rfl ?_ fun he => by simp [PortPartition.restart] at he
    rw [timerEvents_nil rfl]
    exact Nat.zero_le _
  | resume due expired bytes => exact resume h hst

end Calm

/-! The ring of the code -/

namespace PartitionEvents

variable {ring : PartitionEvents}

theorem addEvent_isSome (h : ring.InRing) (hroom : ring.pending.length < ring.eventMax)
    (event : PartitionEvent) : (ring.addEvent event).isSome := by
  have hlt := RingIndex.sub_lt h.stop h.start
  rw [pending, RingIndex.segment_length] at hroom
  have hmax := h.max
  have hstop := h.stop
  have hstart := h.start
  have hnext : (if ring.eventMax < (ring.eventEnd + 1) % 65536 then 0
      else (ring.eventEnd + 1) % 65536) ≠ ring.eventBegin := by
    intro he
    rw [count, RingIndex.sub] at hroom
    split_ifs at he hroom <;> omega
  simp only [PartitionEvents.addEvent, if_neg (by omega : ¬ ring.eventMax = 0), if_neg hnext]
  rfl

end PartitionEvents

namespace RingSystem

variable {s t : RingSystem} {p : Nat}

structure Inv (s : RingSystem) : Prop where
  bounded : Bounded s.toPortSystem
  timers : ∀ p, (s.partitions p).TimerOk (s.timer p) (s.timerSet p)

/-- A channel as it has been deployed and initialised -/
def FreshChannel (c : ChannelQueuing) : Prop :=
  ∃ d : ChannelQueuing, 1 ≤ d.recv.maxNbMessage ∧ 1 ≤ d.send.maxNbMessage ∧
    d.recv.maxNbMessage + d.send.maxNbMessage < 65536 ∧ c = d.init

/-- The configuration, and the state in which all partitions have just been started. The fields of
the timers may hold anything. -/
structure Booted (s : RingSystem) : Prop extends PortSystem.Booted s.toPortSystem where
  eventMax : ∀ p, (s.partitions p).eventMax = (s.partitions p).ports.length + 2
  fresh : ∀ ch, FreshChannel (s.channels ch)

theorem FreshChannel.facts {c : ChannelQueuing} (h : FreshChannel c) :
    ChannelBound c ∧ ∀ side, (c.sideOf side).isNotify = false := by
  obtain ⟨d, hrecv, hsend, hsum, rfl⟩ := h
  have hmax : d.init.maxNbMessage = d.recv.maxNbMessage + d.send.maxNbMessage := by
    rw [ChannelQueuing.init]
    exact Nat.mod_eq_of_lt hsum
  have hpos : 0 < d.init.maxNbMessage := by omega
  refine ⟨⟨⟨hrecv, hsend, hmax, by omega⟩, ⟨hpos, hpos, hpos⟩, ?_⟩, fun side => ?_⟩
  · simp [ChannelQueuing.init, ChannelQueuing.sNMessages, ChannelQueuing.cyclicSub]
  · cases side <;> rfl

theorem Booted.inv (h : s.Booted) : s.Inv := by
  have hquiet (p : Nat) := h.quiet p
  refine ⟨⟨⟨fun p id port hp => h.attached p port (List.mem_of_getElem? hp), h.unique⟩,
    fun p => ⟨?_, fun id hid => ?_, fun hne => absurd (hquiet p).1 hne, h.eventMax p⟩,
    fun p id port hp => ?_, fun ch => (h.fresh ch).facts.1, fun ch side hnotify => ?_⟩,
    fun p => ⟨?_, fun hpoint => ?_⟩⟩
  · rw [portIds, (hquiet p).1]
    exact List.nodup_nil
  · rw [portIds, (hquiet p).1] at hid
    cases hid
  · obtain ⟨hnot, hnil⟩ := h.idle p port (List.mem_of_getElem? hp)
    refine ⟨fun _ => hnil, fun hcr => ?_, fun hnotify => ?_, fun hs => ?_, fun hcr => ?_, ?_⟩
    · rw [hnot] at hcr
      contradiction
    · rw [(h.fresh _).facts.2] at hnotify
      contradiction
    · rw [(hquiet p).2] at hs
      exact hs.elim
    · rw [hnot] at hcr
      contradiction
    · rw [(hquiet p).2]
      trivial
  · rw [(h.fresh ch).facts.2] at hnotify
    contradiction
  · rw [Calm.timerEvents_nil (hquiet p).1]
    split_ifs <;> omega
  · rw [(hquiet p).2] at hpoint
    contradiction

theorem TimerOk.of_calm {u : PortSystem} (h : s.Inv) (hcalm : Calm s.toPortSystem u p) (q : Nat) :
    (u.partitions q).TimerOk (s.timer q) (Function.update s.timerSet p false q) := by
  have hok := h.timers q
  have htwo := hok.two
  have hle := hcalm.timers q
  refine ⟨by omega, fun hpoint hset => ?_⟩
  by_cases hq : q = p
  · subst hq
    rw [hcalm.arrival hpoint]
    split_ifs <;> omega
  · rw [Function.update_of_ne hq] at hset
    rw [hcalm.points q hq] at hpoint
    have hone := hok.one hpoint hset
    omega

theorem Inv.timeChanged (h : s.Inv) {now : Int} (hst : s.timeChanged p now = some t) : t.Inv := by
  unfold RingSystem.timeChanged at hst
  split_ifs at hst with hdue
  · obtain ⟨part, ha, rfl⟩ := Option.map_eq_some_iff.mp hst
    refine ⟨h.bounded.addEvent ha fun hty => absurd rfl hty, fun q => ?_⟩
    obtain rfl := addEvent_eq ha
    have hok := h.timers q
    by_cases hq : q = p
    · subst hq
      have htwo := hok.two
      rw [if_neg hdue.1] at htwo
      simp only [setPartition_partitions_self, Function.update_self]
      refine ⟨?_, fun hpoint hset => ?_⟩
      · rw [timerEvents_append rfl]
        simpa using htwo
      · have hone := hok.one hpoint hset
        rw [if_neg hdue.1] at hone
        rw [timerEvents_append rfl]
        simpa using hone
    · simp only [setPartition_partitions_ne hq, Function.update_of_ne hq]
      exact hok
  · exact Option.some.inj hst ▸ h

theorem Inv.step {e : Nat × RingInput} (h : s.Inv) (hst : s.step e = some t) : t.Inv := by
  obtain ⟨p, e⟩ := e
  cases e with
  | port i =>
    have hne : i ≠ .timerEvent := by
      rintro rfl
      simp [RingSystem.step] at hst
    have hstep : (if (s.partitions p).point = .timer ∧ s.timerSet p = false ∧ i ≠ .restart then none
        else (s.toPortSystem.step (p, i)).map fun ports => { s with
          toPortSystem := ports
          timerSet := Function.update s.timerSet p false }) = some t := by
      cases i <;> first | exact hst | exact absurd rfl hne
    split_ifs at hstep
    obtain ⟨ports, hports, rfl⟩ := Option.map_eq_some_iff.mp hstep
    exact ⟨h.bounded.step hports, fun q => TimerOk.of_calm h (Calm.step h.bounded hne hports) q⟩
  | setTimer timer =>
    simp only [RingSystem.step] at hst
    split_ifs at hst with hpoint
    obtain rfl := Option.some.inj hst
    refine ⟨h.bounded, fun q => ?_⟩
    have hok := h.timers q
    by_cases hq : q = p
    · subst hq
      have hone := hok.one hpoint.1 hpoint.2
      simp only [Function.update_self]
      refine ⟨?_, fun _ hset => by contradiction⟩
      split_ifs at hone ⊢ <;> omega
    · simp only [Function.update_of_ne hq]
      exact hok
  | timeChanged now => exact h.timeChanged hst

/-- The ring of the code that holds the events of partition `p` has room for another one. -/
def HasRoom (s : RingSystem) (p : Nat) : Prop :=
  ∀ ring : PartitionEvents, ring.InRing → ring.eventMax = (s.partitions p).eventMax →
    ring.pending = (s.partitions p).events → ∀ event, (ring.addEvent event).isSome

theorem hasRoom_of_lt (hlt : (s.partitions p).events.length < (s.partitions p).eventMax) :
    s.HasRoom p := by
  intro ring hring hmax hpending event
  apply PartitionEvents.addEvent_isSome hring
  rwa [hmax, hpending]

theorem Inv.timer_room (h : s.Inv) (hset : s.timer p ≠ 0) :
    (s.partitions p).events.length < (s.partitions p).eventMax := by
  have hring := h.bounded.ring p
  have hids := hring.ids_length
  have htwo := (h.timers p).two
  rw [if_neg hset] at htwo
  rw [events_length, hring.max]
  omega

theorem Inv.notify_room (h : s.Inv) {ch : Nat} {side : Side}
    (hnotify : ((s.channels ch).sideOf side).isNotify = true) :
    (s.partitions (s.part ch side)).events.length < (s.partitions (s.part ch side)).eventMax := by
  obtain ⟨id, port, hport, -, -, hfresh, -⟩ := h.bounded.asks hnotify
  have hring := h.bounded.ring (s.part ch side)
  have hids := hring.ids_length_lt (List.getElem?_eq_some_iff.mp hport).1 hfresh
  have htwo := (h.timers (s.part ch side)).two
  rw [events_length, hring.max]
  split_ifs at htwo <;> omega

theorem Inv.notify_isSome (h : s.Inv) {ch : Nat} {d : ChannelQueuing} {side : Side}
    {event : Option PartitionEvent} (htells : Tells (s.channels ch) d side event) :
    ((s.toPortSystem.setChannel ch d).notify ch side event).isSome := by
  cases event with
  | none => rfl
  | some e =>
    have hroom := h.notify_room (htells.sent e rfl).1
    have hadd : ((s.partitions (s.part ch side)).addEvent e).isSome :=
      PortPartition.addEvent_isSome hroom
    rw [PortSystem.notify, Option.isSome_map]
    exact hadd

theorem count_portIds (part : PortPartition) (id : Nat) : part.portIds.count id =
    part.events.countP fun e => e.eventType ≠ .timer ∧ e.handlerId = id := by
  rw [portIds, List.count, List.countP_map, List.countP_filter]
  congr 1
  funext e
  simp [Bool.and_comm, beq_eq_decide]

/-- Partition 0 sends to partition 1, with event rings of the generated size. -/
def senderAndReceiverRings : RingSystem where
  toPortSystem := { PortSystem.senderAndReceiver with
    partitions := fun p => { senderAndReceiver.partitions p with
      eventMax := (PortSystem.senderAndReceiver.partitions p).ports.length + 2 } }
  timer _ := 0
  timerSet _ := false

theorem senderAndReceiverRings_booted : senderAndReceiverRings.Booted where
  attached := PortSystem.senderAndReceiver_booted.attached
  unique := PortSystem.senderAndReceiver_booted.unique
  idle := PortSystem.senderAndReceiver_booted.idle
  quiet := PortSystem.senderAndReceiver_booted.quiet
  eventMax _ := rfl
  fresh _ := ⟨ChannelSystem.oneAndTwo, by decide, by decide, by decide, rfl⟩

/-- A section that ends with the timer at `timer`. -/
def sectionEndTimer (p : Nat) (timer : Int) : List (Nat × RingInput) :=
  [(p, .port (.resume false [] [])), (p, .setTimer timer), (p, .port (.resume false [] [])),
    (p, .port (.resume false [] []))]

/-- A process of partition 1 waits for a message until time 10. The message comes, and the time
passes before the partition handles it. -/
def messageAndTimer : List (Nat × RingInput) :=
  [(0, .port (.create 0 4 2 .send .fifo)), (1, .port (.create 0 4 1 .recv .fifo)),
      (1, .port .setModeNormal)] ++ sectionEndTimer 1 0 ++
    [(1, .port (.receive 0 7 10 true))] ++ sectionEndTimer 1 10 ++
    [(0, .port (.send 0 3 10 1 false)), (0, .port (.resume false [] [65])), (1, .timeChanged 12)]

end RingSystem

end Chpok
