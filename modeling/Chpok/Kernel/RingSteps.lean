import Chpok.Kernel.RingBounds

/-! The steps of the partitions keep the bounds of the event rings. -/

namespace Chpok

open ChannelQueuing PortPartition

variable {s t : PortSystem} {part part' : PortPartition} {c d : ChannelQueuing}
  {port port' : QueuingPort} {p q id ch : Nat}

/-- The code goes on, and a port stays as it was. -/
theorem PortBound.move (h : PortBound part c id port) (hdirection : port'.direction = port.direction)
    (hcreated : port'.isCreated = port.isCreated)
    (hidle : port'.isCreated = false → port'.waiters = [])
    (hgeneration : part'.generation = part.generation)
    (hids : id ∈ part'.portIds → id ∈ part.portIds)
    (hserved : part'.point.Serves id → id ∉ part'.portIds ∧ (c.sideOf port.direction).isNotify = false)
    (hthere : port.isCreated = true → part'.normal = true → part'.point.Rests id →
      id ∈ part'.portIds → c.Available port.direction)
    (htakes : part'.point.Takes id port.direction) : PortBound part' c id port' where
  idle := hidle
  linked := by
    rw [hcreated, hdirection, hgeneration]
    exact h.linked
  notified := by
    rw [hdirection]
    intro hnotify
    obtain ⟨hnot, hid⟩ := h.notified hnotify
    exact ⟨fun hmem => hnot (hids hmem), hid⟩
  served := by
    rw [hdirection]
    exact hserved
  there := by
    rw [hcreated, hdirection]
    exact hthere
  takes := by
    rw [hdirection]
    exact htakes

/-- The channel of a port moves on, and its side does not begin to ask for events. -/
theorem PortBound.setChannel (h : PortBound part c id port) (hlink : d.SameLink c port.direction)
    (hdown : (d.sideOf port.direction).isNotify = true →
      (c.sideOf port.direction).isNotify = true)
    (hthere : port.isCreated = true → part.normal = true → part.point.Rests id →
      id ∈ part.portIds → d.Available port.direction) : PortBound part d id port where
  idle := h.idle
  linked hcreated := by
    obtain ⟨hgeneration, hid⟩ := h.linked hcreated
    exact ⟨hlink.1.trans hgeneration, hlink.2.trans hid⟩
  notified hnotify := by
    obtain ⟨hfresh, hid⟩ := h.notified (hdown hnotify)
    exact ⟨hfresh, hlink.2.trans hid⟩
  served hserves := by
    obtain ⟨hfresh, hquiet⟩ := h.served hserves
    refine ⟨hfresh, ?_⟩
    by_contra hset
    rw [hdown (by simpa using hset)] at hquiet
    contradiction
  there := hthere
  takes := h.takes

/-- The ports are not looked at from such a point. -/
def PortPoint.Parked (point : PortPoint) : Prop := point = .again ∨ point = .drain

theorem PortPoint.Parked.facts {point : PortPoint} (h : point.Parked) (id : Nat) :
    ¬ point.Serves id ∧ ¬ point.Rests id ∧ ∀ direction, point.Takes id direction := by
  rcases h with rfl | rfl
  · exact ⟨fun hs => hs, fun hr => hr, fun _ => trivial⟩
  · exact ⟨fun hs => hs, fun hr => hr, fun _ => trivial⟩

namespace Bounded

theorem setPartition (h : Bounded s) (hring : part.RingOk)
    (hlength : part.ports.length = (s.partitions p).ports.length)
    (hports : ∀ id port', part.ports[id]? = some port' → ∃ port,
      (s.partitions p).ports[id]? = some port ∧ port'.channel = port.channel ∧
        port'.direction = port.direction ∧ PortBound part (s.channels port.channel) id port') :
    Bounded (s.setPartition p part) where
  wired := by
    constructor
    · intro q id port' hp
      by_cases hq : q = p
      · subst hq
        rw [PortSystem.setPartition_partitions_self] at hp
        obtain ⟨port, hport, hc, hd, -⟩ := hports id port' hp
        rw [hc, hd]
        exact h.wired.attached q id port hport
      · rw [PortSystem.setPartition_partitions_ne hq] at hp
        exact h.wired.attached q id port' hp
    · intro q i j port port' hi hj hc hd
      by_cases hq : q = p
      · subst hq
        rw [PortSystem.setPartition_partitions_self] at hi hj
        obtain ⟨port0, hport0, hc0, hd0, -⟩ := hports i port hi
        obtain ⟨port1, hport1, hc1, hd1, -⟩ := hports j port' hj
        exact h.wired.unique q i j port0 port1 hport0 hport1 (by rw [← hc0, ← hc1, hc])
          (by rw [← hd0, ← hd1, hd])
      · rw [PortSystem.setPartition_partitions_ne hq] at hi hj
        exact h.wired.unique q i j port port' hi hj hc hd
  ring := by
    intro q
    by_cases hq : q = p
    · subst hq
      rwa [PortSystem.setPartition_partitions_self]
    · rw [PortSystem.setPartition_partitions_ne hq]
      exact h.ring q
  ports := by
    intro q id port' hp
    by_cases hq : q = p
    · subst hq
      rw [PortSystem.setPartition_partitions_self] at hp ⊢
      obtain ⟨port, -, hc, -, hbound⟩ := hports id port' hp
      rw [hc]
      exact hbound
    · rw [PortSystem.setPartition_partitions_ne hq] at hp ⊢
      exact h.ports q id port' hp
  channels := h.channels
  owned := by
    intro ch side hnotify
    obtain ⟨id, port, hport, hc, hd⟩ := h.owned ch side hnotify
    by_cases hq : s.part ch side = p
    · rw [PortSystem.setPartition_part, hq, PortSystem.setPartition_partitions_self]
      rw [hq] at hport
      have hlt : id < part.ports.length := by
        rw [hlength]
        exact (List.getElem?_eq_some_iff.mp hport).1
      obtain ⟨port0, hport0, hc0, hd0, -⟩ := hports id _ (List.getElem?_eq_getElem hlt)
      obtain rfl := Option.some.inj (hport.symm.trans hport0)
      exact ⟨id, _, List.getElem?_eq_getElem hlt, hc0.trans hc, hd0.trans hd⟩
    · rw [PortSystem.setPartition_part, PortSystem.setPartition_partitions_ne hq]
      exact ⟨id, port, hport, hc, hd⟩

theorem setChannel (h : Bounded s) (hbound : ChannelBound d)
    (hports : ∀ p id port, (s.partitions p).ports[id]? = some port → port.channel = ch →
      PortBound (s.partitions p) d id port)
    (howned : ∀ side, (d.sideOf side).isNotify = true →
      ((s.channels ch).sideOf side).isNotify = true ∨ ∃ (id : Nat) (port : QueuingPort),
        (s.partitions (s.part ch side)).ports[id]? = some port ∧ port.channel = ch ∧
          port.direction = side) : Bounded (s.setChannel ch d) where
  wired := ⟨h.wired.attached, h.wired.unique⟩
  ring := h.ring
  ports := by
    intro p id port hp
    by_cases hc : port.channel = ch
    · rw [hc, PortSystem.setChannel_channels_self]
      exact hports p id port hp hc
    · rw [PortSystem.setChannel_channels_ne hc]
      exact h.ports p id port hp
  channels := by
    intro ch'
    by_cases hc : ch' = ch
    · subst hc
      rwa [PortSystem.setChannel_channels_self]
    · rw [PortSystem.setChannel_channels_ne hc]
      exact h.channels ch'
  owned := by
    intro ch' side hnotify
    by_cases hc : ch' = ch
    · subst hc
      rw [PortSystem.setChannel_channels_self] at hnotify
      exact (howned side hnotify).elim (h.owned ch' side) id
    · rw [PortSystem.setChannel_channels_ne hc] at hnotify
      exact h.owned ch' side hnotify

end Bounded

theorem ChannelQueuing.fill_bound (h : ChannelBound c) (pos : Nat) (bytes : List UInt8) :
    ChannelBound (c.fill pos bytes) :=
  ⟨h.sized.of_same (fill_places c pos bytes).toSameConfig, h.inRing.of_same (fill_places c pos bytes),
    h.send⟩

namespace PortPartition

variable {event : PartitionEvent}

theorem addEvent_eq (ha : part.addEvent event = some part') :
    part' = { part with
      events := part.events ++ [event]
      isEvent := part.isEvent || part.events.isEmpty } := by
  unfold addEvent at ha
  split_ifs at ha
  exact (Option.some.inj ha).symm

theorem portIds_append (h : part'.events = part.events ++ [event]) :
    part'.portIds = part.portIds ++ if event.eventType = .timer then [] else [event.handlerId] := by
  rw [portIds, portIds, h, List.filter_append, List.map_append]
  congr 1
  split_ifs with hty <;> simp [hty]

theorem timerEvents_append (h : part'.events = part.events ++ [event]) :
    part'.timerEvents = part.timerEvents + if event.eventType = .timer then 1 else 0 := by
  rw [timerEvents, timerEvents, h, List.countP_append, List.countP_singleton]
  simp only [decide_eq_true_eq]

theorem RingOk.addEvent (h : part.RingOk) (ha : part.addEvent event = some part')
    (hport : event.eventType ≠ .timer →
      event.handlerId < part.ports.length ∧ event.handlerId ∉ part.portIds) : part'.RingOk := by
  obtain rfl := addEvent_eq ha
  have hids : ({ part with
      events := part.events ++ [event]
      isEvent := part.isEvent || part.events.isEmpty } : PortPartition).portIds =
        part.portIds ++ if event.eventType = .timer then [] else [event.handlerId] :=
    portIds_append rfl
  refine ⟨?_, ?_, ?_, h.max⟩
  · rw [hids]
    split_ifs with hty
    · rw [List.append_nil]
      exact h.once
    · refine List.nodup_append.mpr ⟨h.once, by simp, fun a hmem b hb => ?_⟩
      rw [List.mem_singleton.mp hb]
      rintro rfl
      exact (hport hty).2 hmem
  · intro id hid
    rw [hids, List.mem_append] at hid
    rcases hid with hid | hid
    · exact h.named id hid
    · split_ifs at hid with hty
      · cases hid
      · obtain rfl := List.mem_singleton.mp hid
        exact (hport hty).1
  · intro _
    by_cases he : part.events = []
    · left
      simp [he]
    · rcases h.flagged he with hset | hdrains
      · left
        simp [hset]
      · exact .inr hdrains

end PortPartition

namespace Bounded

variable {event : PartitionEvent}

/-- The port of the event has something to do and has not been told so yet. -/
structure Reaches (s : PortSystem) (q : Nat) (event : PartitionEvent) : Prop where
  port : ∃ port, (s.partitions q).ports[event.handlerId]? = some port ∧
    ((s.channels port.channel).sideOf port.direction).isNotify = false ∧
      (s.channels port.channel).Available port.direction
  fresh : event.handlerId ∉ (s.partitions q).portIds
  unserved : ¬ (s.partitions q).point.Serves event.handlerId

theorem addEvent (h : Bounded s) (ha : (s.partitions q).addEvent event = some part)
    (hreaches : event.eventType ≠ .timer → Reaches s q event) :
    Bounded (s.setPartition q part) := by
  have hring : part.RingOk := by
    refine (h.ring q).addEvent ha fun hty => ?_
    obtain ⟨⟨port, hport, -⟩, hfresh, -⟩ := hreaches hty
    exact ⟨(List.getElem?_eq_some_iff.mp hport).1, hfresh⟩
  obtain rfl := addEvent_eq ha
  refine h.setPartition hring rfl fun id port hp => ⟨port, hp, rfl, rfl, ?_⟩
  have hbound := h.ports q id port hp
  by_cases hid : event.eventType ≠ .timer ∧ event.handlerId = id
  · -- the port that is told
    obtain ⟨hty, rfl⟩ := hid
    obtain ⟨⟨port', hport, hquiet, havailable⟩, hfresh, hunserved⟩ := hreaches hty
    obtain rfl := Option.some.inj (hp.symm.trans hport)
    refine ⟨hbound.idle, hbound.linked, fun hnotify => ?_, fun hs => absurd hs hunserved,
      fun _ _ _ _ => havailable, hbound.takes⟩
    rw [hquiet] at hnotify
    contradiction
  · have hids : id ∈ PortPartition.portIds { s.partitions q with
        events := (s.partitions q).events ++ [event]
        isEvent := (s.partitions q).isEvent || (s.partitions q).events.isEmpty } →
        id ∈ (s.partitions q).portIds := by
      rw [portIds_append rfl, List.mem_append]
      rintro (hid' | hid')
      · exact hid'
      · split_ifs at hid' with hty
        · cases hid'
        · exact absurd ⟨hty, (List.mem_singleton.mp hid').symm⟩ hid
    refine hbound.move rfl rfl hbound.idle rfl hids (fun hs => ?_) (fun hc hn hr hmem => ?_)
      hbound.takes
    · obtain ⟨hnot, hquiet⟩ := hbound.served hs
      exact ⟨fun hmem => hnot (hids hmem), hquiet⟩
    · exact hbound.there hc hn hr (hids hmem)

theorem notify_samePlace {side : Side} {event : Option PartitionEvent}
    (hn : s.notify ch side event = some t) : t.SamePlace s := by
  cases event with
  | none =>
    obtain rfl := Option.some.inj hn
    exact fun q => ⟨rfl, rfl, rfl⟩
  | some event =>
    obtain ⟨part, ha, rfl⟩ := Option.map_eq_some_iff.mp hn
    obtain rfl := addEvent_eq ha
    intro q
    by_cases hq : q = s.part ch side
    · subst hq
      rw [PortSystem.setPartition_partitions_self]
      exact ⟨rfl, rfl, rfl⟩
    · rw [PortSystem.setPartition_partitions_ne hq]
      exact ⟨rfl, rfl, rfl⟩

theorem same_port (h : Bounded s) {j : Nat} (hp : (s.partitions p).ports[id]? = some port)
    (hp' : (s.partitions q).ports[j]? = some port') (hc : port'.channel = port.channel)
    (hd : port'.direction = port.direction) : q = p ∧ j = id := by
  have hq : q = p := by
    rw [← h.wired.attached q j port' hp', ← h.wired.attached p id port hp, hc, hd]
  subst hq
  exact ⟨rfl, h.wired.unique q j id port' port hp' hp hc hd⟩

theorem asks (h : Bounded s) {side : Side} (hnotify : ((s.channels ch).sideOf side).isNotify = true) :
    ∃ (id : Nat) (port : QueuingPort), (s.partitions (s.part ch side)).ports[id]? = some port ∧
      port.channel = ch ∧ port.direction = side ∧ id ∉ (s.partitions (s.part ch side)).portIds ∧
        ((s.channels ch).sideOf side).handlerId = id ∧
          ¬ (s.partitions (s.part ch side)).point.Serves id := by
  obtain ⟨id, port, hport, rfl, rfl⟩ := h.owned ch side hnotify
  have hbound := h.ports _ id port hport
  obtain ⟨hfresh, hid⟩ := hbound.notified hnotify
  refine ⟨id, port, hport, rfl, rfl, hfresh, hid, fun hs => ?_⟩
  rw [(hbound.served hs).2] at hnotify
  contradiction

/-- A port uses its channel, and the other side is told. -/
theorem operate (h : Bounded s) (other : Side) {event : Option PartitionEvent}
    (hp : (s.partitions p).ports[id]? = some port)
    (hother : ∀ side, side ≠ port.direction → side = other)
    (hmoved : Moved (s.channels port.channel) d port.direction)
    (htells : Tells (s.channels port.channel) d other event)
    (hkeep : s.sideGeneration port.channel other =
      ((s.channels port.channel).sideOf other).generation →
        (s.channels port.channel).Available other → d.Available other)
    (hrests : ¬ (s.partitions p).point.Rests id)
    (hn : (s.setChannel port.channel d).notify port.channel other event = some t) : Bounded t := by
  have hdown (side : Side) (hnotify : (d.sideOf side).isNotify = true) :
      ((s.channels port.channel).sideOf side).isNotify = true := by
    by_cases hd : side = port.direction
    · subst hd
      rwa [← hmoved.still]
    · obtain rfl := hother side hd
      cases event with
      | none => rwa [← htells.still rfl]
      | some e =>
        rw [(htells.sent e rfl).2.1] at hnotify
        contradiction
  have hchannel : Bounded (s.setChannel port.channel d) := by
    refine h.setChannel hmoved.bound (fun q j port' hp' hc => ?_) fun side hnotify =>
      .inl (hdown side hnotify)
    have hbound := h.ports q j port' hp'
    rw [hc] at hbound
    by_cases hd : port'.direction = port.direction
    · obtain ⟨rfl, rfl⟩ := h.same_port hp hp' hc hd
      obtain rfl := Option.some.inj (hp.symm.trans hp')
      exact hbound.setChannel hmoved.link (hdown _) fun _ _ hr => absurd hr hrests
    · have hside := hother _ hd
      refine hbound.setChannel (hside ▸ htells.link) (hdown _) fun hcr hnormal hr hmem => ?_
      have havailable := hbound.there hcr hnormal hr hmem
      have hq := h.wired.attached q j port' hp'
      have hlinked := (hbound.linked hcr).1
      rw [hc, hside] at hq
      rw [hside] at havailable hlinked ⊢
      refine hkeep ?_ havailable
      rw [PortSystem.sideGeneration, hq, hlinked]
  cases event with
  | none =>
    obtain rfl := Option.some.inj hn
    exact hchannel
  | some e =>
    obtain ⟨part, ha, rfl⟩ := Option.map_eq_some_iff.mp hn
    obtain ⟨hnotify, hoff, hhandler, -, havailable⟩ := htells.sent e rfl
    obtain ⟨j, port', hp', hc, hd, hfresh, hid, hserves⟩ := h.asks hnotify
    have hj : e.handlerId = j := hhandler.trans hid
    refine hchannel.addEvent ha fun _ => ⟨⟨port', ?_, ?_, ?_⟩, ?_, ?_⟩
    · rw [hj]
      exact hp'
    · rw [hc, hd, PortSystem.setChannel_channels_self]
      exact hoff
    · rw [hc, hd, PortSystem.setChannel_channels_self]
      exact havailable
    · rw [hj]
      exact hfresh
    · rw [hj]
      exact hserves

theorem portQueuingReceive (h : Bounded s) (hp : (s.partitions p).ports[id]? = some port)
    (hd : port.direction = .recv) (hrests : ¬ (s.partitions p).point.Rests id)
    (hr : s.portQueuingReceive port.channel = some t) : Bounded t ∧ t.SamePlace s := by
  obtain ⟨r, hc, hn⟩ := Option.bind_eq_some_iff.mp hr
  obtain ⟨hmoved, htells⟩ := rConsumeMessage_tells (h.channels port.channel) hc
  obtain ⟨-, hkeep⟩ := rConsumeMessage_bound (h.channels port.channel) hc
  have hplace : t.SamePlace (s.setChannel port.channel r.1) := notify_samePlace hn
  refine ⟨h.operate .send hp (fun side hne => ?_) (hd ▸ hmoved) htells
    (fun hg ha => hkeep hg (.inl ha)) hrests hn, hplace⟩
  cases side with
  | send => rfl
  | recv => exact absurd hd.symm hne

theorem portQueuingSend (h : Bounded s) {bytes : List UInt8}
    (hp : (s.partitions p).ports[id]? = some port) (hd : port.direction = .send)
    (hrests : ¬ (s.partitions p).point.Rests id)
    (hr : s.portQueuingSend port.channel bytes = some t) : Bounded t ∧ t.SamePlace s := by
  obtain ⟨r, hc, hn⟩ := Option.bind_eq_some_iff.mp hr
  have hfill := fill_bound (h.channels port.channel) (s.channels port.channel).send.nextMessage bytes
  obtain ⟨hmoved, htells⟩ := sProduceMessage_tells hfill hc
  obtain ⟨-, hkeep⟩ := sProduceMessage_bound hfill hc
  have hplace : t.SamePlace (s.setChannel port.channel r.1) := notify_samePlace hn
  refine ⟨h.operate .recv hp (fun side hne => ?_) (hd ▸ ⟨hmoved.bound, hmoved.link, hmoved.still⟩)
    ⟨htells.link, htells.still, htells.sent⟩ (fun hg ha => hkeep hg (.inl ha)) hrests hn,
    hplace⟩
  cases side with
  | send => exact absurd hd.symm hne
  | recv => rfl

end Bounded

/-- A partition goes on with no more events, and its ports change their waiters only. -/
structure Carries (part part' : PortPartition) : Prop where
  generation : part'.generation = part.generation
  max : part'.eventMax = part.eventMax
  ids : part'.portIds.Sublist part.portIds
  flagged : part'.events ≠ [] → part'.isEvent = true ∨ part'.point.Drains
  length : part'.ports.length = part.ports.length
  ports : ∀ (id : Nat) (port' : QueuingPort), part'.ports[id]? = some port' →
    ∃ port : QueuingPort, part.ports[id]? = some port ∧ port'.channel = port.channel ∧
      port'.direction = port.direction ∧ port'.isCreated = port.isCreated ∧
        (port'.waiters ≠ [] → port.waiters ≠ [] ∨ port.isCreated = true)

namespace Bounded

theorem carry (h : Bounded s) (hcarries : Carries (s.partitions p) part)
    (hpoint : ∀ id port, (s.partitions p).ports[id]? = some port →
      (part.point.Serves id → id ∉ part.portIds ∧
        ((s.channels port.channel).sideOf port.direction).isNotify = false) ∧
      (port.isCreated = true → part.normal = true → part.point.Rests id → id ∈ part.portIds →
        (s.channels port.channel).Available port.direction) ∧
      part.point.Takes id port.direction) : Bounded (s.setPartition p part) := by
  have hring := h.ring p
  refine h.setPartition ⟨hring.once.sublist hcarries.ids, fun id hid => ?_, hcarries.flagged, ?_⟩
    hcarries.length fun id port' hp' => ?_
  · rw [hcarries.length]
    exact hring.named id (hcarries.ids.subset hid)
  · rw [hcarries.max, hcarries.length]
    exact hring.max
  · obtain ⟨port, hp, hc, hd, hcr, hwaiters⟩ := hcarries.ports id port' hp'
    obtain ⟨hserved, hthere, htakes⟩ := hpoint id port hp
    have hbound := h.ports p id port hp
    refine ⟨port, hp, hc, hd, hbound.move hd hcr (fun hnot => ?_) hcarries.generation
      (fun hid => hcarries.ids.subset hid) hserved hthere htakes⟩
    rw [hcr] at hnot
    by_contra hne
    rcases hwaiters hne with hold | hyes
    · exact hold (hbound.idle hnot)
    · rw [hnot] at hyes
      contradiction

theorem park (h : Bounded s) (hcarries : Carries (s.partitions p) part)
    (hpoint : part.point.Parked) : Bounded (s.setPartition p part) := by
  refine h.carry hcarries fun id port hp => ?_
  obtain ⟨hserves, hrests, htakes⟩ := hpoint.facts id
  exact ⟨fun hs => absurd hs hserves, fun _ _ hr => absurd hr hrests, htakes _⟩

end Bounded

namespace Carries

theorem of_eq (hgeneration : part'.generation = part.generation)
    (hmax : part'.eventMax = part.eventMax) (hevents : part'.events = part.events)
    (hflagged : part'.events ≠ [] → part'.isEvent = true ∨ part'.point.Drains)
    (hports : part'.ports = part.ports) : Carries part part' where
  generation := hgeneration
  max := hmax
  ids := by
    rw [portIds, portIds, hevents]
  flagged := hflagged
  length := by rw [hports]
  ports := by
    intro id port hp
    rw [hports] at hp
    exact ⟨port, hp, rfl, rfl, rfl, fun hne => .inl hne⟩

theorem setPort {point : PortPoint} (hp : part.ports[id]? = some port) (hc : port'.channel = port.channel) (hd : port'.direction = port.direction)
    (hcr : port'.isCreated = port.isCreated)
    (hwaiters : port'.waiters ≠ [] → port.waiters ≠ [] ∨ port.isCreated = true)
    (hflagged : part.events ≠ [] → part.isEvent = true ∨ point.Drains) :
    Carries part { part.setPort id port' with point := point } where
  generation := rfl
  max := rfl
  ids := List.Sublist.refl _
  flagged := hflagged
  length := List.length_set
  ports := by
    intro j port'' hj
    rcases PortSystem.ports_set hj with ⟨rfl, rfl⟩ | ⟨-, hold⟩
    · exact ⟨port, hp, hc, hd, hcr, hwaiters⟩
    · exact ⟨port'', hold, rfl, rfl, rfl, fun hne => .inl hne⟩

theorem remove {threads : List Nat} {events : List PartitionEvent} {point : PortPoint}
    (hids : (PortPartition.portIds { part with events := events }).Sublist part.portIds)
    (hflagged : events ≠ [] → part.isEvent = true ∨ point.Drains) :
    Carries part { part.remove threads with events := events, point := point } where
  generation := rfl
  max := rfl
  ids := hids
  flagged := hflagged
  length := List.length_map _
  ports := by
    intro j port'' hj
    simp only [PortPartition.remove, List.getElem?_map, Option.map_eq_some_iff] at hj
    obtain ⟨port, hp, rfl⟩ := hj
    exact ⟨port, hp, rfl, rfl, rfl, fun hne => .inl (PortSystem.remove_waiters hne)⟩

end Carries

namespace ChannelQueuing

variable {side other : Side}

/-- A side asks for a notification. -/
def ask (c : ChannelQueuing) : Side → ChannelQueuing
  | .send => { c with send := { c.send with isNotify := true } }
  | .recv => { c with recv := { c.recv with isNotify := true } }

theorem ask_link (c : ChannelQueuing) (side other : Side) : (c.ask side).SameLink c other := by
  cases side <;> cases other <;> exact ⟨rfl, rfl⟩

theorem ask_available (c : ChannelQueuing) (side other : Side) :
    (c.ask side).Available other ↔ c.Available other := by
  cases side <;> cases other <;> rfl

theorem ask_notify_ne (c : ChannelQueuing) (hne : other ≠ side) :
    ((c.ask side).sideOf other).isNotify = (c.sideOf other).isNotify := by
  cases side <;> cases other <;> first | rfl | exact absurd rfl hne

theorem ask_bound (h : ChannelBound c) (side : Side) : ChannelBound (c.ask side) := by
  have hplaces : (c.ask side).SamePlaces c := by
    cases side <;> exact ⟨⟨rfl, rfl, rfl, rfl, rfl⟩, rfl, rfl, rfl⟩
  refine ⟨h.sized.of_same hplaces.toSameConfig, h.inRing.of_same hplaces, ?_⟩
  rw [hplaces.sNMessages, hplaces.sendMax]
  exact h.send

theorem sideInit_bound (h : ChannelBound c) (side : Side) (g handlerId : Nat) :
    ChannelBound (c.sideInit side g handlerId) := by
  have hsend := h.send
  cases side with
  | send =>
    obtain ⟨hring, hzero, -⟩ := sideInit_send_spec h.inRing g handlerId
    refine ⟨⟨h.sized.recv_pos, h.sized.send_pos, h.sized.total, h.sized.small⟩, hring, ?_⟩
    rw [hzero]
    exact Nat.zero_le _
  | recv =>
    obtain ⟨hring, -, hsame⟩ := sideInit_recv_spec h.inRing g handlerId
    refine ⟨⟨h.sized.recv_pos, h.sized.send_pos, h.sized.total, h.sized.small⟩, hring, ?_⟩
    rw [hsame]
    exact hsend

theorem sideInit_other (c : ChannelQueuing) (g handlerId : Nat) (hne : other ≠ side) :
    (c.sideInit side g handlerId).sideOf other = c.sideOf other ∧
      ((c.sideInit side g handlerId).Available other ↔ c.Available other) := by
  cases side <;> cases other <;> first | exact ⟨rfl, Iff.rfl⟩ | exact absurd rfl hne

theorem rGetMessage_ask {r : ChannelQueuing × Option (Nat × Nat)}
    (h : c.rGetMessage subscribe = some r) : r.1 = c ∨
      subscribe = true ∧ r.2 = none ∧ ¬ c.Available .recv ∧ r.1 = c.ask .recv := by
  unfold rGetMessage at h
  split_ifs at h with hne hsub
  · obtain ⟨pos, -, rfl⟩ := Option.map_eq_some_iff.mp h
    exact .inl rfl
  · obtain rfl := Option.some.inj h
    exact .inr ⟨hsub, rfl, hne, rfl⟩
  · obtain rfl := Option.some.inj h
    exact .inl rfl

theorem sGetMessage_ask {r : ChannelQueuing × Option Nat} (h : c.sGetMessage subscribe = some r) :
    r.1 = c ∨ subscribe = true ∧ r.2 = none ∧ ¬ c.Available .send ∧ r.1 = c.ask .send := by
  unfold sGetMessage at h
  split_ifs at h with hroom hsub
  · obtain ⟨pos, -, rfl⟩ := Option.map_eq_some_iff.mp h
    exact .inl rfl
  · obtain rfl := Option.some.inj h
    exact .inr ⟨hsub, rfl, hroom, rfl⟩
  · obtain rfl := Option.some.inj h
    exact .inl rfl

end ChannelQueuing

namespace Bounded

theorem ask (h : Bounded s) (hp : (s.partitions p).ports[id]? = some port)
    (hcreated : port.isCreated = true) (hfresh : id ∉ (s.partitions p).portIds)
    (hserves : ¬ (s.partitions p).point.Serves id) :
    Bounded (s.setChannel port.channel ((s.channels port.channel).ask port.direction)) := by
  refine h.setChannel (ask_bound (h.channels _) _) (fun q j port' hp' hc => ?_) fun side hnotify => ?_
  · have hbound := h.ports q j port' hp'
    rw [hc] at hbound
    obtain ⟨hgen, hid⟩ := ask_link (s.channels port.channel) port.direction port'.direction
    have hthere (hcr : port'.isCreated = true) (hn : (s.partitions q).normal = true)
        (hr : (s.partitions q).point.Rests j) (hmem : j ∈ (s.partitions q).portIds) :=
      (ask_available (s.channels port.channel) port.direction port'.direction).mpr
        (hbound.there hcr hn hr hmem)
    have hlinked (hcr : port'.isCreated = true) :=
      And.intro (hgen.trans (hbound.linked hcr).1) (hid.trans (hbound.linked hcr).2)
    by_cases hd : port'.direction = port.direction
    · obtain ⟨rfl, rfl⟩ := h.same_port hp hp' hc hd
      obtain rfl := Option.some.inj (hp.symm.trans hp')
      exact ⟨hbound.idle, hlinked, fun _ => ⟨hfresh, (hlinked hcreated).2⟩,
        fun hs => absurd hs hserves, hthere, hbound.takes⟩
    · have hsame := ask_notify_ne (s.channels port.channel) hd
      refine ⟨hbound.idle, hlinked, fun hnotify => ?_, fun hs => ?_, hthere, hbound.takes⟩
      · rw [hsame] at hnotify
        obtain ⟨hfresh', hhandler⟩ := hbound.notified hnotify
        exact ⟨hfresh', hid.trans hhandler⟩
      · rw [hsame]
        exact hbound.served hs
  · by_cases hd : side = port.direction
    · subst hd
      rw [h.wired.attached p id port hp]
      exact .inr ⟨id, port, hp, rfl, rfl⟩
    · rw [ask_notify_ne _ hd] at hnotify
      exact .inl hnotify

/-- The side of a port starts again. -/
theorem sideInit (h : Bounded s) (hp : (s.partitions p).ports[id]? = some port)
    (hrests : port.isCreated = true → ¬ (s.partitions p).point.Rests id)
    (hserves : ¬ (s.partitions p).point.Serves id) : Bounded (s.sideInit p id port) := by
  obtain ⟨hgen, hid⟩ := @sideInit_self (s.channels port.channel) port.direction
    (s.partitions p).generation id
  have hoff : (((s.channels port.channel).sideInit port.direction (s.partitions p).generation
      id).sideOf port.direction).isNotify = false := by
    cases port.direction <;> rfl
  have hother {side : Side} (hne : side ≠ port.direction) :=
    sideInit_other (s.channels port.channel) (s.partitions p).generation id hne
  refine h.setChannel (sideInit_bound (h.channels _) _ _ _) (fun q j port' hp' hc => ?_)
    fun side hnotify => ?_
  · have hbound := h.ports q j port' hp'
    rw [hc] at hbound
    by_cases hd : port'.direction = port.direction
    · obtain ⟨rfl, rfl⟩ := h.same_port hp hp' hc hd
      obtain rfl := Option.some.inj (hp.symm.trans hp')
      refine ⟨hbound.idle, fun _ => ⟨hgen, hid⟩, fun hnotify => ?_, fun hs => absurd hs hserves,
        fun hcr _ hr => absurd hr (hrests hcr), hbound.takes⟩
      rw [hoff] at hnotify
      contradiction
    · obtain ⟨hsame, havailable⟩ := hother hd
      refine ⟨hbound.idle, ?_, ?_, ?_, fun hcr hn hr hmem => ?_, hbound.takes⟩
      · rw [hsame]
        exact hbound.linked
      · rw [hsame]
        exact hbound.notified
      · rw [hsame]
        exact hbound.served
      · exact havailable.mpr (hbound.there hcr hn hr hmem)
  · by_cases hd : side = port.direction
    · subst hd
      rw [hoff] at hnotify
      contradiction
    · rw [(hother hd).1] at hnotify
      exact .inl hnotify

end Bounded

end Chpok
