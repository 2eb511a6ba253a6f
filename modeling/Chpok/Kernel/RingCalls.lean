import Chpok.Kernel.RingSteps

/-! The calls of the partitions, and the sections with local preemption disabled, keep the bounds
of the event rings. -/

namespace Chpok

open ChannelQueuing PortPartition PortSystem

namespace Bounded

variable {s t : PortSystem} {part : PortPartition} {port : QueuingPort} {w : PortWaiter}
  {p q id : Nat} {point : PortPoint} {mayWait : Bool}

theorem flagged_of (h : Bounded s) (hdrains : ¬ (s.partitions p).point.Drains)
    (hne : (s.partitions p).events ≠ []) : (s.partitions p).isEvent = true :=
  ((h.ring p).flagged hne).resolve_right hdrains

theorem leave (h : Bounded s) (hpoint : point.Parked)
    (hdrains : (s.partitions p).point.Drains → point.Drains) : Bounded (s.setPoint p point) := by
  refine h.park (.of_eq rfl rfl rfl (fun hne => ?_) rfl) hpoint
  exact ((h.ring p).flagged hne).imp_right hdrains

theorem leaveAgain (h : Bounded s) (hdrains : ¬ (s.partitions p).point.Drains) :
    Bounded (s.setPoint p .again) :=
  h.leave (.inl rfl) fun hd => absurd hd hdrains

theorem block (h : Bounded s) (hdrains : ¬ (s.partitions p).point.Drains)
    (hp : (s.partitions p).ports[id]? = some port) (hcreated : port.isCreated = true) :
    Bounded (s.block p id port w) := by
  refine h.park (.setPort hp rfl rfl rfl (fun _ => .inr hcreated) fun hne => ?_) (.inl rfl)
  exact .inl (h.flagged_of hdrains hne)

theorem blockAsk (h : Bounded s) (hdrains : ¬ (s.partitions p).point.Drains)
    (hp : (s.partitions p).ports[id]? = some port) (hcreated : port.isCreated = true)
    (hfresh : id ∉ (s.partitions p).portIds) :
    Bounded ((s.setChannel port.channel ((s.channels port.channel).ask port.direction)).block
      p id port w) := by
  have hblock := h.block (w := w) hdrains hp hcreated
  have hlt := (List.getElem?_eq_some_iff.mp hp).1
  have hport : ((s.block p id port w).partitions p).ports[id]? = some { port with
      waiters := threadWqAddCommon port.waiters w port.discipline } := by
    rw [PortSystem.block, setPartition_partitions_self]
    exact List.getElem?_set_self hlt
  have hpart : ((s.block p id port w).partitions p).portIds = (s.partitions p).portIds ∧
      ((s.block p id port w).partitions p).point = .again := by
    rw [PortSystem.block, setPartition_partitions_self]
    exact ⟨rfl, rfl⟩
  have hunserved : ¬ ((s.block p id port w).partitions p).point.Serves id := by
    rw [hpart.2]
    exact fun hs => hs
  rw [← hpart.1] at hfresh
  have hask := hblock.ask hport hcreated hfresh hunserved
  exact hask

theorem start (h : Bounded s) (hout : (s.partitions p).point = .outside)
    (hp : (s.partitions p).ports[id]? = some port)
    (hpoint : point = .consume id ∧ port.direction = .recv ∨
      ∃ len, point = .produce id len ∧ port.direction = .send) : Bounded (s.setPoint p point) := by
  have hdrains : ¬ (s.partitions p).point.Drains := by
    rw [hout]
    exact fun hd => hd
  refine h.carry (.of_eq rfl rfl rfl (fun hne => .inl (h.flagged_of hdrains hne)) rfl)
    fun j port' hp' => ?_
  have hbound := h.ports p j port' hp'
  have hthere (hcr : port'.isCreated = true) (hn : (s.partitions p).normal = true)
      (hmem : j ∈ (s.partitions p).portIds) := by
    refine hbound.there hcr hn ?_ hmem
    rw [hout]
    trivial
  have hport (hj : id = j) : port' = port := by
    subst hj
    exact Option.some.inj (hp'.symm.trans hp)
  rcases hpoint with ⟨rfl, hd⟩ | ⟨len, rfl, hd⟩
  · refine ⟨fun hs => hs.elim, fun hcr hn _ hmem => hthere hcr hn hmem, fun hj => ?_⟩
    rw [hport hj, hd]
  · refine ⟨fun hs => hs.elim, fun hcr hn _ hmem => hthere hcr hn hmem, fun hj => ?_⟩
    rw [hport hj, hd]

theorem setChannel_self (s : PortSystem) (ch : Nat) : s.setChannel ch (s.channels ch) = s := by
  simp [PortSystem.setChannel]

theorem fresh_of (h : Bounded s) (hout : (s.partitions p).point = .outside)
    (hp : (s.partitions p).ports[id]? = some port) (hcreated : port.isCreated = true)
    (hnormal : (s.partitions p).normal = true)
    (hnone : ¬ (s.channels port.channel).Available port.direction) :
    id ∉ (s.partitions p).portIds := by
  intro hmem
  refine hnone ((h.ports p id port hp).there hcreated hnormal ?_ hmem)
  rw [hout]
  trivial

theorem receive (h : Bounded s) (hout : (s.partitions p).point = .outside)
    (hp : (s.partitions p).ports[id]? = some port) (hcreated : port.isCreated = true)
    (hnormal : mayWait = true → (s.partitions p).normal = true)
    (ht : s.receive p id port w mayWait = some t) : Bounded t := by
  have hdrains : ¬ (s.partitions p).point.Drains := by
    rw [hout]
    exact fun hd => hd
  unfold PortSystem.receive at ht
  by_cases hd : port.direction ≠ .recv
  · rw [if_pos hd] at ht
    exact Option.some.inj ht ▸ h
  rw [if_neg hd] at ht
  have hdir := not_not.mp hd
  by_cases hne : port.waiters ≠ []
  · rw [if_pos hne] at ht
    obtain rfl := Option.some.inj ht
    split_ifs
    · exact h.block hdrains hp hcreated
    · exact h.leaveAgain hdrains
  rw [if_neg hne] at ht
  obtain ⟨r, hr, rfl⟩ := Option.map_eq_some_iff.mp ht
  rcases rGetMessage_ask hr with hsame | ⟨hwait, hnone, hempty, hask⟩
  · rw [hsame, setChannel_self]
    split
    · exact h.start hout hp (.inl ⟨rfl, hdir⟩)
    · split_ifs
      · exact h.block hdrains hp hcreated
      · exact h.leaveAgain hdrains
  · have hfresh := h.fresh_of hout hp hcreated (hnormal hwait) (hdir ▸ hempty)
    have hbounded := h.blockAsk (w := w) hdrains hp hcreated hfresh
    rw [hdir] at hbounded
    rw [hask, hnone]
    dsimp only
    rwa [if_pos hwait]

theorem send (h : Bounded s) (hout : (s.partitions p).point = .outside)
    (hp : (s.partitions p).ports[id]? = some port) (hcreated : port.isCreated = true)
    (hnormal : mayWait = true → (s.partitions p).normal = true)
    (ht : s.send p id port w mayWait = some t) : Bounded t := by
  have hdrains : ¬ (s.partitions p).point.Drains := by
    rw [hout]
    exact fun hd => hd
  unfold PortSystem.send at ht
  by_cases hd : port.direction ≠ .send
  · rw [if_pos hd] at ht
    exact Option.some.inj ht ▸ h
  rw [if_neg hd] at ht
  have hdir := not_not.mp hd
  by_cases hlen : w.waitLen = 0 ∨ (s.channels port.channel).maxMessageSize < w.waitLen
  · rw [if_pos hlen] at ht
    exact Option.some.inj ht ▸ h
  rw [if_neg hlen] at ht
  by_cases hne : port.waiters ≠ []
  · rw [if_pos hne] at ht
    obtain rfl := Option.some.inj ht
    split_ifs
    · exact h.block hdrains hp hcreated
    · exact h.leaveAgain hdrains
  rw [if_neg hne] at ht
  obtain ⟨r, hr, rfl⟩ := Option.map_eq_some_iff.mp ht
  rcases sGetMessage_ask hr with hsame | ⟨hwait, hnone, hfull, hask⟩
  · rw [hsame, setChannel_self]
    split
    · exact h.start hout hp (.inr ⟨_, rfl, hdir⟩)
    · split_ifs
      · exact h.block hdrains hp hcreated
      · exact h.leaveAgain hdrains
  · have hfresh := h.fresh_of hout hp hcreated (hnormal hwait) (hdir ▸ hfull)
    have hbounded := h.blockAsk (w := w) hdrains hp hcreated hfresh
    rw [hdir] at hbounded
    rw [hask, hnone]
    dsimp only
    rwa [if_pos hwait]

theorem clear (h : Bounded s) (hout : (s.partitions p).point = .outside)
    (hp : (s.partitions p).ports[id]? = some port) : Bounded (s.clear p id port) := by
  unfold PortSystem.clear
  split_ifs
  · exact h
  · have hdrains : ¬ (s.partitions p).point.Drains := by
      rw [hout]
      exact fun hd => hd
    have hpart : ((s.setPoint p .again).partitions p).point = .again := by
      rw [PortSystem.setPoint, setPartition_partitions_self]
    have hport : ((s.setPoint p .again).partitions p).ports[id]? = some port := by
      rwa [PortSystem.setPoint, setPartition_partitions_self]
    have hinit := (h.leaveAgain hdrains).sideInit hport
      (by rw [hpart]; exact fun _ hr => hr) (by rw [hpart]; exact fun hs => hs)
    have hgeneration : ((s.setPoint p .again).partitions p).generation = (s.partitions p).generation := by
      rw [PortSystem.setPoint, setPartition_partitions_self]
    rw [PortSystem.sideInit, hgeneration] at hinit
    exact hinit

theorem create (h : Bounded s) (hout : (s.partitions p).point = .outside)
    (hp : (s.partitions p).ports[id]? = some port) {messageSize maxNbMessage : Nat}
    {direction : Side} {discipline : QueuingDiscipline} :
    Bounded (s.create p id port messageSize maxNbMessage direction discipline) := by
  unfold PortSystem.create
  split_ifs with hcreated _ _ _ hnormal
  any_goals exact h
  have hserves : ¬ (s.partitions p).point.Serves id := by
    rw [hout]
    exact fun hs => hs
  have hinit := h.sideInit hp (fun hcr => absurd hcr hcreated) hserves
  have hring := h.ring p
  have hswap (port' : QueuingPort) :
      (s.setPartition p ((s.partitions p).setPort id port')).sideInit p id port =
        (s.sideInit p id port).setPartition p ((s.partitions p).setPort id port') := by
    simp [PortSystem.sideInit, PortSystem.setPartition, PortSystem.setChannel, PortPartition.setPort]
  rw [hswap]
  refine hinit.setPartition ⟨hring.once, fun j hj => ?_, hring.flagged, ?_⟩ List.length_set
    fun j port' hp' => ?_
  · rw [PortPartition.setPort, List.length_set]
    exact hring.named j hj
  · rw [PortPartition.setPort, List.length_set]
    exact hring.max
  · rcases ports_set hp' with ⟨rfl, rfl⟩ | ⟨hj, hold⟩
    · have hbound := hinit.ports p j port hp
      obtain ⟨hgen, hid⟩ := @sideInit_self (s.channels port.channel) port.direction
        (s.partitions p).generation j
      have hchannel : (s.sideInit p j port).channels port.channel =
          (s.channels port.channel).sideInit port.direction (s.partitions p).generation j :=
        setChannel_channels_self _
      refine ⟨port, hp, rfl, rfl, ⟨fun hnot => ?_, fun _ => ?_, hbound.notified, hbound.served,
        fun _ hn => absurd hn hnormal, hbound.takes⟩⟩
      · contradiction
      · rw [hchannel]
        exact ⟨hgen, hid⟩
    · have hbound := hinit.ports p j port' hold
      exact ⟨port', hold, rfl, rfl, hbound.idle, hbound.linked, hbound.notified, hbound.served,
        hbound.there, hbound.takes⟩

theorem restart (h : Bounded s) : Bounded (s.setPartition p (s.partitions p).restart) := by
  have hring := h.ring p
  refine h.setPartition ⟨List.nodup_nil, fun id hid => ?_, fun hne => absurd rfl hne, ?_⟩
    (List.length_map _) fun j port' hp' => ?_
  · cases hid
  · rw [PortPartition.restart, List.length_map]
    exact hring.max
  · simp only [PortPartition.restart, List.getElem?_map, Option.map_eq_some_iff] at hp'
    obtain ⟨port, hp, rfl⟩ := hp'
    refine ⟨port, hp, rfl, rfl, fun _ => rfl, fun hcr => ?_, fun hnotify => ⟨?_, ?_⟩,
      fun hs => hs.elim, fun hcr => ?_, trivial⟩
    · cases hcr
    · exact List.not_mem_nil
    · exact ((h.ports p j port hp).notified hnotify).2
    · cases hcr

theorem enter (h : Bounded s) (hout : (s.partitions p).point = .outside) (normal : Bool) :
    Bounded (s.setPartition p { s.partitions p with normal := normal, point := .again }) := by
  refine h.park (.of_eq rfl rfl rfl (fun hne => .inl (h.flagged_of ?_ hne)) rfl) (.inl rfl)
  rw [hout]
  exact fun hd => hd

theorem stop (h : Bounded s) (hout : (s.partitions p).point = .outside) (threads : List Nat) :
    Bounded (s.setPartition p { (s.partitions p).remove threads with point := .again }) := by
  refine h.park (.remove (List.Sublist.refl _) fun hne => .inl (h.flagged_of ?_ hne)) (.inl rfl)
  rw [hout]
  exact fun hd => hd

/-! The sections with local preemption disabled -/

theorem rest (h : Bounded s) (hrests : ∀ id, point.Rests id → (s.partitions p).events = [] ∨
      (s.partitions p).point.Rests id)
    (hserves : ∀ id, ¬ point.Serves id) (htakes : ∀ id direction, point.Takes id direction)
    (hdrains : (s.partitions p).point.Drains → (s.partitions p).events = [] ∨ point.Drains) :
    Bounded (s.setPoint p point) := by
  refine h.carry (.of_eq rfl rfl rfl (fun hne => ?_) rfl) fun id port hp => ⟨fun hs =>
    absurd hs (hserves id), fun hcr hn hr hmem => ?_, htakes id _⟩
  · exact ((h.ring p).flagged hne).imp_right fun hd => (hdrains hd).resolve_left hne
  · have hbound := h.ports p id port hp
    have hmem : id ∈ (s.partitions p).portIds := hmem
    refine hbound.there hcr hn ((hrests id hr).resolve_left fun hnil => ?_) hmem
    rw [portIds, hnil] at hmem
    cases hmem

theorem fire (h : Bounded s) {event : PartitionEvent} {rest : List PartitionEvent}
    (hevents : (s.partitions p).events = event :: rest) (hty : event.eventType ≠ .timer) :
    Bounded (s.setPartition p { s.partitions p with
      events := rest
      point := .fired event.handlerId }) := by
  have hring := h.ring p
  have hids : (s.partitions p).portIds = event.handlerId ::
      PortPartition.portIds { s.partitions p with events := rest } := by
    rw [portIds, portIds, hevents]
    simp [hty]
  have honce := hring.once
  rw [hids, List.nodup_cons] at honce
  refine h.carry ⟨rfl, rfl, ?_, fun _ => .inr trivial, rfl,
    fun id port hp => ⟨port, hp, rfl, rfl, rfl, fun hne => .inl hne⟩⟩ fun id port hp => ?_
  · rw [hids]
    exact List.sublist_cons_self _ _
  · refine ⟨fun hs => ?_, fun _ _ hr => hr.elim, trivial⟩
    obtain rfl : event.handlerId = id := hs
    refine ⟨honce.1, ?_⟩
    by_contra hset
    have hnotify := ((h.ports p _ port hp).notified (by simpa using hset)).1
    rw [hids] at hnotify
    exact hnotify List.mem_cons_self

theorem drops (h : Bounded s) {event : PartitionEvent} {rest : List PartitionEvent}
    (hpoint : (s.partitions p).point = .drain)
    (hevents : (s.partitions p).events = event :: rest) (expired : List Nat) :
    Bounded (s.setPartition p { (s.partitions p).remove expired with events := rest }) := by
  have hsub : (PortPartition.portIds { s.partitions p with events := rest }).Sublist
      (s.partitions p).portIds := by
    rw [portIds, portIds, hevents]
    exact ((List.sublist_cons_self _ _).filter _).map _
  have hcarries : Carries (s.partitions p)
      { (s.partitions p).remove expired with events := rest, point := .drain } :=
    .remove hsub fun _ => .inr trivial
  have hdrop := h.park hcarries (.inr rfl)
  have hsame : ({ (s.partitions p).remove expired with events := rest } : PortPartition) =
      { (s.partitions p).remove expired with events := rest, point := .drain } := by
    rw [← hpoint]
    rfl
  rw [hsame]
  exact hdrop

theorem portQueuingFired (h : Bounded s) (hpoint : (s.partitions p).point = .fired id)
    (hp : (s.partitions p).ports[id]? = some port)
    (ht : s.portQueuingFired p id port = some t) : Bounded t := by
  have hbound := h.ports p id port hp
  have hserved := hbound.served (by rw [hpoint]; rfl)
  have hdrain : Bounded (s.setPoint p .drain) := h.leave (.inr rfl) fun _ => trivial
  have hpart : (s.setPoint p .drain).partitions p = { s.partitions p with point := .drain } := by
    rw [PortSystem.setPoint, setPartition_partitions_self]
  unfold PortSystem.portQueuingFired at ht
  cases hw : port.waiters with
  | nil =>
    simp only [hw] at ht
    obtain rfl := Option.some.inj ht
    exact hdrain
  | cons w rest =>
    have hcreated : port.isCreated = true := by
      by_contra hnot
      rw [hbound.idle (by simpa using hnot)] at hw
      cases hw
    have hport : ((s.setPoint p .drain).partitions p).ports[id]? = some port := by
      rwa [hpart]
    have hask := hdrain.ask hport hcreated (by rw [hpart]; exact hserved.1)
      (by rw [hpart]; exact fun hs => hs)
    have hwake (point : PortPoint) (hserves : ∀ j, point.Serves j → j = id)
        (hrests : ∀ j, ¬ point.Rests j) (hdrains : point.Drains)
        (htakes : point.Takes id port.direction)
        (hothers : ∀ j direction, j ≠ id → point.Takes j direction) :
        Bounded (s.wakeUp p id port rest point) := by
      refine h.carry (.setPort hp rfl rfl rfl (fun _ => .inr hcreated) fun _ => .inr hdrains)
        fun j port' hp' => ⟨fun hs => ?_, fun _ _ hr => absurd hr (hrests j), ?_⟩
      · obtain rfl := hserves j hs
        obtain rfl := Option.some.inj (hp.symm.trans hp')
        exact hserved
      · by_cases hj : j = id
        · subst hj
          obtain rfl := Option.some.inj (hp.symm.trans hp')
          exact htakes
        · exact hothers j _ hj
    simp only [hw] at ht
    cases hdir : port.direction with
    | recv =>
      simp only [hdir] at ht
      obtain ⟨r, hr, rfl⟩ := Option.map_eq_some_iff.mp ht
      rcases rGetMessage_ask hr with hsame | ⟨-, hnone, -, hasked⟩
      · rw [hsame, setChannel_self]
        split
        · exact hdrain
        · exact hwake _ (fun j hj => Eq.symm hj) (fun j hr => hr) trivial (fun _ => hdir)
            fun j direction hj he => absurd he.symm hj
      · rw [hasked, hnone]
        rw [hdir] at hask
        exact hask
    | send =>
      simp only [hdir] at ht
      obtain ⟨r, hr, rfl⟩ := Option.map_eq_some_iff.mp ht
      rcases sGetMessage_ask hr with hsame | ⟨-, hnone, -, hasked⟩
      · rw [hsame, setChannel_self]
        split
        · exact hdrain
        · exact hwake _ (fun j hj => Eq.symm hj) (fun j hr => hr) trivial (fun _ => hdir)
            fun j direction hj he => absurd he.symm hj
      · rw [hasked, hnone]
        rw [hdir] at hask
        exact hask

theorem goOn (h : Bounded s) (hserves : (s.partitions p).point.Serves id) :
    Bounded (s.setPoint p (.fired id)) := by
  refine h.carry (.of_eq rfl rfl rfl (fun _ => .inr trivial) rfl) fun j port hp =>
    ⟨fun hs => ?_, fun _ _ hr => hr.elim, trivial⟩
  obtain rfl : id = j := hs
  exact (h.ports p id port hp).served hserves

theorem consume (h : Bounded s) (hp : (s.partitions p).ports[id]? = some port)
    (hpoint : (s.partitions p).point = .consume id ∨ (s.partitions p).point = .firedConsume id)
    (hr : s.portQueuingReceive port.channel = some t) : Bounded t ∧ t.SamePlace s := by
  have htakes := (h.ports p id port hp).takes
  rcases hpoint with hpoint | hpoint
  · rw [hpoint] at htakes
    refine h.portQueuingReceive hp (htakes rfl) ?_ hr
    rw [hpoint]
    exact fun hne => hne rfl
  · rw [hpoint] at htakes
    refine h.portQueuingReceive hp (htakes rfl) ?_ hr
    rw [hpoint]
    exact fun hr => hr

theorem produce (h : Bounded s) (hp : (s.partitions p).ports[id]? = some port) {len : Nat}
    {bytes : List UInt8}
    (hpoint : (s.partitions p).point = .produce id len ∨
      (s.partitions p).point = .firedProduce id len)
    (hr : s.portQueuingSend port.channel bytes = some t) : Bounded t ∧ t.SamePlace s := by
  have htakes := (h.ports p id port hp).takes
  rcases hpoint with hpoint | hpoint
  · rw [hpoint] at htakes
    refine h.portQueuingSend hp (htakes rfl) ?_ hr
    rw [hpoint]
    exact fun hne => hne rfl
  · rw [hpoint] at htakes
    refine h.portQueuingSend hp (htakes rfl) ?_ hr
    rw [hpoint]
    exact fun hr => hr

theorem again (h : Bounded s) {due : Bool} {expired : List Nat} {bytes : List UInt8}
    (hpoint : (s.partitions p).point = .again) (ht : s.resume p due expired bytes = some t) :
    Bounded t := by
  have hdrains : ¬ (s.partitions p).point.Drains := by
    rw [hpoint]
    exact fun hd => hd
  unfold PortSystem.resume at ht
  simp only [hpoint] at ht
  split_ifs at ht with hset
  · obtain rfl := Option.some.inj ht
    exact h.park (.of_eq rfl rfl rfl (fun _ => .inr trivial) rfl) (.inr rfl)
  · obtain rfl := Option.some.inj ht
    refine h.rest (fun id _ => .inl ?_) (fun _ hs => hs) (fun _ _ => trivial)
      fun hd => absurd hd hdrains
    by_contra hne
    exact hset (h.flagged_of hdrains hne)

theorem drain (h : Bounded s) {due : Bool} {expired : List Nat} {bytes : List UInt8}
    (hpoint : (s.partitions p).point = .drain) (ht : s.resume p due expired bytes = some t) :
    Bounded t := by
  unfold PortSystem.resume at ht
  simp only [hpoint] at ht
  split at ht
  · rename_i hnil
    obtain rfl := Option.some.inj ht
    exact h.rest (fun _ _ => .inl hnil) (fun _ hs => hs) (fun _ _ => trivial) fun _ => .inl hnil
  · rename_i event rest hevents
    split at ht
    · obtain rfl := Option.some.inj ht
      exact h.drops hpoint hevents expired
    all_goals
      rename_i hty
      obtain rfl := Option.some.inj ht
      refine h.fire hevents ?_
      rw [hty]
      decide

theorem timer (h : Bounded s) {due : Bool} {expired : List Nat} {bytes : List UInt8}
    (hpoint : (s.partitions p).point = .timer) (ht : s.resume p due expired bytes = some t) :
    Bounded t := by
  have hdrains : ¬ (s.partitions p).point.Drains := by
    rw [hpoint]
    exact fun hd => hd
  unfold PortSystem.resume at ht
  simp only [hpoint] at ht
  split_ifs at ht
  · obtain rfl := Option.some.inj ht
    exact h.park (.remove (List.Sublist.refl _) fun hne => .inl (h.flagged_of hdrains hne))
      (.inl rfl)
  · obtain rfl := Option.some.inj ht
    refine h.rest (fun id _ => .inr ?_) (fun _ hs => hs) (fun _ _ => trivial)
      fun hd => absurd hd hdrains
    rw [hpoint]
    trivial

theorem enable (h : Bounded s) (hpoint : (s.partitions p).point = .enable) :
    Bounded (s.setPoint p (if (s.partitions p).isEvent then .again else .outside)) := by
  have hdrains : ¬ (s.partitions p).point.Drains := by
    rw [hpoint]
    exact fun hd => hd
  split_ifs
  · exact h.leaveAgain hdrains
  · refine h.rest (fun id _ => .inr ?_) (fun _ hs => hs) (fun _ _ => trivial)
      fun hd => absurd hd hdrains
    rw [hpoint]
    trivial

theorem resume (h : Bounded s) {due : Bool} {expired : List Nat} {bytes : List UInt8}
    (ht : s.resume p due expired bytes = some t) : Bounded t := by
  have hresume := ht
  unfold PortSystem.resume at ht
  cases hpoint : (s.partitions p).point with
  | outside =>
    simp only [hpoint] at ht
    cases ht
  | consume id =>
    simp only [hpoint] at ht
    obtain ⟨port, hp, hf⟩ := Option.bind_eq_some_iff.mp ht
    obtain ⟨s₁, hs₁, rfl⟩ := Option.map_eq_some_iff.mp hf
    obtain ⟨hbounded, hplace⟩ := h.consume hp (.inl hpoint) hs₁
    apply hbounded.leaveAgain
    rw [(hplace p).2.1, hpoint]
    exact fun hd => hd
  | produce id len =>
    simp only [hpoint] at ht
    obtain ⟨port, hp, hf⟩ := Option.bind_eq_some_iff.mp ht
    split_ifs at hf
    obtain ⟨s₁, hs₁, rfl⟩ := Option.map_eq_some_iff.mp hf
    obtain ⟨hbounded, hplace⟩ := h.produce hp (.inl hpoint) hs₁
    apply hbounded.leaveAgain
    rw [(hplace p).2.1, hpoint]
    exact fun hd => hd
  | again => exact h.again hpoint hresume
  | drain => exact h.drain hpoint hresume
  | fired id =>
    simp only [hpoint] at ht
    obtain ⟨port, hp, hf⟩ := Option.bind_eq_some_iff.mp ht
    exact h.portQueuingFired hpoint hp hf
  | firedConsume id =>
    simp only [hpoint] at ht
    obtain ⟨port, hp, hf⟩ := Option.bind_eq_some_iff.mp ht
    obtain ⟨s₁, hs₁, rfl⟩ := Option.map_eq_some_iff.mp hf
    obtain ⟨hbounded, hplace⟩ := h.consume hp (.inr hpoint) hs₁
    apply hbounded.goOn
    rw [(hplace p).2.1, hpoint]
    rfl
  | firedProduce id len =>
    simp only [hpoint] at ht
    obtain ⟨port, hp, hf⟩ := Option.bind_eq_some_iff.mp ht
    split_ifs at hf
    obtain ⟨s₁, hs₁, rfl⟩ := Option.map_eq_some_iff.mp hf
    obtain ⟨hbounded, hplace⟩ := h.produce hp (.inr hpoint) hs₁
    apply hbounded.goOn
    rw [(hplace p).2.1, hpoint]
    rfl
  | timer => exact h.timer hpoint hresume
  | enable =>
    simp only [hpoint] at ht
    exact Option.some.inj ht ▸ h.enable hpoint

/-- The steps of the partitions, but for the events of the timer -/
theorem step {e : Nat × PortInput} (h : Bounded s) (hst : s.step e = some t) : Bounded t := by
  obtain ⟨p, e⟩ := e
  cases e with
  | create id messageSize maxNbMessage direction discipline =>
    simp only [PortSystem.step] at hst
    split_ifs at hst with hout
    obtain ⟨port, hp, rfl⟩ := Option.map_eq_some_iff.mp hst
    exact h.create hout hp
  | setModeNormal =>
    simp only [PortSystem.step] at hst
    split_ifs at hst with hout
    obtain rfl := Option.some.inj hst
    exact h.enter hout true
  | receive id thread priority mayWait =>
    obtain ⟨hout, rfl | ⟨port, hget, hf⟩⟩ := call_cases hst
    · exact h
    · obtain ⟨hp, hc⟩ := getPortQueuing_eq hget
      split_ifs at hf
      exact h.receive hout hp hc (fun hw => (Bool.and_eq_true_iff.mp hw).2) hf
  | send id thread priority len mayWait =>
    obtain ⟨hout, rfl | ⟨port, hget, hf⟩⟩ := call_cases hst
    · exact h
    · obtain ⟨hp, hc⟩ := getPortQueuing_eq hget
      split_ifs at hf
      exact h.send hout hp hc (fun hw => (Bool.and_eq_true_iff.mp hw).2) hf
  | clear id =>
    obtain ⟨hout, rfl | ⟨port, hget, hf⟩⟩ := call_cases hst
    · exact h
    · obtain ⟨hp, hc⟩ := getPortQueuing_eq hget
      obtain rfl := Option.some.inj hf
      exact h.clear hout hp
  | stop thread =>
    simp only [PortSystem.step] at hst
    split_ifs at hst with hout
    obtain rfl := Option.some.inj hst
    exact h.stop hout _
  | timerEvent =>
    simp only [PortSystem.step] at hst
    obtain ⟨part, ha, rfl⟩ := Option.map_eq_some_iff.mp hst
    exact h.addEvent ha fun hty => absurd rfl hty
  | onEvent =>
    simp only [PortSystem.step] at hst
    split_ifs at hst with hout
    obtain rfl := Option.some.inj hst
    exact h.leaveAgain (by rw [hout.1]; exact fun hd => hd)
  | restart =>
    obtain rfl := Option.some.inj hst
    exact h.restart
  | resume due expired bytes => exact h.resume hst

end Bounded

end Chpok
