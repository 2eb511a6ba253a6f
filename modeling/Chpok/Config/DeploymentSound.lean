import Chpok.Config.DeploymentPorts
import Mathlib.Algebra.Order.BigOperators.Group.List
import Mathlib.Algebra.Order.Ring.Int
import Mathlib.Data.List.Perm.Subperm

/-! Which of the configurations that validation accepts give the kernel tables that meet its
preconditions. -/

namespace Chpok.Config

namespace Configuration

variable {conf conf' : Configuration} {kind : PortKind} {tables : KernelTables}

/-- What validation leaves to the one who writes the configuration -/
structure Deployable (conf : Configuration) : Prop where
  paired : ∀ kind, conf.Paired kind
  sizes : ∀ kind, ∀ channel ∈ conf.channels kind, ∀ s d,
    channel.src = some s → channel.dst = some d →
      toUint 32 (conf.ports d).maxMessageSize = toUint 32 (conf.ports s).maxMessageSize ∧
        toUint 32 (conf.ports s).maxMessageSize < 2 ^ 16
  counts : ∀ port ∈ conf.addedPorts .queueing, ∀ n, (conf.ports port).attr = .queueing n →
    1 ≤ toUint 32 n ∧ toUint 32 n < 2 ^ 16
  slots : ∀ slot ∈ conf.slots, slot.slotClass ≠ .spare ∧ slot.slotClass ≠ .network
  ids : ((List.range conf.npartitions).map fun part => toUint 8 (conf.partitions part).partId).Nodup
  nchannels : ∀ kind, (conf.channels kind).length < 256
  nslots : conf.slots.length < 256
  frame : conf.majorFrame < 2 ^ 63

/-! Validation changes the channels of ports only, and not for the template. -/

theorem bindPorts_port (port : Nat) :
    ∃ id, conf.bindPorts.ports port = { conf.ports port with channelId := id } ∧
      id.getD 0 = (conf.ports port).channelId.getD 0 := by
  simp only [bindPorts]
  split_ifs
  · exact ⟨_, rfl, rfl⟩
  · exact ⟨(conf.ports port).channelId, rfl, rfl⟩

theorem portEntry_bindPorts : conf.bindPorts.portEntry = conf.portEntry := by
  funext port
  obtain ⟨id, he, hid⟩ := conf.bindPorts_port port
  simp [portEntry, he, hid]

theorem connectionPartition_bindPorts :
    conf.bindPorts.connectionPartition = conf.connectionPartition := by
  funext connection
  cases connection with
  | none => rfl
  | some port =>
    obtain ⟨id, he, -⟩ := conf.bindPorts_port port
    simp [connectionPartition, he]

theorem queuingEntry_bindPorts : conf.bindPorts.queuingEntry = conf.queuingEntry := by
  funext channel
  rw [queuingEntry, connectionPartition_bindPorts]
  rfl

theorem partitionEntry_bindPorts : conf.bindPorts.partitionEntry = conf.partitionEntry := by
  funext part
  rw [partitionEntry, portEntry_bindPorts]
  rfl

theorem tables_bindPorts : conf.bindPorts.tables = conf.tables := by
  rw [tables, queuingEntry_bindPorts, partitionEntry_bindPorts]
  rfl

theorem create_bindPorts (entry : PortEntry) (port : Nat) :
    tables.create kind entry (conf.bindPorts.ports port) =
      tables.create kind entry (conf.ports port) := by
  obtain ⟨id, he, -⟩ := conf.bindPorts_port port
  rw [he]
  rfl

theorem sound_bindPorts : tables.Sound conf.bindPorts ↔ tables.Sound conf := by
  constructor
  · intro h
    exact ⟨h.attached, h.initialized, h.sides, h.capacity, fun kind entry hmem =>
      (create_bindPorts entry entry.port).symm.trans (h.created kind entry hmem), h.slots, h.major,
      h.frame, h.ids, h.periodic⟩
  · intro h
    exact ⟨h.attached, h.initialized, h.sides, h.capacity, fun kind entry hmem =>
      (create_bindPorts entry entry.port).trans (h.created kind entry hmem), h.slots, h.major,
      h.frame, h.ids, h.periodic⟩

theorem renders_bindPorts : conf.bindPorts.Renders ↔ ∀ channel ∈ conf.channels .queueing,
    (conf.connectionPartition channel.src).isSome ∧ (conf.connectionPartition channel.dst).isSome := by
  rw [Renders, connectionPartition_bindPorts]
  refine and_iff_left ?_
  intro port hmem
  have hadded : port ∈ conf.addedPorts .queueing ∨ port ∈ conf.addedPorts .sampling :=
    List.mem_append.mp hmem
  simp only [bindPorts, if_pos hadded, Option.isSome_some]

theorem validate_some (h : conf.validate = some conf') : conf' = conf.bindPorts ∧
    ∀ part < conf.npartitions, (conf.partitions part).hasPeriodicProcessingStart = true := by
  unfold validate at h
  split_ifs at h with hsystem hnetwork hfirst hperiodic
  refine ⟨(Option.some.inj h).symm, fun part hlt => ?_⟩
  by_contra hne
  exact hperiodic ⟨part, hlt, Bool.eq_false_iff.mpr hne⟩

/-! The creation of ports -/

theorem Linked.kind_of_end (h : conf.Linked) {channel : Channel} {port : Nat}
    (hmem : channel ∈ conf.channels kind) (hend : channel.HasEnd port) :
    (conf.ports port).attr.kind = kind :=
  (h.ends kind channel hmem port hend).2

theorem attr_of_kind {attr : PortAttr} :
    (attr.kind = .queueing → ∃ n, attr = .queueing n) ∧
      (attr.kind = .sampling → ∃ r, attr = .sampling r) := by
  cases attr <;> simp [PortAttr.kind]

/-- What the kernel compares when the port at an end of a channel is created -/
theorem create_iff (hlinked : conf.Linked) {channel : Channel} {port s : Nat}
    (hat : (conf.channels kind)[(conf.portEntry port).channel]? = some channel)
    (hend : (if (conf.portEntry port).directionOut then channel.src else channel.dst) = some port)
    (hsrc : channel.src = some s) :
    conf.tables.create kind (conf.portEntry port) (conf.ports port) = .ok ↔
      toUint 32 (conf.ports port).maxMessageSize = toUint 16 (conf.ports s).maxMessageSize ∧
        ∀ n, (conf.ports port).attr = .queueing n → toUint 32 n = toUint 16 n := by
  have hmem := List.mem_of_getElem? hat
  have hbuilt := hlinked.built kind channel hmem
  have hsize := hbuilt.size s hsrc
  have hhas : channel.HasEnd port := by
    split_ifs at hend
    · exact Or.inl hend
    · exact Or.inr hend
  have hkind := hlinked.kind_of_end hmem hhas
  have hlt := (hlinked.ends kind channel hmem port hhas).1
  cases kind with
  | queueing =>
    obtain ⟨n, hn⟩ := attr_of_kind.1 hkind
    have hentry : conf.tables.channelsQueuing[(conf.portEntry port).channel]? =
        some (conf.queuingEntry channel) := by
      simp [tables, hat]
    simp only [KernelTables.create, hn, hentry, queuingCreate, queuingEntry, hsize]
    by_cases hdir : (conf.ports port).isDirectionSrc = true
    · have hout : (conf.portEntry port).directionOut = true := hdir
      rw [if_pos hout] at hend
      rw [hbuilt.send port n hend hn, hout, hdir]
      split_ifs <;> simp_all
    · have hdir' : (conf.ports port).isDirectionSrc = false := Bool.eq_false_iff.mpr hdir
      have hout : (conf.portEntry port).directionOut = false := hdir'
      rw [if_neg (by simp [hout])] at hend
      rw [hbuilt.receive port n hend hn hdir', hout, hdir']
      split_ifs <;> simp_all
  | sampling =>
    obtain ⟨r, hr⟩ := attr_of_kind.2 hkind
    have hrefresh := hlinked.refresh port hlt r hr
    have hentry : conf.tables.channelsSampling[(conf.portEntry port).channel]? =
        some (toUint 16 channel.maxMessageSize) := by
      simp [tables, hat]
    have hout : (conf.portEntry port).directionOut = (conf.ports port).isDirectionSrc := rfl
    simp only [KernelTables.create, hr, hentry, samplingCreate, hsize, hout]
    by_cases he : toUint 32 (conf.ports port).maxMessageSize = toUint 16 (conf.ports s).maxMessageSize
    · rw [if_neg (by simp [he]), if_neg (by simp), if_neg (by omega)]
      simp [he]
    · rw [if_pos he]
      simp [he]

/-- The two ports of a channel are created if their sizes are equal, and all numbers are within
the fields of the tables. -/
theorem Paired.create_both (h : conf.Paired kind) (hlinked : conf.Linked) {channel : Channel}
    {s d : Nat} (hmem : channel ∈ conf.channels kind) (hsrc : channel.src = some s)
    (hdst : channel.dst = some d) :
    (∀ port, channel.HasEnd port →
        conf.tables.create kind (conf.portEntry port) (conf.ports port) = .ok) ↔
      (toUint 32 (conf.ports d).maxMessageSize = toUint 32 (conf.ports s).maxMessageSize ∧
        toUint 32 (conf.ports s).maxMessageSize < 2 ^ 16) ∧
      ∀ port, channel.HasEnd port → ∀ n, (conf.ports port).attr = .queueing n →
        toUint 32 n < 2 ^ 16 := by
  obtain ⟨id, hat⟩ := List.mem_iff_getElem?.mp hmem
  have hcreate : ∀ port, channel.HasEnd port →
      (conf.tables.create kind (conf.portEntry port) (conf.ports port) = .ok ↔
        toUint 32 (conf.ports port).maxMessageSize = toUint 16 (conf.ports s).maxMessageSize ∧
          ∀ n, (conf.ports port).attr = .queueing n → toUint 32 n < 2 ^ 16) := by
    intro port hend
    have hside : ∃ dir : Bool, (if dir then channel.src else channel.dst) = some port := by
      rcases hend with hs | hd
      · exact ⟨true, hs⟩
      · exact ⟨false, hd⟩
    obtain ⟨dir, hdir⟩ := hside
    obtain ⟨hid, hout⟩ := Prod.mk.inj (h.sideOf hlinked hat hdir)
    rw [← hid] at hat
    rw [← hout] at hdir
    simpa only [toUint_eq_iff] using create_iff hlinked hat hdir hsrc
  constructor
  · intro hok
    obtain ⟨hsize, -⟩ := (hcreate s (Or.inl hsrc)).mp (hok s (Or.inl hsrc))
    obtain ⟨hsize', -⟩ := (hcreate d (Or.inr hdst)).mp (hok d (Or.inr hdst))
    refine ⟨⟨hsize'.trans hsize.symm, toUint_eq_iff.mp hsize⟩, fun port hend => ?_⟩
    exact ((hcreate port hend).mp (hok port hend)).2
  · rintro ⟨⟨hsame, hlow⟩, hcounts⟩ port hend
    have hsize := toUint_eq_iff.mpr hlow
    refine (hcreate port hend).mpr ⟨?_, hcounts port hend⟩
    rcases hend with hs | hd
    · rw [hsrc] at hs
      rw [← Option.some.inj hs, hsize]
    · rw [hdst] at hd
      rw [← Option.some.inj hd, hsame, hsize]

theorem created_iff (hlinked : conf.Linked) (hpaired : ∀ kind, conf.Paired kind) :
    ((∀ kind, ∀ entry ∈ conf.tables.ports kind,
        conf.tables.create kind entry (conf.ports entry.port) = .ok) ∧
      ∀ channel ∈ conf.tables.channelsQueuing,
        1 ≤ channel.recvMaxNbMessage ∧ 1 ≤ channel.sendMaxNbMessage) ↔
    (∀ kind, ∀ channel ∈ conf.channels kind, ∀ s d,
      channel.src = some s → channel.dst = some d →
        toUint 32 (conf.ports d).maxMessageSize = toUint 32 (conf.ports s).maxMessageSize ∧
          toUint 32 (conf.ports s).maxMessageSize < 2 ^ 16) ∧
    ∀ port ∈ conf.addedPorts .queueing, ∀ n, (conf.ports port).attr = .queueing n →
      1 ≤ toUint 32 n ∧ toUint 32 n < 2 ^ 16 := by
  have hadded : ∀ kind, ∀ channel ∈ conf.channels kind, ∀ port, channel.HasEnd port →
      port ∈ conf.addedPorts kind := by
    intro kind channel hmem port hend
    obtain ⟨s, d, hsrc, hdst, hs, hd⟩ := (hpaired kind).both hmem
    rcases hend with he | he
    · rw [hsrc] at he
      rwa [← Option.some.inj he]
    · rw [hdst] at he
      rwa [← Option.some.inj he]
  -- the capacity of a side is the number of messages of the port there
  have hcapacity : ∀ channel ∈ conf.channels .queueing,
      (1 ≤ toUint 16 channel.maxNbMessageReceive ∧ 1 ≤ toUint 16 channel.maxNbMessageSend) ↔
        ∀ port, channel.HasEnd port → ∀ n, (conf.ports port).attr = .queueing n →
          1 ≤ toUint 16 n := by
    intro channel hmem
    have hbuilt := hlinked.built .queueing channel hmem
    obtain ⟨s, d, hsrc, hdst, -, -⟩ := (hpaired .queueing).both hmem
    have hdir := (hpaired .queueing).dst channel hmem d hdst
    obtain ⟨m, hm⟩ := attr_of_kind.1 (hlinked.kind_of_end hmem (Or.inl hsrc))
    obtain ⟨n, hn⟩ := attr_of_kind.1 (hlinked.kind_of_end hmem (Or.inr hdst))
    rw [hbuilt.receive d n hdst hn hdir, hbuilt.send s m hsrc hm]
    constructor
    · rintro ⟨hrecv, hsend⟩ port hend k hk
      rcases hend with he | he
      · rw [hsrc] at he
        rw [← Option.some.inj he, hm] at hk
        rwa [← PortAttr.queueing.inj hk]
      · rw [hdst] at he
        rw [← Option.some.inj he, hn] at hk
        rwa [← PortAttr.queueing.inj hk]
    · intro hall
      exact ⟨hall d (Or.inr hdst) n hn, hall s (Or.inl hsrc) m hm⟩
  constructor
  · rintro ⟨hcreated, hcap⟩
    have hok : ∀ kind, ∀ channel ∈ conf.channels kind, ∀ port, channel.HasEnd port →
        conf.tables.create kind (conf.portEntry port) (conf.ports port) = .ok := by
      intro kind channel hmem port hend
      apply hcreated kind (conf.portEntry port)
      rw [ports_tables]
      exact List.mem_map.mpr ⟨port, hadded kind channel hmem port hend, rfl⟩
    constructor
    · intro kind channel hmem s d hsrc hdst
      exact (((hpaired kind).create_both hlinked hmem hsrc hdst).mp (hok kind channel hmem)).1
    · intro port hport n hn
      obtain ⟨channel, hmem, hend⟩ := (hpaired .queueing).channel hport
      obtain ⟨s, d, hsrc, hdst, -, -⟩ := (hpaired .queueing).both hmem
      have hlow := (((hpaired .queueing).create_both hlinked hmem hsrc hdst).mp
        (hok .queueing channel hmem)).2 port hend n hn
      have hpos := (hcapacity channel hmem).mp
        (hcap (conf.queuingEntry channel) (List.mem_map.mpr ⟨channel, hmem, rfl⟩)) port hend n hn
      rw [← toUint_eq_iff.mpr hlow] at hpos
      exact ⟨hpos, hlow⟩
  · rintro ⟨hsizes, hcounts⟩
    constructor
    · intro kind entry hentry
      rw [ports_tables] at hentry
      obtain ⟨port, hport, rfl⟩ := List.mem_map.mp hentry
      obtain ⟨channel, hmem, hend⟩ := (hpaired kind).channel hport
      obtain ⟨s, d, hsrc, hdst, -, -⟩ := (hpaired kind).both hmem
      refine ((hpaired kind).create_both hlinked hmem hsrc hdst).mpr
        ⟨hsizes kind channel hmem s d hsrc hdst, fun other hother n hn => ?_⟩ port hend
      have hkind := hlinked.kind_of_end hmem hother
      rw [hn] at hkind
      obtain rfl : PortKind.queueing = kind := hkind
      exact (hcounts other (hadded _ channel hmem other hother) n hn).2
    · intro entry hentry
      obtain ⟨channel, hmem, rfl⟩ := List.mem_map.mp hentry
      apply (hcapacity channel hmem).mpr
      intro port hend n hn
      obtain ⟨hpos, hlow⟩ := hcounts port (hadded _ channel hmem port hend) n hn
      rwa [toUint_eq_iff.mpr hlow] at hpos

/-! Time slots and partitions -/

theorem toInt_eq_iff {x : Int} (h : 0 ≤ x) : toInt 64 x = x ↔ x < 2 ^ 63 := by
  simp only [toInt, Int.bmod]
  omega

theorem slotPartition_ne_null {slotClass : SlotClass} :
    slotPartition slotClass ≠ .null ↔ slotClass ≠ .spare ∧ slotClass ≠ .network := by
  cases slotClass <;> simp [slotPartition]

theorem slotPartition_arinc {slotClass : SlotClass} {part : Nat}
    (h : slotPartition slotClass = .arinc part) : ∃ periodic, slotClass = .partition part periodic := by
  cases slotClass with
  | partition other periodic => exact ⟨periodic, by rw [SlotPartition.arinc.inj h]⟩
  | spare | network | monitor | gdb => cases h

theorem mem_sched {entry : SlotEntry} : entry ∈ conf.tables.sched ↔
    ∃ (id : Nat) (slot : TimeSlot), conf.slots[id]? = some slot ∧ entry = slotEntry slot id := by
  simp only [tables, List.mem_iff_getElem?, List.getElem?_mapIdx, Option.map_eq_some_iff]
  constructor
  · rintro ⟨id, slot, hat, rfl⟩
    exact ⟨id, slot, hat, rfl⟩
  · rintro ⟨id, slot, hat, rfl⟩
    exact ⟨id, slot, hat, rfl⟩

theorem sched_durations : conf.tables.sched.map (·.duration) =
    conf.slots.map fun slot => toInt 64 slot.duration := by
  apply List.ext_getElem?
  intro id
  simp only [tables, List.getElem?_map, List.getElem?_mapIdx, Option.map_map]
  rfl

/-- The scheduler enters all slots if their number has 8 bits. -/
theorem slots_tables (h : conf.slots.length < 256) : conf.tables.slots = conf.tables.sched := by
  apply List.take_of_length_le
  simp only [tables, List.length_mapIdx]
  omega

/-- The slots that count make up the major frame only if all of them count. -/
theorem frame_iff (h : conf.Scheduled) :
    (conf.tables.majorFrame = conf.majorFrame ∧
      (conf.tables.slots.map (·.duration)).sum = conf.tables.majorFrame) ↔
    conf.slots.length < 256 ∧ conf.majorFrame < 2 ^ 63 := by
  have hpos : ∀ x ∈ conf.slots.map TimeSlot.duration, 0 < x := by
    intro x hx
    obtain ⟨slot, hmem, rfl⟩ := List.mem_map.mp hx
    exact h.positive slot hmem
  have hnonneg : 0 ≤ conf.majorFrame :=
    h.frame ▸ List.sum_nonneg fun x hx => (hpos x hx).le
  -- a slot that is not longer than the frame is stored as it is
  have hstored : conf.majorFrame < 2 ^ 63 →
      conf.tables.sched.map (·.duration) = conf.slots.map TimeSlot.duration := by
    intro hlow
    rw [sched_durations]
    apply List.map_congr_left
    intro slot hmem
    have hle : slot.duration ≤ (conf.slots.map TimeSlot.duration).sum :=
      List.single_le_sum (fun x hx => (hpos x hx).le) _ (List.mem_map_of_mem hmem)
    rw [h.frame] at hle
    exact (toInt_eq_iff (h.positive slot hmem).le).mpr (by omega)
  have hmajor : conf.tables.majorFrame = conf.majorFrame ↔ conf.majorFrame < 2 ^ 63 :=
    toInt_eq_iff hnonneg
  rw [hmajor]
  constructor
  · rintro ⟨hlow, hsum⟩
    refine ⟨?_, hlow⟩
    rw [hmajor.mpr hlow, KernelTables.slots, List.map_take, hstored hlow, ← h.frame] at hsum
    have hsplit := List.sum_take_add_sum_drop (conf.slots.map TimeSlot.duration) conf.tables.schedN
    have hnone : (conf.slots.map TimeSlot.duration).drop conf.tables.schedN = [] := by
      by_contra hsome
      have := List.sum_pos _ (fun x hx => hpos x (List.mem_of_mem_drop hx)) hsome
      omega
    have hle := List.drop_eq_nil_iff.mp hnone
    simp only [tables, List.length_map] at hle
    omega
  · rintro ⟨hcount, hlow⟩
    refine ⟨hlow, ?_⟩
    rw [slots_tables hcount, hstored hlow, h.frame, hmajor.mpr hlow]

theorem slots_iff (h : conf.Scheduled) (hcount : conf.slots.length < 256)
    (hnpartitions : conf.npartitions < 256) :
    (∀ slot ∈ conf.tables.slots, slot.partition ≠ .null ∧
      ∀ part, slot.partition = .arinc part → part < conf.tables.partitionsN) ↔
    ∀ slot ∈ conf.slots, slot.slotClass ≠ .spare ∧ slot.slotClass ≠ .network := by
  rw [slots_tables hcount]
  constructor
  · intro hall slot hmem
    obtain ⟨id, hat⟩ := List.mem_iff_getElem?.mp hmem
    exact slotPartition_ne_null.mp (hall (slotEntry slot id) (mem_sched.mpr ⟨id, slot, hat, rfl⟩)).1
  · intro hall entry hmem
    obtain ⟨id, slot, hat, rfl⟩ := mem_sched.mp hmem
    have hslot := List.mem_of_getElem? hat
    refine ⟨slotPartition_ne_null.mpr (hall slot hslot), fun part hpart => ?_⟩
    obtain ⟨periodic, hclass⟩ := slotPartition_arinc hpart
    have hlt := h.slots slot hslot part periodic hclass
    simp only [tables]
    omega

theorem periodic_tables (h : conf.Scheduled) (hcount : conf.slots.length < 256)
    (hstart : ∀ part < conf.npartitions, (conf.partitions part).hasPeriodicProcessingStart = true) :
    ∀ part < conf.tables.partitions.length, ∃ slot ∈ conf.tables.slots,
      slot.partition = .arinc part ∧ slot.periodicProcessingStart = true := by
  intro part hlt
  have hpart : part < conf.npartitions := by simpa [tables] using hlt
  obtain ⟨slot, hmem, hclass⟩ := h.periodic part hpart (hstart part hpart)
  obtain ⟨id, hat⟩ := List.mem_iff_getElem?.mp hmem
  rw [slots_tables hcount]
  refine ⟨slotEntry slot id, mem_sched.mpr ⟨id, slot, hat, rfl⟩, ?_, ?_⟩
  · simp [slotEntry, hclass, slotPartition]
  · simp [slotEntry, hclass]

/-- Every partition has a slot, so that there are not more of them than slots. -/
theorem npartitions_lt (h : conf.Scheduled) (hcount : conf.slots.length < 256)
    (hstart : ∀ part < conf.npartitions, (conf.partitions part).hasPeriodicProcessingStart = true) :
    conf.npartitions < 256 := by
  have hsub : (List.range conf.npartitions).map (fun part => SlotClass.partition part true) ⊆
      conf.slots.map TimeSlot.slotClass := by
    intro slotClass hmem
    obtain ⟨part, hpart, rfl⟩ := List.mem_map.mp hmem
    have hlt := List.mem_range.mp hpart
    obtain ⟨slot, hslot, hclass⟩ := h.periodic part hlt (hstart part hlt)
    exact List.mem_map.mpr ⟨slot, hslot, hclass⟩
  have hnodup : ((List.range conf.npartitions).map
      (fun part => SlotClass.partition part true)).Nodup :=
    List.nodup_range.map fun a b he => (SlotClass.partition.inj he).1
  have hle := (hnodup.subperm hsub).length_le
  simp only [List.length_map, List.length_range] at hle
  omega

/-- The last channel of a kind is initialized, as it has a port. -/
theorem nchannels_lt (hinit : ∀ entry ∈ conf.tables.ports kind,
      entry.channel < conf.tables.channelsN kind)
    (hsides : ∀ channel < (conf.channels kind).length, ∀ directionOut,
      (conf.tables.ports kind).countP
        (fun entry => entry.channel = channel ∧ entry.directionOut = directionOut) = 1) :
    (conf.channels kind).length < 256 := by
  by_contra hge
  have hone := hsides ((conf.channels kind).length - 1) (by omega) true
  obtain ⟨entry, hmem, hat⟩ := List.countP_pos_iff.mp (hone ▸ Nat.one_pos)
  have hlt := hinit entry hmem
  rw [(of_decide_eq_true hat).1] at hlt
  cases kind <;> simp only [tables, KernelTables.channelsN] at hlt <;> omega

theorem ids_tables : conf.tables.partitions.map (·.partitionId) =
    (List.range conf.npartitions).map fun part => toUint 8 (conf.partitions part).partId := by
  simp [tables, partitionEntry]

theorem Paired.renders (h : conf.Paired .queueing) (hscheduled : conf.Scheduled) :
    ∀ channel ∈ conf.channels .queueing, (conf.connectionPartition channel.src).isSome ∧
      (conf.connectionPartition channel.dst).isSome := by
  intro channel hmem
  have hsome : ∀ port ∈ conf.addedPorts .queueing, (conf.ports port).partition.isSome := by
    intro port hport
    obtain ⟨part, hpart, hin⟩ := List.mem_flatMap.mp hport
    exact (hscheduled.members part (List.mem_range.mp hpart) .queueing port hin).2
  obtain ⟨s, d, hsrc, hdst, hs, hd⟩ := h.both hmem
  rw [hsrc, hdst]
  exact ⟨hsome s hs, hsome d hd⟩

theorem sound_iff (hlinked : conf.Linked) (hscheduled : conf.Scheduled)
    (hstart : ∀ part < conf.npartitions, (conf.partitions part).hasPeriodicProcessingStart = true) :
    conf.tables.Sound conf ↔ conf.Deployable := by
  constructor
  · intro h
    have hpaired : ∀ kind, conf.Paired kind := fun kind =>
      Paired.of_matched (matched_iff.mpr ⟨h.attached kind, h.sides kind⟩)
    obtain ⟨hsizes, hcounts⟩ := (created_iff hlinked hpaired).mp ⟨h.created, h.capacity⟩
    obtain ⟨hnslots, hframe⟩ := (frame_iff hscheduled).mp ⟨h.major, h.frame⟩
    have hnpartitions := npartitions_lt hscheduled hnslots hstart
    exact ⟨hpaired, hsizes, hcounts, (slots_iff hscheduled hnslots hnpartitions).mp h.slots,
      ids_tables ▸ h.ids, fun kind => nchannels_lt (h.initialized kind) (h.sides kind), hnslots,
      hframe⟩
  · intro h
    have hports : ∀ kind, _ := fun kind => matched_iff.mp ((h.paired kind).matched hlinked)
    obtain ⟨hcreated, hcapacity⟩ := (created_iff hlinked h.paired).mpr ⟨h.sizes, h.counts⟩
    have hnpartitions := npartitions_lt hscheduled h.nslots hstart
    obtain ⟨hmajor, hframe⟩ := (frame_iff hscheduled).mpr ⟨h.nslots, h.frame⟩
    have hinit : ∀ kind, ∀ entry ∈ conf.tables.ports kind,
        entry.channel < conf.tables.channelsN kind := by
      intro kind entry hmem
      obtain ⟨channel, hat, -⟩ := (hports kind).1 entry hmem
      have hlt := (List.getElem?_eq_some_iff.mp hat).1
      have hcount := h.nchannels kind
      cases kind <;> simp only [tables, KernelTables.channelsN] <;> omega
    exact ⟨fun kind => (hports kind).1, hinit, fun kind => (hports kind).2, hcapacity, hcreated,
      (slots_iff hscheduled h.nslots hnpartitions).mpr h.slots, hmajor, hframe,
      ids_tables ▸ h.ids, periodic_tables hscheduled h.nslots hstart⟩

/-- A partition with a queueing channel between two ports of its own -/
def twoPorts (sendSize receiveSize : Int) : List ConfigCall :=
  [.addPartition "P" (some 0), .setIsSystem 0 false, .newPort "out" "source" sendSize (.queueing 1),
    .newPort "in" "destination" receiveSize (.queueing 1), .addPort .queueing 0 0,
    .addPort .queueing 0 1, .addChannel (some (.local 0 0)) (some (.local 1 1)),
    .addTimeSlot ⟨1000000, .partition 0 true⟩]

end Configuration

end Chpok.Config
