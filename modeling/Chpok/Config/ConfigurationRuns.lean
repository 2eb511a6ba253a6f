import Chpok.Config.Configuration
import Mathlib.Data.List.Basic

/-! What holds of every configuration that has been made: a connected port has the number of
the channel that was made last of those that it is an end of, and the attributes of a channel
are those of its ends. -/

namespace Chpok.Config

/-- The port is an end of the channel. -/
def Channel.HasEnd (channel : Channel) (port : Nat) : Prop :=
  channel.src = some port ∨ channel.dst = some port

namespace Configuration

variable {conf conf' : Configuration} {port : Nat} {kind : PortKind} {channel : Channel}
  {src connection : Option Connection} {build build' : ChannelBuild}

/-- What `add_channel` takes from the ports. The receiver counts if it is no source; a source
at the second end is possible where one connection is given for both. -/
structure BuiltFrom (conf : Configuration) (channel : Channel) : Prop where
  size : ∀ s, channel.src = some s → channel.maxMessageSize = (conf.ports s).maxMessageSize
  send : ∀ s n, channel.src = some s → (conf.ports s).attr = .queueing n →
    channel.maxNbMessageSend = n
  receive : ∀ d n, channel.dst = some d → (conf.ports d).attr = .queueing n →
    (conf.ports d).isDirectionSrc = false → channel.maxNbMessageReceive = n

/-- Ports and channels -/
structure Linked (conf : Configuration) : Prop where
  next : ∀ kind, conf.nextChannelId kind = (conf.channels kind).length
  ends : ∀ kind, ∀ channel ∈ conf.channels kind, ∀ port, channel.HasEnd port →
    port < conf.nports ∧ (conf.ports port).kind = kind
  named : ∀ kind (id : Nat) channel, (conf.channels kind)[id]? = some channel → ∀ port,
    channel.HasEnd port → ∃ last, (conf.ports port).channelId = some last ∧ id ≤ last
  latest : ∀ port < conf.nports, ∀ id, (conf.ports port).channelId = some id →
    ∃ channel, (conf.channels (conf.ports port).kind)[id]? = some channel ∧ channel.HasEnd port
  built : ∀ kind, ∀ channel ∈ conf.channels kind, conf.BuiltFrom channel
  refresh : ∀ port < conf.nports, ∀ r, (conf.ports port).attr = .sampling r → 1000000 ≤ r

/-- Partitions and time slots -/
structure Scheduled (conf : Configuration) : Prop where
  members : ∀ part < conf.npartitions, ∀ kind, ∀ port ∈ (conf.partitions part).ports kind,
    port < conf.nports ∧ (conf.ports port).partition.isSome
  slots : ∀ slot ∈ conf.slots, ∀ part periodic, slot.slotClass = .partition part periodic →
    part < conf.npartitions
  positive : ∀ slot ∈ conf.slots, 0 < slot.duration
  frame : (conf.slots.map TimeSlot.duration).sum = conf.majorFrame
  periodic : ∀ part < conf.npartitions, (conf.partitions part).hasPeriodicProcessingStart = true →
    ∃ slot ∈ conf.slots, slot.slotClass = .partition part true

/-! `add_channel` -/

/-- A pass of the loop over the connections that is no `None` -/
structure Passed (src connection : Option Connection) (port : Nat) (build build' : ChannelBuild) :
    Prop where
  made : port < build.conf.nports
  kind : build.kind = none ∨ build.kind = some (build.conf.ports port).kind
  kind' : build'.kind = some (build.conf.ports port).kind
  conf : build'.conf = build.conf.setChannel port
  size : build'.maxMessageSize =
    some (build.maxMessageSize.getD (build.conf.ports port).maxMessageSize)
  send : connection ≠ src → build'.maxNbMessageSend = build.maxNbMessageSend
  sendSrc : connection = src → ∀ n, (build.conf.ports port).attr = .queueing n →
    build'.maxNbMessageSend = n
  receive : connection ≠ src → ∀ n, (build.conf.ports port).attr = .queueing n →
    build'.maxNbMessageReceive = n
  direction : connection = src → ∀ n, (build.conf.ports port).attr = .queueing n →
    (build.conf.ports port).isDirectionSrc = true

theorem checkEnd_some {isSrc : Bool} {p : Port} (h : checkEnd isSrc p build = some build') :
    build'.conf = build.conf ∧ build'.kind = build.kind ∧
      build'.maxMessageSize = build.maxMessageSize ∧
      (isSrc = false → build'.maxNbMessageSend = build.maxNbMessageSend) ∧
      (∀ n, p.attr = .queueing n →
        (isSrc = true → build'.maxNbMessageSend = n ∧ p.isDirectionSrc = true) ∧
        (isSrc = false → build'.maxNbMessageReceive = n)) := by
  unfold checkEnd at h
  cases hattr : p.attr with
  | sampling r =>
    rw [hattr] at h
    obtain rfl := Option.some.inj h
    exact ⟨rfl, rfl, rfl, fun _ => rfl, fun n hn => by cases hn⟩
  | queueing m =>
    rw [hattr] at h
    dsimp only at h
    split_ifs at h with hsrc hdir hdir
    · obtain rfl := Option.some.inj h
      refine ⟨rfl, rfl, rfl, fun hne => by simp [hsrc] at hne, fun n hn => ?_⟩
      obtain rfl := PortAttr.queueing.inj hn
      exact ⟨fun _ => ⟨rfl, hdir⟩, fun hne => by simp [hsrc] at hne⟩
    · obtain rfl := Option.some.inj h
      refine ⟨rfl, rfl, rfl, fun _ => rfl, fun n hn => ?_⟩
      obtain rfl := PortAttr.queueing.inj hn
      exact ⟨fun he => absurd he hsrc, fun _ => rfl⟩

theorem checkSize_some {p : Port} (h : checkSize p build = some build') :
    build'.conf = build.conf ∧ build'.kind = build.kind ∧
      build'.maxMessageSize = some (build.maxMessageSize.getD p.maxMessageSize) ∧
      build'.maxNbMessageSend = build.maxNbMessageSend ∧
      build'.maxNbMessageReceive = build.maxNbMessageReceive := by
  unfold checkSize at h
  cases hsize : build.maxMessageSize with
  | none =>
    rw [hsize] at h
    obtain rfl := Option.some.inj h
    exact ⟨rfl, rfl, rfl, rfl, rfl⟩
  | some size =>
    rw [hsize] at h
    dsimp only at h
    split_ifs at h
    obtain rfl := Option.some.inj h
    exact ⟨rfl, rfl, hsize, rfl, rfl⟩

theorem addConnection_none : addConnection src none build = some build := rfl

theorem addConnection_some {c : Connection} (h : addConnection src (some c) build = some build') :
    ∃ port, Connection.port c = some port ∧ Passed src (some c) port build build' := by
  cases c with
  | udp => cases h
  | «local» object port =>
    rw [addConnection] at h
    split_ifs at h with hmade hkind
    obtain ⟨checked, hchecked, hsized⟩ := Option.bind_eq_some_iff.mp h
    obtain ⟨hconf, hk, hsize, hsend, hattr⟩ := checkEnd_some hchecked
    obtain ⟨hconf', hk', hsize', hsend', hreceive'⟩ := checkSize_some hsized
    refine ⟨port, rfl, ?_⟩
    exact {
      made := hmade
      kind := hkind
      kind' := hk'.trans hk
      conf := hconf'.trans hconf
      size := by rw [hsize', hsize]
      send := fun hne => hsend'.trans (hsend (by simpa using hne))
      sendSrc := fun he n hn => hsend'.trans ((hattr n hn).1 (by simpa using he)).1
      receive := fun hne n hn => hreceive'.trans ((hattr n hn).2 (by simpa using hne))
      direction := fun he n hn => ((hattr n hn).1 (by simpa using he)).2 }

theorem setChannel_ports {other : Nat} : (conf.setChannel port).ports other =
    if other = port then { conf.ports port with
      channelId := some (conf.nextChannelId (conf.ports port).kind) }
    else conf.ports other := by
  by_cases he : other = port
  · subst he
    simp [setChannel, updatePort]
  · simp [setChannel, updatePort, he]

theorem setChannel_kind {other : Nat} :
    ((conf.setChannel port).ports other).kind = (conf.ports other).kind := by
  rw [setChannel_ports]
  split_ifs with he
  · rw [he]
    rfl
  · rfl

theorem setChannel_attr {other : Nat} :
    ((conf.setChannel port).ports other).attr = (conf.ports other).attr := by
  rw [setChannel_ports]
  split_ifs with he
  · rw [he]
  · rfl

/-- Both ends of a channel get its number. -/
theorem setChannel_both {p q other : Nat} (hp : (conf.ports p).kind = kind)
    (hq : (conf.ports q).kind = kind) :
    ((conf.setChannel p).setChannel q).ports other = if other = p ∨ other = q then
      { conf.ports other with channelId := some (conf.nextChannelId kind) }
    else conf.ports other := by
  rw [setChannel_ports, setChannel_kind, hq]
  by_cases hoq : other = q
  · subst hoq
    rw [if_pos rfl, if_pos (Or.inr rfl), setChannel_ports]
    split_ifs with he
    · rw [he]
      rfl
    · rfl
  · rw [if_neg hoq, setChannel_ports, hp]
    by_cases hop : other = p
    · rw [if_pos hop, if_pos (Or.inl hop), hop]
    · rw [if_neg hop, if_neg (by simp [hop, hoq])]

/-- What `add_channel` changes: the number of the channel is given to its ends. -/
structure Channelled (conf conf' : Configuration) (kind : PortKind) (channel : Channel) : Prop where
  ports : ∀ o, (channel.HasEnd o → conf'.ports o =
      { conf.ports o with channelId := some (conf.nextChannelId kind) }) ∧
    (¬ channel.HasEnd o → conf'.ports o = conf.ports o)
  rest : conf' = { conf with
    ports := conf'.ports
    channels := Function.update conf.channels kind (conf.channels kind ++ [channel])
    nextChannelId := Function.update conf.nextChannelId kind (conf.nextChannelId kind + 1) }
  ends : ∀ o, channel.HasEnd o → o < conf.nports ∧ (conf.ports o).kind = kind
  built : conf.BuiltFrom channel

/-- A channel with one end, that of the first connection or that of the second one -/
theorem Passed.channelled {c : Connection} {size : Int} (h : Passed src (some c) port ⟨conf, none, none, 1, 1⟩ build)
    (hkind : build.kind = some kind) (hsize : build.maxMessageSize = some size)
    (hends : channel.src = some port ∧ channel.dst = none ∧ some c = src ∨
      channel.src = none ∧ channel.dst = some port ∧ some c ≠ src)
    (hattr : channel.maxMessageSize = size ∧ channel.maxNbMessageSend = build.maxNbMessageSend ∧
      channel.maxNbMessageReceive = build.maxNbMessageReceive) :
    Channelled conf { build.conf with
      channels := Function.update build.conf.channels kind (build.conf.channels kind ++ [channel])
      nextChannelId := Function.update build.conf.nextChannelId kind
        (build.conf.nextChannelId kind + 1) } kind channel := by
  have hk : (conf.ports port).kind = kind := Option.some.inj (h.kind'.symm.trans hkind)
  have hconf : build.conf = conf.setChannel port := h.conf
  have hend : ∀ o, channel.HasEnd o ↔ o = port := by
    intro o
    rcases hends with ⟨hs, hd, -⟩ | ⟨hs, hd, -⟩
    · simp [Channel.HasEnd, hs, hd, eq_comm]
    · simp [Channel.HasEnd, hs, hd, eq_comm]
  have hsizes : size = (conf.ports port).maxMessageSize :=
    Option.some.inj (hsize.symm.trans h.size)
  refine ⟨fun o => ⟨fun he => ?_, fun he => ?_⟩, ?_, fun o he => ?_, ?_⟩
  · rw [hend] at he
    subst he
    change build.conf.ports o = _
    rw [hconf, setChannel_ports, if_pos rfl, hk]
  · rw [hend] at he
    change build.conf.ports o = _
    rw [hconf, setChannel_ports, if_neg he]
  · rw [hconf]
    rfl
  · rw [hend] at he
    subst he
    exact ⟨h.made, hk⟩
  · constructor
    · intro s hs
      have he : s = port := (hend s).mp (Or.inl hs)
      rw [he, hattr.1, hsizes]
    · intro s n hs hn
      have he : s = port := (hend s).mp (Or.inl hs)
      subst he
      rcases hends with ⟨-, -, hc⟩ | ⟨hnone, -, -⟩
      · exact hattr.2.1.trans (h.sendSrc hc n hn)
      · rw [hnone] at hs
        cases hs
    · intro d n hd hn _
      have he : d = port := (hend d).mp (Or.inr hd)
      subst he
      rcases hends with ⟨-, hnone, -⟩ | ⟨-, -, hc⟩
      · rw [hnone] at hd
        cases hd
      · exact hattr.2.2.trans (h.receive hc n hn)

/-- The sizes of a channel with both ends are those of its ports. -/
theorem Passed.built_both {c d : Connection} {p q : Nat} {size : Int} {mid : ChannelBuild}
    (h : Passed (some c) (some c) p ⟨conf, none, none, 1, 1⟩ mid)
    (h' : Passed (some c) (some d) q mid build)
    (hc : Connection.port c = some p) (hd : Connection.port d = some q)
    (hsize : build.maxMessageSize = some size) : conf.BuiltFrom
      ⟨some p, some q, size, build.maxNbMessageSend, build.maxNbMessageReceive⟩ := by
  have hmid : mid.conf = conf.setChannel p := h.conf
  constructor
  · intro s hs
    obtain rfl := Option.some.inj hs
    have hfirst := h'.size
    rw [h.size, hsize] at hfirst
    exact Option.some.inj hfirst
  · intro s n hs hn
    obtain rfl := Option.some.inj hs
    by_cases hsame : some d = some c
    · have hpq : p = q := by
        rw [Option.some.inj hsame, hc] at hd
        exact Option.some.inj hd
      apply h'.sendSrc hsame n
      rw [hmid, setChannel_attr, ← hpq]
      exact hn
    · exact (h'.send hsame).trans (h.sendSrc rfl n hn)
  · intro r n hr hn hdir
    obtain rfl := Option.some.inj hr
    by_cases hsame : some d = some c
    · have hsrc := h'.direction hsame n (by rw [hmid, setChannel_attr]; exact hn)
      rw [hmid, setChannel_ports] at hsrc
      split_ifs at hsrc with he
      · have : (conf.ports p).isDirectionSrc = true := hsrc
        rw [← he, hdir] at this
        cases this
      · rw [hdir] at hsrc
        cases hsrc
    · apply h'.receive hsame n
      rw [hmid, setChannel_attr]
      exact hn

/-- A channel with both ends -/
theorem Passed.channelled_both {c d : Connection} {p q : Nat} {size : Int} {mid : ChannelBuild}
    (h : Passed (some c) (some c) p ⟨conf, none, none, 1, 1⟩ mid)
    (h' : Passed (some c) (some d) q mid build)
    (hc : Connection.port c = some p) (hd : Connection.port d = some q)
    (hkind : build.kind = some kind) (hsize : build.maxMessageSize = some size)
    (hchannel : channel = ⟨some p, some q, size, build.maxNbMessageSend, build.maxNbMessageReceive⟩) :
    Channelled conf { build.conf with
      channels := Function.update build.conf.channels kind (build.conf.channels kind ++ [channel])
      nextChannelId := Function.update build.conf.nextChannelId kind
        (build.conf.nextChannelId kind + 1) } kind channel := by
  have hmid : mid.conf = conf.setChannel p := h.conf
  have hbuild : build.conf = (conf.setChannel p).setChannel q := h'.conf.trans (by rw [hmid])
  have hkq : (conf.ports q).kind = kind := by
    have := h'.kind'.symm.trans hkind
    rw [hmid, setChannel_kind] at this
    exact Option.some.inj this
  have hkp : (conf.ports p).kind = kind := by
    rcases h'.kind with hnone | hsame
    · rw [h.kind'] at hnone
      cases hnone
    · rw [h.kind', hmid, setChannel_kind, hkq] at hsame
      exact Option.some.inj hsame
  have hend : ∀ o, channel.HasEnd o ↔ o = p ∨ o = q := by
    intro o
    rw [hchannel]
    simp [Channel.HasEnd, eq_comm]
  refine ⟨fun o => ⟨fun he => ?_, fun he => ?_⟩, ?_, fun o he => ?_, ?_⟩
  · change build.conf.ports o = _
    rw [hbuild, setChannel_both hkp hkq, if_pos ((hend o).mp he)]
  · change build.conf.ports o = _
    rw [hbuild, setChannel_both hkp hkq, if_neg (fun hor => he ((hend o).mpr hor))]
  · rw [hbuild]
    rfl
  · rcases (hend o).mp he with rfl | rfl
    · exact ⟨h.made, hkp⟩
    · refine ⟨?_, hkq⟩
      have hlt := h'.made
      rw [hmid] at hlt
      exact hlt
  · rw [hchannel]
    exact h.built_both h' hc hd hsize

theorem addChannel_some {dst : Option Connection} (h : conf.addChannel src dst = some conf') :
    ∃ kind channel, Channelled conf conf' kind channel := by
  unfold addChannel at h
  obtain ⟨build, hbuild, hmade⟩ := Option.bind_eq_some_iff.mp h
  obtain ⟨mid, hmid, hpass⟩ := Option.bind_eq_some_iff.mp hbuild
  cases hkind : build.kind with
  | none =>
    rw [hkind] at hmade
    cases hmade
  | some kind =>
    cases hsize : build.maxMessageSize with
    | none =>
      rw [hkind, hsize] at hmade
      cases hmade
    | some size =>
      rw [hkind, hsize] at hmade
      obtain rfl := Option.some.inj hmade
      refine ⟨kind, ⟨src.bind Connection.port, dst.bind Connection.port, size,
        build.maxNbMessageSend, build.maxNbMessageReceive⟩, ?_⟩
      cases src with
      | none =>
        obtain rfl := Option.some.inj (addConnection_none.symm.trans hmid)
        cases dst with
        | none =>
          obtain rfl := Option.some.inj (addConnection_none.symm.trans hpass)
          cases hkind
        | some d =>
          obtain ⟨q, hq, hpassed⟩ := addConnection_some hpass
          exact hpassed.channelled hkind hsize (Or.inr ⟨rfl, hq, by simp⟩) ⟨rfl, rfl, rfl⟩
      | some c =>
        obtain ⟨p, hp, hpassed⟩ := addConnection_some hmid
        cases dst with
        | none =>
          obtain rfl := Option.some.inj (addConnection_none.symm.trans hpass)
          exact hpassed.channelled hkind hsize (Or.inl ⟨hp, rfl, rfl⟩) ⟨rfl, rfl, rfl⟩
        | some d =>
          obtain ⟨q, hq, hpassed'⟩ := addConnection_some hpass
          apply hpassed.channelled_both hpassed' hp hq hkind hsize
          change (⟨Connection.port c, Connection.port d, size, _, _⟩ : Channel) = _
          rw [hp, hq]

/-! The invariants -/

theorem Linked.init : init.Linked where
  next _ := rfl
  ends kind channel hmem := by simp [Configuration.init] at hmem
  named kind id channel hat := by simp [Configuration.init] at hat
  latest port hlt := by simp [Configuration.init] at hlt
  built kind channel hmem := by simp [Configuration.init] at hmem
  refresh port hlt := by simp [Configuration.init] at hlt

theorem Scheduled.init : init.Scheduled where
  members part hlt := by simp [Configuration.init] at hlt
  slots slot hmem := by simp [Configuration.init] at hmem
  positive slot hmem := by simp [Configuration.init] at hmem
  frame := rfl
  periodic part hlt := by simp [Configuration.init] at hlt

/-- Ports may be made, and ports may get another partition. -/
theorem Linked.of_ports (h : conf.Linked) (hchannels : conf'.channels = conf.channels)
    (hnext : conf'.nextChannelId = conf.nextChannelId) (hle : conf.nports ≤ conf'.nports)
    (hports : ∀ port < conf.nports, ∃ part,
      conf'.ports port = { conf.ports port with partition := part })
    (hmade : ∀ port < conf'.nports, conf.nports ≤ port → (conf'.ports port).channelId = none ∧
      ∀ r, (conf'.ports port).attr = .sampling r → 1000000 ≤ r) : conf'.Linked := by
  have hkind : ∀ port < conf.nports, (conf'.ports port).kind = (conf.ports port).kind := by
    intro port hlt
    obtain ⟨part, he⟩ := hports port hlt
    rw [he]
    rfl
  have hid : ∀ port < conf.nports, (conf'.ports port).channelId = (conf.ports port).channelId := by
    intro port hlt
    obtain ⟨part, he⟩ := hports port hlt
    rw [he]
  constructor
  · intro kind
    rw [hnext, hchannels]
    exact h.next kind
  · intro kind channel hmem port hend
    rw [hchannels] at hmem
    obtain ⟨hlt, hk⟩ := h.ends kind channel hmem port hend
    exact ⟨by omega, (hkind port hlt).trans hk⟩
  · intro kind id channel hat port hend
    rw [hchannels] at hat
    obtain ⟨hlt, -⟩ := h.ends kind channel (List.mem_of_getElem? hat) port hend
    rw [hid port hlt]
    exact h.named kind id channel hat port hend
  · intro port hlt id hhas
    by_cases hold : port < conf.nports
    · rw [hid port hold] at hhas
      rw [hkind port hold, hchannels]
      exact h.latest port hold id hhas
    · rw [(hmade port hlt (by omega)).1] at hhas
      cases hhas
  · intro kind channel hmem
    rw [hchannels] at hmem
    have hattr : ∀ port, channel.HasEnd port → ∃ part,
        conf'.ports port = { conf.ports port with partition := part } :=
      fun port hend => hports port (h.ends kind channel hmem port hend).1
    constructor
    · intro s hs
      obtain ⟨part, he⟩ := hattr s (Or.inl hs)
      rw [he]
      exact (h.built kind channel hmem).size s hs
    · intro s n hs hn
      obtain ⟨part, he⟩ := hattr s (Or.inl hs)
      rw [he] at hn
      exact (h.built kind channel hmem).send s n hs hn
    · intro d n hd hn hdir
      obtain ⟨part, he⟩ := hattr d (Or.inr hd)
      rw [he] at hn hdir
      exact (h.built kind channel hmem).receive d n hd hn hdir
  · intro port hlt r hr
    by_cases hold : port < conf.nports
    · obtain ⟨part, he⟩ := hports port hold
      rw [he] at hr
      exact h.refresh port hold r hr
    · exact (hmade port hlt (by omega)).2 r hr

theorem Channelled.nports (h : Channelled conf conf' kind channel) : conf'.nports = conf.nports := by
  rw [h.rest]

theorem Channelled.channels (h : Channelled conf conf' kind channel) : conf'.channels =
    Function.update conf.channels kind (conf.channels kind ++ [channel]) := by
  rw [h.rest]

theorem Channelled.port_cases (h : Channelled conf conf' kind channel) (o : Nat) :
    channel.HasEnd o ∧ conf'.ports o =
        { conf.ports o with channelId := some (conf.nextChannelId kind) } ∨
      ¬ channel.HasEnd o ∧ conf'.ports o = conf.ports o := by
  by_cases hend : channel.HasEnd o
  · exact Or.inl ⟨hend, (h.ports o).1 hend⟩
  · exact Or.inr ⟨hend, (h.ports o).2 hend⟩

theorem Channelled.port_same (h : Channelled conf conf' kind channel) (o : Nat) :
    ∃ id, conf'.ports o = { conf.ports o with channelId := id } := by
  rcases h.port_cases o with ⟨-, he⟩ | ⟨-, he⟩
  · exact ⟨_, he⟩
  · exact ⟨(conf.ports o).channelId, he⟩

theorem Channelled.getElem?_cases (h : Channelled conf conf' kind channel) {kind' : PortKind}
    {id : Nat} {other : Channel} (hat : (conf'.channels kind')[id]? = some other) :
    (conf.channels kind')[id]? = some other ∨
      kind' = kind ∧ id = (conf.channels kind).length ∧ other = channel := by
  rw [h.channels] at hat
  by_cases hk : kind' = kind
  · subst hk
    rw [Function.update_self] at hat
    rcases Nat.lt_trichotomy id (conf.channels kind').length with hlt | heq | hgt
    · rw [List.getElem?_append_left hlt] at hat
      exact Or.inl hat
    · subst heq
      rw [List.getElem?_concat_length] at hat
      exact Or.inr ⟨rfl, rfl, (Option.some.inj hat).symm⟩
    · rw [List.getElem?_eq_none (by simp; omega)] at hat
      cases hat
  · rw [Function.update_of_ne hk] at hat
    exact Or.inl hat

theorem Channelled.getElem?_old (h : Channelled conf conf' kind channel) {kind' : PortKind}
    {id : Nat} {other : Channel} (hat : (conf.channels kind')[id]? = some other) :
    (conf'.channels kind')[id]? = some other := by
  rw [h.channels]
  by_cases hk : kind' = kind
  · subst hk
    rw [Function.update_self, List.getElem?_append_left (List.getElem?_eq_some_iff.mp hat).1]
    exact hat
  · rwa [Function.update_of_ne hk]

theorem Linked.channelled (h : conf.Linked) (hadd : Channelled conf conf' kind channel) :
    conf'.Linked := by
  have hkind : ∀ o, (conf'.ports o).kind = (conf.ports o).kind := by
    intro o
    obtain ⟨id, he⟩ := hadd.port_same o
    rw [he]
    rfl
  constructor
  · intro kind'
    rw [hadd.rest]
    by_cases hk : kind' = kind
    · subst hk
      simp [h.next]
    · simp [hk, h.next]
  · intro kind' other hmem o hend
    rw [hadd.nports, hkind]
    obtain ⟨id, hat⟩ := List.mem_iff_getElem?.mp hmem
    rcases hadd.getElem?_cases hat with hold | ⟨rfl, -, rfl⟩
    · exact h.ends kind' other (List.mem_of_getElem? hold) o hend
    · exact hadd.ends o hend
  · intro kind' id other hat o hend
    rcases hadd.getElem?_cases hat with hold | ⟨rfl, rfl, rfl⟩
    · obtain ⟨last, hlast, hle⟩ := h.named kind' id other hold o hend
      rcases hadd.port_cases o with ⟨hnew, he⟩ | ⟨-, he⟩
      · -- the port has ended in a channel of its own kind
        have hk : kind' = kind :=
          (h.ends kind' other (List.mem_of_getElem? hold) o hend).2.symm.trans (hadd.ends o hnew).2
        subst hk
        refine ⟨conf.nextChannelId kind', by rw [he], ?_⟩
        rw [h.next]
        exact Nat.le_of_lt (List.getElem?_eq_some_iff.mp hold).1
      · exact ⟨last, by rw [he]; exact hlast, hle⟩
    · refine ⟨conf.nextChannelId kind', by rw [(hadd.ports o).1 hend], ?_⟩
      exact Nat.le_of_eq (h.next kind').symm
  · intro o hlt id hid
    rw [hadd.nports] at hlt
    rw [hkind]
    rcases hadd.port_cases o with ⟨hnew, he⟩ | ⟨-, he⟩
    · rw [he] at hid
      obtain rfl := Option.some.inj hid
      refine ⟨channel, ?_, hnew⟩
      rw [(hadd.ends o hnew).2, hadd.channels, Function.update_self, h.next]
      exact List.getElem?_concat_length
    · rw [he] at hid
      obtain ⟨other, hat, hend⟩ := h.latest o hlt id hid
      exact ⟨other, hadd.getElem?_old hat, hend⟩
  · have hold : ∀ other : Channel, conf.BuiltFrom other → conf'.BuiltFrom other := by
      intro other hother
      constructor
      · intro s hs
        obtain ⟨id, he⟩ := hadd.port_same s
        rw [he]
        exact hother.size s hs
      · intro s n hs hn
        obtain ⟨id, he⟩ := hadd.port_same s
        rw [he] at hn
        exact hother.send s n hs hn
      · intro d n hd hn hdir
        obtain ⟨id, he⟩ := hadd.port_same d
        rw [he] at hn hdir
        exact hother.receive d n hd hn hdir
    intro kind' other hmem
    obtain ⟨id, hat⟩ := List.mem_iff_getElem?.mp hmem
    rcases hadd.getElem?_cases hat with hat' | ⟨-, -, rfl⟩
    · exact hold other (h.built kind' other (List.mem_of_getElem? hat'))
    · exact hold other hadd.built
  · intro o hlt r hr
    rw [hadd.nports] at hlt
    obtain ⟨id, he⟩ := hadd.port_same o
    rw [he] at hr
    exact h.refresh o hlt r hr

theorem Scheduled.of_partitions (h : conf.Scheduled) (hslots : conf'.slots = conf.slots)
    (hframe : conf'.majorFrame = conf.majorFrame) (hle : conf.npartitions ≤ conf'.npartitions)
    (hperiodic : ∀ part < conf'.npartitions,
      (conf'.partitions part).hasPeriodicProcessingStart = true →
        part < conf.npartitions ∧ (conf.partitions part).hasPeriodicProcessingStart = true)
    (hmembers : ∀ part < conf'.npartitions, ∀ kind, ∀ port ∈ (conf'.partitions part).ports kind,
      port < conf'.nports ∧ (conf'.ports port).partition.isSome) : conf'.Scheduled where
  members := hmembers
  slots slot hmem part periodic hclass := by
    rw [hslots] at hmem
    exact Nat.lt_of_lt_of_le (h.slots slot hmem part periodic hclass) hle
  positive := by rw [hslots]; exact h.positive
  frame := by rw [hslots, hframe, h.frame]
  periodic part hlt hstart := by
    obtain ⟨hlt', hstart'⟩ := hperiodic part hlt hstart
    rw [hslots]
    exact h.periodic part hlt' hstart'

theorem updatePort_ports {f : Port → Port} {other : Nat} : (conf.updatePort port f).ports other =
    if other = port then f (conf.ports port) else conf.ports other :=
  Function.update_apply conf.ports port _ other

@[simp]
theorem updatePort_partitions {f : Port → Port} :
    (conf.updatePort port f).partitions = conf.partitions := rfl

theorem updatePartition_partitions {part other : Nat} {f : Partition → Partition} :
    (conf.updatePartition part f).partitions other =
      if other = part then f (conf.partitions part) else conf.partitions other :=
  Function.update_apply conf.partitions part _ other

theorem newPort_some {name direction : String} {size : Int} {attr : PortAttr}
    (h : conf.newPort name direction size attr = some conf') :
    ∃ p : Port, p.channelId = none ∧ (∀ r, p.attr = .sampling r → 1000000 ≤ r) ∧
      conf' = { conf with
        nports := conf.nports + 1, ports := Function.update conf.ports conf.nports p } := by
  unfold newPort at h
  cases hdir : directionSrc direction with
  | none =>
    rw [hdir] at h
    cases h
  | some isSrc =>
    rw [hdir] at h
    refine ⟨⟨name, isSrc, size, attr, none, none⟩, rfl, fun r hr => ?_, ?_⟩
    · have hattr : attr = .sampling r := hr
      subst hattr
      dsimp only at h
      split_ifs at h
      omega
    · cases attr with
      | queueing n => exact (Option.some.inj h).symm
      | sampling refresh =>
        dsimp only at h
        split_ifs at h
        exact (Option.some.inj h).symm

theorem Linked.newPort (h : conf.Linked) {name direction : String} {size : Int} {attr : PortAttr}
    (hnew : conf.newPort name direction size attr = some conf') : conf'.Linked := by
  obtain ⟨p, hid, hrefresh, rfl⟩ := newPort_some hnew
  refine h.of_ports rfl rfl (Nat.le_succ _) (fun port hlt => ?_) (fun port hlt hge => ?_)
  · refine ⟨(conf.ports port).partition, ?_⟩
    show Function.update conf.ports conf.nports p port = _
    rw [Function.update_of_ne (by omega)]
  · obtain rfl : port = conf.nports := by
      have : port < conf.nports + 1 := hlt
      omega
    simp only [Function.update_self]
    exact ⟨hid, hrefresh⟩

theorem Scheduled.newPort (h : conf.Scheduled) {name direction : String} {size : Int}
    {attr : PortAttr} (hnew : conf.newPort name direction size attr = some conf') :
    conf'.Scheduled := by
  obtain ⟨p, -, -, rfl⟩ := newPort_some hnew
  refine h.of_partitions rfl rfl (Nat.le_refl _) (fun part hlt hstart => ⟨hlt, hstart⟩) ?_
  intro part hlt kind port hmem
  obtain ⟨hport, hsome⟩ := h.members part hlt kind port hmem
  show port < conf.nports + 1 ∧ (Function.update conf.ports conf.nports p port).partition.isSome
  rw [Function.update_of_ne (by omega)]
  exact ⟨by omega, hsome⟩

/-- A new partition has no ports and no slots. -/
theorem addPartition_some {name : String} {partId : Option Int}
    (h : conf.addPartition name partId = some conf') :
    conf'.npartitions = conf.npartitions + 1 ∧
      (∀ part, part ≠ conf.npartitions → conf'.partitions part = conf.partitions part) ∧
      (∀ kind, (conf'.partitions conf.npartitions).ports kind = []) ∧
      (conf'.partitions conf.npartitions).hasPeriodicProcessingStart = false ∧
      conf'.nports = conf.nports ∧ conf'.ports = conf.ports ∧ conf'.slots = conf.slots ∧
      conf'.majorFrame = conf.majorFrame ∧ conf'.channels = conf.channels ∧
      conf'.nextChannelId = conf.nextChannelId := by
  unfold addPartition at h
  split_ifs at h
  have hof : ∀ f : Partition → Partition, (f (conf.partitions conf.npartitions)).ports = (fun _ => []) →
      (f (conf.partitions conf.npartitions)).hasPeriodicProcessingStart = false →
      (∀ part, part ≠ conf.npartitions →
        (conf.updatePartition conf.npartitions f).partitions part = conf.partitions part) ∧
      (∀ kind, ((conf.updatePartition conf.npartitions f).partitions conf.npartitions).ports kind
        = []) ∧
      ((conf.updatePartition conf.npartitions f).partitions
        conf.npartitions).hasPeriodicProcessingStart = false := by
    intro f hports hstart
    refine ⟨fun part hne => ?_, fun kind => ?_, ?_⟩
    · rw [updatePartition_partitions, if_neg hne]
    · rw [updatePartition_partitions, if_pos rfl, hports]
    · rw [updatePartition_partitions, if_pos rfl, hstart]
  cases partId with
  | none =>
    obtain rfl := Option.some.inj h
    obtain ⟨hothers, hnone, hstart⟩ := hof
      (fun _ => ⟨name, conf.nextPartitionId, fun _ => [], none, 0, false⟩) rfl rfl
    exact ⟨rfl, hothers, hnone, hstart, rfl, rfl, rfl, rfl, rfl, rfl⟩
  | some id =>
    dsimp only at h
    split_ifs at h
    obtain rfl := Option.some.inj h
    obtain ⟨hothers, hnone, hstart⟩ := hof (fun _ => ⟨name, id, fun _ => [], none, 0, false⟩) rfl rfl
    exact ⟨rfl, hothers, hnone, hstart, rfl, rfl, rfl, rfl, rfl, rfl⟩

theorem Linked.addPartition (h : conf.Linked) {name : String} {partId : Option Int}
    (hadd : conf.addPartition name partId = some conf') : conf'.Linked := by
  obtain ⟨-, -, -, -, hnports, hports, -, -, hchannels, hnext⟩ := addPartition_some hadd
  refine h.of_ports hchannels hnext (Nat.le_of_eq hnports.symm) (fun port _ => ?_) (fun port hlt hge => by omega)
  exact ⟨(conf.ports port).partition, by rw [hports]⟩

theorem Scheduled.addPartition (h : conf.Scheduled) {name : String} {partId : Option Int}
    (hadd : conf.addPartition name partId = some conf') : conf'.Scheduled := by
  obtain ⟨hnpartitions, hothers, hnone, hstart, hnports, hports, hslots, hframe, -, -⟩ :=
    addPartition_some hadd
  refine h.of_partitions hslots hframe (by omega) (fun part hlt hperiodic => ?_) ?_
  · by_cases hpart : part = conf.npartitions
    · rw [hpart, hstart] at hperiodic
      cases hperiodic
    · rw [hothers part hpart] at hperiodic
      exact ⟨by omega, hperiodic⟩
  · intro part hlt kind port hmem
    by_cases hpart : part = conf.npartitions
    · rw [hpart, hnone] at hmem
      cases hmem
    · rw [hothers part hpart] at hmem
      rw [hnports, hports]
      exact h.members part (by omega) kind port hmem

theorem addPort_some {part : Nat} (h : conf.addPort kind part port = some conf') :
    part < conf.npartitions ∧ port < conf.nports ∧
      conf' = (conf.updatePartition part fun p => { p with
        ports := Function.update p.ports kind (p.ports kind ++ [port]) }).updatePort port fun p =>
          { p with partition := some part } := by
  unfold addPort at h
  dsimp only at h
  split_ifs at h with hin hname
  exact ⟨hin.1, hin.2, (Option.some.inj h).symm⟩

theorem Linked.addPort (h : conf.Linked) {part : Nat}
    (hadd : conf.addPort kind part port = some conf') : conf'.Linked := by
  obtain ⟨-, -, rfl⟩ := addPort_some hadd
  refine h.of_ports rfl rfl (Nat.le_refl _) (fun other _ => ?_) (fun other hlt hge => absurd hlt (by
    change ¬ other < conf.nports
    omega))
  rw [updatePort_ports]
  split_ifs with he
  · rw [he]
    exact ⟨some part, rfl⟩
  · exact ⟨(conf.ports other).partition, rfl⟩

theorem Scheduled.addPort (h : conf.Scheduled) {part : Nat}
    (hadd : conf.addPort kind part port = some conf') : conf'.Scheduled := by
  obtain ⟨hpart, hport, rfl⟩ := addPort_some hadd
  refine h.of_partitions rfl rfl (Nat.le_refl _) (fun other hlt hstart => ⟨hlt, ?_⟩) ?_
  · rw [updatePort_partitions, updatePartition_partitions] at hstart
    split_ifs at hstart with he
    · rw [he]
      exact hstart
    · exact hstart
  · intro other hlt kind' o hmem
    have hold : o = port ∨ o ∈ (conf.partitions other).ports kind' := by
      rw [updatePort_partitions, updatePartition_partitions] at hmem
      split_ifs at hmem with he
      · rw [he]
        change o ∈ Function.update (conf.partitions part).ports kind
          ((conf.partitions part).ports kind ++ [port]) kind' at hmem
        rw [Function.update_apply] at hmem
        split_ifs at hmem with hk
        · rw [hk]
          simpa [or_comm] using hmem
        · exact Or.inr hmem
      · exact Or.inr hmem
    rw [updatePort_ports]
    by_cases he : o = port
    · rw [if_pos he, he]
      exact ⟨hport, rfl⟩
    · rw [if_neg he]
      exact h.members other hlt kind' o (hold.resolve_left he)

theorem Scheduled.channelled (h : conf.Scheduled) (hadd : Channelled conf conf' kind channel) :
    conf'.Scheduled := by
  have hpartitions : conf'.partitions = conf.partitions := by rw [hadd.rest]
  have hnpartitions : conf'.npartitions = conf.npartitions := by rw [hadd.rest]
  refine h.of_partitions (by rw [hadd.rest]) (by rw [hadd.rest]) (Nat.le_of_eq hnpartitions.symm)
    (fun part hlt hstart => ?_) ?_
  · rw [hpartitions] at hstart
    exact ⟨by omega, hstart⟩
  · intro part hlt kind' o hmem
    rw [hpartitions] at hmem
    rw [hadd.nports]
    obtain ⟨id, he⟩ := hadd.port_same o
    rw [he]
    exact h.members part (by omega) kind' o hmem

/-- A slot lengthens the frame, and is remembered by the partition that it is for. -/
theorem addTimeSlot_some {slot : TimeSlot} (h : conf.addTimeSlot slot = some conf') :
    conf'.slots = conf.slots ++ [slot] ∧ conf'.majorFrame = conf.majorFrame + slot.duration ∧
      1000000 ≤ slot.duration ∧
      (∀ part periodic, slot.slotClass = .partition part periodic → part < conf.npartitions) ∧
      (∀ part, (conf'.partitions part).ports = (conf.partitions part).ports) ∧
      (∀ part, (conf'.partitions part).hasPeriodicProcessingStart = true →
        (conf.partitions part).hasPeriodicProcessingStart = true ∨
          slot.slotClass = .partition part true) ∧
      conf'.npartitions = conf.npartitions ∧ conf'.nports = conf.nports ∧
      conf'.ports = conf.ports ∧ conf'.channels = conf.channels ∧
      conf'.nextChannelId = conf.nextChannelId := by
  unfold addTimeSlot at h
  split_ifs at h with hduration
  have hlong : 1000000 ≤ slot.duration := not_lt.mp hduration
  cases hclass : slot.slotClass with
  | partition part periodic =>
    rw [hclass] at h
    dsimp only at h
    split_ifs at h with hpart
    obtain rfl := Option.some.inj h
    refine ⟨rfl, rfl, hlong, fun other periodic' he => ?_, fun other => ?_, fun other hstart => ?_,
      rfl, rfl, rfl, rfl, rfl⟩
    · obtain ⟨rfl, -⟩ := SlotClass.partition.inj he
      omega
    · simp only [updatePartition_partitions]
      split_ifs with he
      · rw [he]
      · rfl
    · simp only [updatePartition_partitions] at hstart
      split_ifs at hstart with he
      · rw [he]
        rcases Bool.or_eq_true_iff.mp hstart with hold | hnew
        · exact Or.inl hold
        · rw [hnew]
          exact Or.inr rfl
      · exact Or.inl hstart
  | spare | network | monitor | gdb =>
    rw [hclass] at h
    obtain rfl := Option.some.inj h
    exact ⟨rfl, rfl, hlong, fun _ _ he => (by cases he), fun _ => rfl, fun _ hstart => Or.inl hstart,
      rfl, rfl, rfl, rfl, rfl⟩

theorem Linked.addTimeSlot (h : conf.Linked) {slot : TimeSlot}
    (hadd : conf.addTimeSlot slot = some conf') : conf'.Linked := by
  obtain ⟨-, -, -, -, -, -, -, hnports, hports, hchannels, hnext⟩ := addTimeSlot_some hadd
  refine h.of_ports hchannels hnext (Nat.le_of_eq hnports.symm) (fun port _ => ?_) (fun port hlt hge => by omega)
  exact ⟨(conf.ports port).partition, by rw [hports]⟩

theorem Scheduled.addTimeSlot (h : conf.Scheduled) {slot : TimeSlot}
    (hadd : conf.addTimeSlot slot = some conf') : conf'.Scheduled := by
  obtain ⟨hslots, hframe, hlong, hpart, hlists, hstart, hnpartitions, hnports, hports, -, -⟩ :=
    addTimeSlot_some hadd
  constructor
  · intro part hlt kind port hmem
    rw [hlists] at hmem
    rw [hnports, hports]
    exact h.members part (by omega) kind port hmem
  · intro other hmem part periodic hclass
    rw [hslots] at hmem
    rw [hnpartitions]
    rcases List.mem_append.mp hmem with hold | hnew
    · exact h.slots other hold part periodic hclass
    · rw [List.mem_singleton.mp hnew] at hclass
      exact hpart part periodic hclass
  · intro other hmem
    rw [hslots] at hmem
    rcases List.mem_append.mp hmem with hold | hnew
    · exact h.positive other hold
    · rw [List.mem_singleton.mp hnew]
      omega
  · rw [hslots, hframe]
    simp [h.frame]
  · intro part hlt hperiodic
    rw [hslots]
    rcases hstart part hperiodic with hold | hnew
    · obtain ⟨other, hmem, hclass⟩ := h.periodic part (by omega) hold
      exact ⟨other, List.mem_append_left _ hmem, hclass⟩
    · exact ⟨slot, List.mem_append_right _ (List.mem_singleton_self slot), hnew⟩

theorem Linked.step {call : ConfigCall} (h : conf.Linked) (hs : conf.step call = some conf') :
    conf'.Linked := by
  cases call with
  | newPort name direction size attr => exact h.newPort hs
  | addPartition name partId => exact h.addPartition hs
  | setIsSystem part isSystem =>
    rw [Configuration.step] at hs
    split_ifs at hs
    obtain rfl := Option.some.inj hs
    exact ⟨h.next, h.ends, h.named, h.latest, fun kind channel hmem =>
      ⟨(h.built kind channel hmem).size, (h.built kind channel hmem).send,
        (h.built kind channel hmem).receive⟩, h.refresh⟩
  | addPort kind part port => exact h.addPort hs
  | addChannel src dst =>
    obtain ⟨kind, channel, hadd⟩ := addChannel_some hs
    exact h.channelled hadd
  | addTimeSlot slot => exact h.addTimeSlot hs
  | setNetwork =>
    obtain rfl := Option.some.inj hs
    exact ⟨h.next, h.ends, h.named, h.latest, fun kind channel hmem =>
      ⟨(h.built kind channel hmem).size, (h.built kind channel hmem).send,
        (h.built kind channel hmem).receive⟩, h.refresh⟩

theorem Scheduled.step {call : ConfigCall} (h : conf.Scheduled) (hs : conf.step call = some conf') :
    conf'.Scheduled := by
  cases call with
  | newPort name direction size attr => exact h.newPort hs
  | addPartition name partId => exact h.addPartition hs
  | setIsSystem part isSystem =>
    rw [Configuration.step] at hs
    split_ifs at hs
    obtain rfl := Option.some.inj hs
    refine h.of_partitions rfl rfl (Nat.le_refl _) (fun other hlt hstart => ⟨hlt, ?_⟩) ?_
    · rw [updatePartition_partitions] at hstart
      split_ifs at hstart with he
      · rw [he]
        exact hstart
      · exact hstart
    · intro other hlt kind port hmem
      rw [updatePartition_partitions] at hmem
      split_ifs at hmem with he
      · rw [he] at hlt
        exact h.members part hlt kind port hmem
      · exact h.members other hlt kind port hmem
  | addPort kind part port => exact h.addPort hs
  | addChannel src dst =>
    obtain ⟨kind, channel, hadd⟩ := addChannel_some hs
    exact h.channelled hadd
  | addTimeSlot slot => exact h.addTimeSlot hs
  | setNetwork =>
    obtain rfl := Option.some.inj hs
    exact ⟨h.members, h.slots, h.positive, h.frame, h.periodic⟩

theorem linked_exec {calls : List ConfigCall} (h : Run.exec step init calls = some conf) :
    conf.Linked :=
  Run.invariant (fun _ _ _ hi hs => hi.step hs) Linked.init h

theorem scheduled_exec {calls : List ConfigCall} (h : Run.exec step init calls = some conf) :
    conf.Scheduled :=
  Run.invariant (fun _ _ _ hi hs => hi.step hs) Scheduled.init h

end Configuration

end Chpok.Config
