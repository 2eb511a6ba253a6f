import Chpok.Library.Matching
import Chpok.Config.Deployment
import Chpok.Config.ConfigurationRuns
import Mathlib.Data.List.Flatten

/-! The ports and the channels of the tables. The sides of the channels are places that the
ports use, and the ends that the configuration has given to the channels own them. -/

namespace Chpok.Config

open Matching

theorem toUint_eq_iff {x : Int} : toUint 32 x = toUint 16 x ↔ toUint 32 x < 2 ^ 16 := by
  simp only [toUint]
  omega

namespace Configuration

variable {conf : Configuration} {kind : PortKind}

/-- What the sources and the destinations of the channels of a kind are, in turn -/
def ends (conf : Configuration) (kind : PortKind) : List (Option Nat) :=
  (conf.channels kind).flatMap fun channel => [channel.src, channel.dst]

/-- A side of a channel, the source being `true` -/
def sides (conf : Configuration) (kind : PortKind) : List (Nat × Bool) :=
  (List.range (conf.channels kind).length).flatMap fun id => [(id, true), (id, false)]

def sideOwner (conf : Configuration) (kind : PortKind) (side : Nat × Bool) : Option Nat :=
  (conf.channels kind)[side.1]?.bind fun channel => if side.2 then channel.src else channel.dst

/-- The side that the kernel gives to a port -/
def sideOf (conf : Configuration) (port : Nat) : Nat × Bool :=
  ((conf.portEntry port).channel, (conf.portEntry port).directionOut)

theorem mem_sides {side : Nat × Bool} :
    side ∈ conf.sides kind ↔ side.1 < (conf.channels kind).length := by
  rcases side with ⟨id, dir⟩
  cases dir <;> simp [sides]

theorem sides_nodup : (conf.sides kind).Nodup := by
  rw [sides, List.nodup_flatMap]
  refine ⟨fun id _ => by simp, ?_⟩
  apply List.Pairwise.imp_of_mem _ List.pairwise_lt_range
  intro id other _ _ hlt
  simp [List.disjoint_left, Function.onFun]
  omega

theorem map_sideOwner : (conf.sides kind).map (conf.sideOwner kind) = conf.ends kind := by
  have hget : (List.range (conf.channels kind).length).map (fun id => (conf.channels kind)[id]?) =
      (conf.channels kind).map some := by
    apply List.ext_getElem?
    intro i
    by_cases hlt : i < (conf.channels kind).length
    · simp [hlt]
    · simp [hlt]
  have hmap : (conf.sides kind).map (conf.sideOwner kind) =
      ((List.range (conf.channels kind).length).map fun id => (conf.channels kind)[id]?).flatMap
        fun channel => [channel.bind Channel.src, channel.bind Channel.dst] := by
    simp [sides, List.map_flatMap, List.flatMap_map, sideOwner]
  rw [hmap, hget, List.flatMap_map]
  rfl

theorem mem_ends {port : Nat} :
    some port ∈ conf.ends kind ↔ ∃ channel ∈ conf.channels kind, channel.HasEnd port := by
  simp [ends, Channel.HasEnd, eq_comm]

theorem ports_tables : conf.tables.ports kind = (conf.addedPorts kind).map conf.portEntry := by
  simp [KernelTables.ports, tables, addedPorts, partitionEntry, List.flatMap_map, List.map_flatMap]

/-- Every port is at a side of a channel, and every side has one port. -/
theorem matched_iff : Matched (conf.addedPorts kind) (conf.sides kind) conf.sideOf
      (conf.sideOwner kind) ↔
    (∀ entry ∈ conf.tables.ports kind, ∃ channel,
      (conf.channels kind)[entry.channel]? = some channel ∧
        (if entry.directionOut then channel.src else channel.dst) = some entry.port) ∧
    ∀ channel < (conf.channels kind).length, ∀ directionOut, (conf.tables.ports kind).countP
      (fun entry => entry.channel = channel ∧ entry.directionOut = directionOut) = 1 := by
  have howner : ∀ port, conf.sideOwner kind (conf.sideOf port) = some port ↔ ∃ channel,
      (conf.channels kind)[(conf.portEntry port).channel]? = some channel ∧
        (if (conf.portEntry port).directionOut then channel.src else channel.dst) =
          some (conf.portEntry port).port := by
    intro port
    rw [sideOwner, Option.bind_eq_some_iff]
    rfl
  have hcount : ∀ side : Nat × Bool,
      (conf.addedPorts kind).countP (fun port => conf.sideOf port = side) =
        (conf.tables.ports kind).countP
          (fun entry => entry.channel = side.1 ∧ entry.directionOut = side.2) := by
    intro side
    rw [ports_tables, List.countP_map]
    apply List.countP_congr
    intro port _
    simp [sideOf, Prod.ext_iff]
  constructor
  · intro h
    constructor
    · intro entry hmem
      rw [ports_tables] at hmem
      obtain ⟨port, hport, rfl⟩ := List.mem_map.mp hmem
      exact (howner port).mp (h.owned port hport)
    · intro channel hlt dir
      rw [← hcount (channel, dir)]
      exact h.once (channel, dir) (mem_sides.mpr hlt)
  · rintro ⟨hattached, hsides⟩
    have howned : ∀ port ∈ conf.addedPorts kind,
        conf.sideOwner kind (conf.sideOf port) = some port := by
      intro port hport
      apply (howner port).mpr
      apply hattached
      rw [ports_tables]
      exact List.mem_map.mpr ⟨port, hport, rfl⟩
    refine ⟨fun port hport => ?_, howned, fun side hside => ?_⟩
    · obtain ⟨channel, hat, -⟩ := (howner port).mp (howned port hport)
      exact mem_sides.mpr (List.getElem?_eq_some_iff.mp hat).1
    · rw [hcount]
      exact hsides side.1 (mem_sides.mp hside) side.2

/-- The sources and the destinations of the channels are the ports of the partitions, each of
them once, and each at the end that its direction is for. -/
structure Paired (conf : Configuration) (kind : PortKind) : Prop where
  ends : (conf.ends kind).Perm ((conf.addedPorts kind).map some)
  once : (conf.addedPorts kind).Nodup
  src : ∀ channel ∈ conf.channels kind, ∀ s, channel.src = some s →
    (conf.ports s).isDirectionSrc = true
  dst : ∀ channel ∈ conf.channels kind, ∀ d, channel.dst = some d →
    (conf.ports d).isDirectionSrc = false

theorem Paired.matched (h : conf.Paired kind) (hlinked : conf.Linked) :
    Matched (conf.addedPorts kind) (conf.sides kind) conf.sideOf (conf.sideOwner kind) := by
  apply matched_of_perm (by rw [map_sideOwner]; exact h.ends) h.once
  rintro port ⟨id, dir⟩ - howner hunique
  obtain ⟨channel, hat, hside⟩ := Option.bind_eq_some_iff.mp howner
  have hchannel := List.mem_of_getElem? hat
  have hend : channel.HasEnd port := by
    cases dir
    · exact Or.inr hside
    · exact Or.inl hside
  obtain ⟨hlt, hkind⟩ := hlinked.ends kind channel hchannel port hend
  obtain ⟨last, hlast, -⟩ := hlinked.named kind id channel hat port hend
  -- the channel that the port is left with is the only one that it is an end of
  have hid : last = id := by
    obtain ⟨channel', hat', hend'⟩ := hlinked.latest port hlt last hlast
    rw [hkind] at hat'
    have hmem : ∀ dir', (last, dir') ∈ conf.sides kind :=
      fun _ => mem_sides.mpr (List.getElem?_eq_some_iff.mp hat').1
    rcases hend' with hsrc | hdst
    · have he := hunique (last, true) (hmem true) (Option.bind_eq_some_iff.mpr ⟨channel', hat', hsrc⟩)
      exact (Prod.mk.inj he).1
    · have he := hunique (last, false) (hmem false) (Option.bind_eq_some_iff.mpr ⟨channel', hat', hdst⟩)
      exact (Prod.mk.inj he).1
  have hdir : (conf.ports port).isDirectionSrc = dir := by
    cases dir
    · exact h.dst channel hchannel port hside
    · exact h.src channel hchannel port hside
  simp [sideOf, portEntry, hlast, hid, hdir]

theorem Paired.of_matched
    (h : Matched (conf.addedPorts kind) (conf.sides kind) conf.sideOf (conf.sideOwner kind)) :
    conf.Paired kind := by
  have hdir : ∀ channel ∈ conf.channels kind, ∀ dir port,
      (if dir then channel.src else channel.dst) = some port →
        (conf.ports port).isDirectionSrc = dir := by
    intro channel hmem dir port hside
    obtain ⟨id, hat⟩ := List.mem_iff_getElem?.mp hmem
    have howner : conf.sideOwner kind (id, dir) = some port :=
      Option.bind_eq_some_iff.mpr ⟨channel, hat, hside⟩
    obtain ⟨user, -, huse, hown⟩ := h.user (s := (id, dir))
      (mem_sides.mpr (List.getElem?_eq_some_iff.mp hat).1)
    rw [howner] at hown
    obtain rfl := Option.some.inj hown
    exact (Prod.mk.inj huse).2
  refine ⟨?_, h.nodup, fun channel hmem s hs => hdir channel hmem true s hs,
    fun channel hmem d hd => hdir channel hmem false d hd⟩
  rw [← map_sideOwner]
  exact h.perm sides_nodup

theorem Paired.sideOf (h : conf.Paired kind) (hlinked : conf.Linked) {id port : Nat} {dir : Bool}
    {channel : Channel} (hat : (conf.channels kind)[id]? = some channel)
    (hside : (if dir then channel.src else channel.dst) = some port) :
    conf.sideOf port = (id, dir) := by
  obtain ⟨user, -, huse, hown⟩ := (h.matched hlinked).user
    (mem_sides.mpr (List.getElem?_eq_some_iff.mp hat).1 : (id, dir) ∈ conf.sides kind)
  have howner : conf.sideOwner kind (id, dir) = some port :=
    Option.bind_eq_some_iff.mpr ⟨channel, hat, hside⟩
  rw [howner] at hown
  rwa [Option.some.inj hown]

theorem Paired.both (h : conf.Paired kind) {channel : Channel}
    (hmem : channel ∈ conf.channels kind) : ∃ s d, channel.src = some s ∧ channel.dst = some d ∧
      s ∈ conf.addedPorts kind ∧ d ∈ conf.addedPorts kind := by
  have hport : ∀ e ∈ [channel.src, channel.dst], ∃ port ∈ conf.addedPorts kind, e = some port := by
    intro e he
    have hends : e ∈ conf.ends kind := List.mem_flatMap.mpr ⟨channel, hmem, he⟩
    obtain ⟨port, hport, rfl⟩ := List.mem_map.mp (h.ends.mem_iff.mp hends)
    exact ⟨port, hport, rfl⟩
  obtain ⟨s, hs, hsrc⟩ := hport channel.src (by simp)
  obtain ⟨d, hd, hdst⟩ := hport channel.dst (by simp)
  exact ⟨s, d, hsrc, hdst, hs, hd⟩

theorem Paired.channel (h : conf.Paired kind) {port : Nat} (hport : port ∈ conf.addedPorts kind) :
    ∃ channel ∈ conf.channels kind, channel.HasEnd port := by
  apply mem_ends.mp
  apply h.ends.mem_iff.mpr
  exact List.mem_map.mpr ⟨port, hport, rfl⟩

end Configuration

end Chpok.Config
