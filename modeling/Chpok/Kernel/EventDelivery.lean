import Chpok.Kernel.PartitionEvents
import Chpok.Library.Ring
import Chpok.Library.Run

/-! Delivery of the events of a partition. The flag is set when the ring becomes nonempty, and
only the consumer makes it empty, so that an event which the drain loop has not seen has set
the flag again. -/

namespace Chpok

namespace PartitionEvents

variable {p q : PartitionEvents} {event : PartitionEvent}

structure InRing (p : PartitionEvents) : Prop where
  max : p.eventMax < 65536
  start : p.eventBegin < p.eventMax + 1
  stop : p.eventEnd < p.eventMax + 1

def count (p : PartitionEvents) : Nat := RingIndex.sub (p.eventMax + 1) p.eventEnd p.eventBegin

/-- The events that have been added and not been consumed. -/
def pending (p : PartitionEvents) : List PartitionEvent :=
  RingIndex.segment (p.eventMax + 1) p.events p.eventBegin p.count

theorem pending_eq_nil (h : p.InRing) : p.pending = [] ↔ p.eventEnd = p.eventBegin := by
  rw [← List.length_eq_zero_iff, pending, RingIndex.segment_length, count, RingIndex.sub_eq_zero h.start]

theorem nextBegin_eq (h : p.InRing) :
    p.nextBegin p.eventBegin = RingIndex.add (p.eventMax + 1) p.eventBegin 1 := by
  have hmax := h.max
  have hstart := h.start
  rw [nextBegin, RingIndex.add]
  split_ifs <;> omega

/-- An event that is added is pending behind the others. -/
theorem InRing.addEvent (h : p.InRing) (hq : p.addEvent event = some q) :
    q.InRing ∧ q.pending = p.pending ++ [event] ∧ q.eventMax = p.eventMax ∧
      q.eventBegin = p.eventBegin ∧ (p.pending = [] → q.isEvent) ∧ (p.isEvent → q.isEvent) ∧
      q.preemptLocalDisabled = p.preemptLocalDisabled := by
  have hnext : (if p.eventMax < (p.eventEnd + 1) % 65536 then 0 else (p.eventEnd + 1) % 65536) =
      RingIndex.add (p.eventMax + 1) p.eventEnd 1 := by
    have hmax := h.max
    have hstop := h.stop
    rw [RingIndex.add]
    split_ifs <;> omega
  rw [PartitionEvents.addEvent, hnext] at hq
  dsimp only at hq
  by_cases hzero : p.eventMax = 0
  · rw [if_pos hzero] at hq
    cases hq
  by_cases hfull : RingIndex.add (p.eventMax + 1) p.eventEnd 1 = p.eventBegin
  · rw [if_neg hzero, if_pos hfull] at hq
    cases hq
  rw [if_neg hzero, if_neg hfull] at hq
  obtain rfl := Option.some.inj hq
  have hone : 1 < p.eventMax + 1 := by omega
  have hcount : p.count + 1 < p.eventMax + 1 := by
    have hlt := RingIndex.sub_lt h.stop h.start
    rcases Nat.lt_or_ge (p.count + 1) (p.eventMax + 1) with hroom | hroom
    · exact hroom
    · have hcount : p.count = p.eventMax := by
        change p.count < p.eventMax + 1 at hlt
        omega
      have hend := RingIndex.add_sub h.stop h.start
      change RingIndex.add (p.eventMax + 1) p.eventBegin p.count = p.eventEnd at hend
      rw [← hend, RingIndex.add_add h.start (by omega), hcount] at hfull
      have hback : RingIndex.add (p.eventMax + 1) p.eventBegin (p.eventMax + 1) = p.eventBegin := by
        rw [RingIndex.add]
        split_ifs <;> omega
      exact absurd hback hfull
  have hin : PartitionEvents.InRing { p with
      events := Function.update p.events p.eventEnd event
      eventEnd := RingIndex.add (p.eventMax + 1) p.eventEnd 1
      isEvent := if p.eventEnd = p.eventBegin then true else p.isEvent } :=
    ⟨h.max, h.start, RingIndex.add_lt h.stop (by omega)⟩
  refine ⟨hin, ?_, rfl, rfl, fun hnil => ?_, fun hset => ?_, rfl⟩
  · have hsucc := RingIndex.sub_add_stop h.stop h.start hcount
    have hend : RingIndex.add (p.eventMax + 1) p.eventBegin p.count = p.eventEnd :=
      RingIndex.add_sub h.stop h.start
    change RingIndex.segment (p.eventMax + 1) (Function.update p.events p.eventEnd event) p.eventBegin
      (RingIndex.sub (p.eventMax + 1) (RingIndex.add (p.eventMax + 1) p.eventEnd 1) p.eventBegin) = _
    rw [hsucc, RingIndex.segment_snoc h.start (by change p.count < _; omega)]
    change RingIndex.segment _ _ _ p.count ++ [Function.update p.events p.eventEnd event
      (RingIndex.add (p.eventMax + 1) p.eventBegin p.count)] = _
    rw [hend, Function.update_self, ← hend, RingIndex.segment_update (by omega) (Nat.le_refl _)]
    rfl
  · exact if_pos ((pending_eq_nil h).mp hnil)
  · change (if p.eventEnd = p.eventBegin then true else p.isEvent) = true
    rw [hset, ite_self]

theorem InRing.consume (h : p.InRing) (hne : p.pending ≠ []) :
    PartitionEvents.InRing { p with eventBegin := p.nextBegin p.eventBegin } ∧
      p.pending = p.events p.eventBegin ::
        PartitionEvents.pending { p with eventBegin := p.nextBegin p.eventBegin } := by
  have hne : p.eventEnd ≠ p.eventBegin := mt (pending_eq_nil h).mpr hne
  have hmax : 0 < p.eventMax := by
    have hstart := h.start
    have hstop := h.stop
    omega
  rw [nextBegin_eq h]
  refine ⟨⟨h.max, RingIndex.add_lt h.start (by omega), h.stop⟩, ?_⟩
  have hcount := RingIndex.sub_add_start h.stop h.start hne
  have hlt := RingIndex.sub_lt h.stop h.start
  rw [pending, count, ← hcount, RingIndex.segment_cons h.start (by omega)]
  rfl

end PartitionEvents

namespace DrainSystem

variable {s t : DrainSystem}

/-- The points at which an event that is pending has set the flag. -/
def Settled : DrainPoint → Prop
  | .resetFlag | .readBegin | .readEnd _ | .readSlot _ | .storeBegin _ _ => False
  | _ => True

/-- What the consumer has read so far is still so. -/
def Holds (ring : PartitionEvents) : DrainPoint → Prop
  | .readEnd start => start = ring.eventBegin
  | .readSlot start => start = ring.eventBegin ∧ ring.pending ≠ []
  | .storeBegin start event =>
    start = ring.eventBegin ∧ ring.pending ≠ [] ∧ event = ring.events start
  | _ => True

structure Inv (s : DrainSystem) : Prop where
  inRing : s.ring.InRing
  order : s.added = s.consumed ++ s.ring.pending
  settled : Settled s.point → s.ring.pending ≠ [] → s.ring.isEvent
  holds : Holds s.ring s.point

theorem Inv.advance (hs : s.Inv) (h : s.advance = some t) : t.Inv := by
  obtain ⟨hring, horder, hsettled, hholds⟩ := hs
  rw [DrainSystem.advance] at h
  cases hp : s.point with
  | testFlag =>
    rw [hp] at h hsettled
    obtain rfl := Option.some.inj h
    refine ⟨hring, horder, fun hset hne => hsettled trivial hne, ?_⟩
    change Holds s.ring (if s.ring.isEvent then .resetFlag else .drained)
    split_ifs <;> trivial
  | resetFlag =>
    rw [hp] at h
    obtain rfl := Option.some.inj h
    exact ⟨⟨hring.max, hring.start, hring.stop⟩, horder, nofun, trivial⟩
  | readBegin =>
    rw [hp] at h
    obtain rfl := Option.some.inj h
    exact ⟨hring, horder, nofun, rfl⟩
  | readEnd start =>
    rw [hp] at h hholds
    obtain rfl := Option.some.inj h
    obtain rfl : start = s.ring.eventBegin := hholds
    by_cases hempty : s.ring.eventEnd = s.ring.eventBegin
    · refine ⟨hring, horder, fun _ hne => ?_, ?_⟩
      · exact absurd ((PartitionEvents.pending_eq_nil hring).mpr hempty) hne
      · change Holds s.ring (if _ then _ else _)
        rw [if_pos hempty]
        trivial
    · have hne := mt (PartitionEvents.pending_eq_nil hring).mp hempty
      refine ⟨hring, horder, fun hset => ?_, ?_⟩
      · change Settled (if _ then _ else _) at hset
        rw [if_neg hempty] at hset
        exact hset.elim
      · change Holds s.ring (if _ then _ else _)
        rw [if_neg hempty]
        exact ⟨rfl, hne⟩
  | readSlot start =>
    rw [hp] at h hholds
    obtain rfl := Option.some.inj h
    exact ⟨hring, horder, nofun, hholds.1, hholds.2, rfl⟩
  | storeBegin start event =>
    rw [hp] at h hholds
    obtain rfl := Option.some.inj h
    obtain ⟨rfl, hne, rfl⟩ := hholds
    obtain ⟨hring', hpending⟩ := hring.consume hne
    refine ⟨hring', ?_, nofun, trivial⟩
    rw [horder, hpending]
    exact (List.append_cons _ _ _)
  | lookAgain =>
    rw [hp] at h hsettled
    dsimp only at h
    split_ifs at h with hset
    · obtain rfl := Option.some.inj h
      exact ⟨⟨hring.max, hring.start, hring.stop⟩, horder, fun _ _ => hset, trivial⟩
    · obtain rfl := Option.some.inj h
      exact ⟨hring, horder, fun _ hne => hsettled trivial hne, trivial⟩
  | user | kernel | drained =>
    rw [hp] at h
    cases h

theorem Inv.addEvent {event : PartitionEvent} (hs : s.Inv)
    (h : s.step (.addEvent event) = some t) : t.Inv := by
  obtain ⟨hring, horder, hsettled, hholds⟩ := hs
  obtain ⟨ring, hadd, rfl⟩ := Option.map_eq_some_iff.mp h
  obtain ⟨hring', hpending, -, hstart, hwake, hkeep, -⟩ := hring.addEvent hadd
  have hslot : s.ring.pending ≠ [] → ring.events ring.eventBegin = s.ring.events ring.eventBegin := by
    intro hne
    have hfront := (hring.consume hne).2
    have hne' : ring.pending ≠ [] := by simp [hpending]
    have hfront' := (hring'.consume hne').2
    rw [hpending, hfront, List.cons_append] at hfront'
    rw [← (List.cons.inj hfront').1, hstart]
  refine ⟨hring', ?_, fun hset _ => ?_, ?_⟩
  · change s.added ++ [event] = s.consumed ++ ring.pending
    rw [horder, hpending, List.append_assoc]
  · by_cases hnil : s.ring.pending = []
    · exact hwake hnil
    · exact hkeep (hsettled hset hnil)
  · change Holds ring s.point
    cases hp : s.point with
    | readEnd start =>
      rw [hp] at hholds
      exact hholds.trans hstart.symm
    | readSlot start =>
      rw [hp] at hholds
      exact ⟨hholds.1.trans hstart.symm, by simp [hpending]⟩
    | storeBegin start event' =>
      rw [hp] at hholds
      obtain ⟨rfl, hne, rfl⟩ := hholds
      refine ⟨hstart.symm, by simp [hpending], ?_⟩
      rw [← hstart, hslot hne]
    | user | kernel | testFlag | resetFlag | readBegin | drained | lookAgain => trivial

theorem Inv.move {ring : PartitionEvents} {point : DrainPoint} (hs : s.Inv)
    (hp : Settled s.point) (hto : Holds ring point) (hbegin : ring.eventBegin = s.ring.eventBegin)
    (hend : ring.eventEnd = s.ring.eventEnd) (hmax : ring.eventMax = s.ring.eventMax)
    (hevents : ring.events = s.ring.events) (hflag : ring.isEvent = s.ring.isEvent) :
    Inv { s with ring, point } := by
  have hpending : ring.pending = s.ring.pending := by
    rw [PartitionEvents.pending, PartitionEvents.pending, PartitionEvents.count,
      PartitionEvents.count, hbegin, hend, hmax, hevents]
  refine ⟨⟨?_, ?_, ?_⟩, ?_, fun _ hne => ?_, hto⟩
  · exact hmax ▸ hs.inRing.max
  · exact hmax ▸ hbegin ▸ hs.inRing.start
  · exact hmax ▸ hend ▸ hs.inRing.stop
  · exact hs.order.trans (congrArg _ hpending.symm)
  · change ring.isEvent = true
    rw [hflag]
    exact hs.settled hp (hpending ▸ hne)

theorem step_inv {e : DrainInput} (hs : s.Inv) (h : s.step e = some t) : t.Inv := by
  cases e with
  | addEvent event => exact hs.addEvent h
  | advance => exact hs.advance h
  | localDisable =>
    simp only [step] at h
    split_ifs at h with hp
    obtain rfl := Option.some.inj h
    exact hs.move (hp ▸ trivial) trivial rfl rfl rfl rfl rfl
  | localEnable =>
    simp only [step] at h
    split_ifs at h with hp
    obtain rfl := Option.some.inj h
    exact hs.move (hp ▸ trivial) trivial rfl rfl rfl rfl rfl
  | onEvent =>
    simp only [step] at h
    split_ifs at h with hguard
    obtain rfl := Option.some.inj h
    have hp : Settled s.point := by
      rcases hguard.1 with hp | hp
      · exact hp ▸ trivial
      · exact hp ▸ trivial
    exact hs.move hp trivial rfl rfl rfl rfl rfl
  | again =>
    simp only [step] at h
    split_ifs at h with hp
    obtain rfl := Option.some.inj h
    exact hs.move (hp ▸ trivial) trivial rfl rfl rfl rfl rfl
  | flagReset =>
    simp only [step] at h
    split_ifs at h with hp
    obtain rfl := Option.some.inj h
    exact hs.move (hp ▸ trivial) trivial rfl rfl rfl rfl rfl
  | onEventEnd toUser =>
    simp only [step] at h
    split_ifs at h with hp hset huser
    all_goals
      obtain rfl := Option.some.inj h
      exact hs.move (hp ▸ trivial) trivial rfl rfl rfl rfl rfl

theorem boot_inv {ring : PartitionEvents} (hmax : ring.eventMax < 65536) : (boot ring).Inv := by
  have hin : (boot ring).ring.InRing := ⟨hmax, Nat.succ_pos _, Nat.succ_pos _⟩
  have hnil : (boot ring).ring.pending = [] := (PartitionEvents.pending_eq_nil hin).mpr rfl
  refine ⟨hin, ?_, fun _ hne => absurd hnil hne, trivial⟩
  rw [hnil]
  rfl

/-- However producers and the drain loop interleave, the events are consumed in the order in which they
were added, and none is left behind when the kernel is left. -/
theorem event_delivery {ring : PartitionEvents} (hmax : ring.eventMax < 65536)
    {es : List DrainInput} (h : Run.exec step (boot ring) es = some t) :
    t.added = t.consumed ++ t.ring.pending ∧
    (Settled t.point → t.ring.pending ≠ [] → t.ring.isEvent) ∧
    (t.point = .lookAgain → ∀ r, t.step .advance = some r → r.point = .user →
      r.ring.pending = []) := by
  have ht : t.Inv := Run.invariant (fun _ _ _ hs h => step_inv hs h) (boot_inv hmax) h
  refine ⟨ht.order, ht.settled, fun hp r hr huser => ?_⟩
  have hquiet : ¬ t.ring.isEvent ∧ r.ring = t.ring := by
    simp only [step, advance, hp] at hr
    split_ifs at hr with hset
    · obtain rfl := Option.some.inj hr
      cases huser
    · obtain rfl := Option.some.inj hr
      exact ⟨hset, rfl⟩
  by_contra hne
  rw [hquiet.2] at hne
  exact hquiet.1 (ht.settled (hp ▸ trivial) hne)

/-- A ring for two events. -/
def twoEvents : PartitionEvents := ⟨fun _ => ⟨0, .timer⟩, 2, 0, 0, false, false⟩

/-- An event is added after the consumer has read the slot of the last one. -/
def addWhileDraining : List DrainInput :=
  [.addEvent ⟨1, .portSendAvailable⟩, .localEnable, .advance, .advance, .advance, .advance,
    .advance, .addEvent ⟨2, .portReceiveAvailable⟩, .advance, .advance, .advance, .advance,
    .advance, .advance, .advance, .flagReset]

theorem event_delivery_addWhileDraining :
    ∃ t, Run.exec step (boot twoEvents) addWhileDraining = some t ∧ t.point = .lookAgain ∧
      t.added = t.consumed ++ t.ring.pending ∧ t.consumed.length = 2 := by
  have hview : (Run.exec step (boot twoEvents) addWhileDraining).map
      (fun t => (t.point, t.consumed.length)) = some (.lookAgain, 2) := by
    decide +kernel
  obtain ⟨t, ht, hv⟩ := Option.map_eq_some_iff.mp hview
  obtain ⟨hpoint, hconsumed⟩ := Prod.mk.inj hv
  have hdelivery := event_delivery (show twoEvents.eventMax < 65536 by decide) ht
  exact ⟨t, ht, hpoint, hdelivery.1, hconsumed⟩

end DrainSystem

end Chpok
