import Chpok.Kernel.DelayedEventOrder
import Chpok.Kernel.PeriodicRelease
import Chpok.Library.Run

/-! The timed events of a partition are what its queue of delayed events holds, in every run of the
calls that add, remove and check them. -/

namespace Chpok

open Outcome

/-- The field of the thread that the event is in -/
def DelayedEvent.field (e : DelayedEvent) : Nat × DelayedKind := (e.thread, e.kind)

namespace ArincPartition

variable {P : Type} {p p' : ArincPartition} {q : DelayedEventQueue (Nat × DelayedKind) P}
  {hm : PartitionHm} {t n fuel : Nat} {now : Int}
  {kind : DelayedKind} {event : DelayedEvent} {rest : List DelayedEvent}

/-- The queue `partition_delayed_events` -/
structure Timers (p : ArincPartition) (q : DelayedEventQueue (Nat × DelayedKind) P) : Prop where
  holds : q.Holds (p.delayedEvents.map DelayedEvent.field)
  timepoint : ∀ e ∈ p.delayedEvents, (q.events (DelayedEvent.field e)).timepoint = e.timepoint

theorem map_field_remove : (p.delayedEventRemove t kind).delayedEvents.map DelayedEvent.field =
    (p.delayedEvents.map DelayedEvent.field).filter (· ≠ (t, kind)) := by
  rw [delayedEventRemove, List.filter_map]
  congr 1
  apply List.filter_congr
  intro e _
  simp [DelayedEvent.field]

theorem Timers.remove (h : p.Timers q) (t : Nat) (kind : DelayedKind) :
    (p.delayedEventRemove t kind).Timers (q.delayedEventRemove (t, kind)) := by
  constructor
  · rw [map_field_remove]
    exact h.holds.remove _
  · intro e he
    have hdata := DelayedEventQueue.data_remove (q := q) (t, kind) (DelayedEvent.field e)
    exact (congrArg Prod.fst hdata).trans (h.timepoint e (List.mem_filter.mp he).1)

theorem Timers.add (h : p.Timers q) (t : Nat) (kind : DelayedKind) (time : Int)
    (handlerId : UInt16) (processEvent : P) (hfuel : p.delayedEvents.length < fuel) :
    ∃ r, q.delayedEventAdd fuel (t, kind) time handlerId processEvent = some r ∧
      (p.delayedEventAdd t kind time).Timers r := by
  let timepoint : Nat × DelayedKind → Int := fun x =>
    if x = (t, kind) then time else (q.events x).timepoint
  have hlater : ∀ x ∈ p.delayedEvents.map DelayedEvent.field, x ≠ (t, kind) →
      (timepoint (t, kind) < timepoint x ↔ (q.events x).timepoint > time) := by
    intro x _ hne
    simp [timepoint, hne]
  obtain ⟨r, hadd, hholds, hself, hother⟩ := h.holds.add handlerId processEvent
    (fun a b => timepoint a < timepoint b) hlater ((List.length_map _).trans_lt hfuel)
  have hkept : ∀ e ∈ (p.delayedEventRemove t kind).delayedEvents,
      DelayedEvent.field e ≠ (t, kind) ∧ (q.events (DelayedEvent.field e)).timepoint = e.timepoint := by
    intro e he
    obtain ⟨he, hne⟩ := List.mem_filter.mp he
    refine ⟨fun hfield => of_decide_eq_true hne ?_, h.timepoint e he⟩
    exact Prod.mk.inj hfield
  have hnew : timepoint (DelayedEvent.field ⟨t, kind, time⟩) = time := if_pos rfl
  have hold : ∀ e ∈ (p.delayedEventRemove t kind).delayedEvents,
      timepoint (DelayedEvent.field e) = e.timepoint := by
    intro e he
    obtain ⟨hne, htime⟩ := hkept e he
    exact (if_neg hne).trans htime
  refine ⟨r, hadd, ?_, ?_⟩
  · rw [delayedEventAdd, insertByTime]
    have hmap := List.map_orderedInsert (r := fun event other : DelayedEvent =>
      event.timepoint < other.timepoint) (s := fun a b => timepoint a < timepoint b)
      DelayedEvent.field (p.delayedEventRemove t kind).delayedEvents ⟨t, kind, time⟩
    rw [hmap, map_field_remove]
    · exact hholds
    · intro e he
      rw [hnew, hold e he]
    · intro e he
      rw [hnew, hold e he]
  · intro e he
    rcases (List.mem_orderedInsert _).mp he with rfl | he
    · exact congrArg Prod.fst hself
    · obtain ⟨hne, htime⟩ := hkept e he
      exact (congrArg Prod.fst (hother _ hne)).trans htime

theorem Timers.pop (h : p.Timers q) (hp : p.delayedEvents = event :: rest) :
    q.firstEvent = some event.field ∧ (q.events event.field).timepoint = event.timepoint ∧
      { p with delayedEvents := rest }.Timers (((q.setNext none
        (q.events event.field).nextEvent).backLink (q.events event.field).nextEvent none).setPprev
          event.field none) := by
  have hholds : q.Holds ([] ++ event.field :: rest.map DelayedEvent.field) := by
    have hq := h.holds
    rw [hp] at hq
    exact hq
  refine ⟨hholds.first, h.timepoint event (by simp [hp]), ?_, fun e he => ?_⟩
  · rw [hholds.next]
    exact hholds.unlink
  · have hdata := DelayedEventQueue.data_unlink (q := q) none (q.events event.field).nextEvent
      event.field (DelayedEvent.field e)
    have he : e ∈ p.delayedEvents := hp ▸ List.mem_cons_of_mem event he
    exact (congrArg Prod.fst hdata).trans (h.timepoint e he)

theorem Timers.of_eq (h : p.Timers q) (he : p'.delayedEvents = p.delayedEvents) : p'.Timers q :=
  ⟨he ▸ h.holds, he ▸ h.timepoint⟩

/-- The event that is processed is not in the queue any more, so that there is nothing left to
cancel. -/
theorem processEvent_delayedEvents (h : ¬ p.DelayedEventActive event.thread event.kind) :
    Sat (fun _ => True) (fun q => q.delayedEvents = p.delayedEvents) (processEvent hm p event) := by
  unfold processEvent
  split
  · apply Sat.bind_of_forall
    intro processed
    exact Sat.ite (fun _ => rfl) fun _ => Sat.ite (fun _ => trivial) fun _ =>
      Sat.ite (fun _ => rfl) fun _ => rfl
  · rename_i hkind
    split
    · refine Sat.ite (fun _ => Sat.of_forall fun q hq => ?_) fun _ => trivial
      rw [setEligibleUnlessSuspended_delayedEvents hq, cancelWait_delayedEvents]
      refine List.filter_eq_self.mpr fun e he => decide_eq_true fun hsame => h ⟨e, he, ?_⟩
      exact ⟨hsame.1, hsame.2.trans hkind.symm⟩
    · refine Sat.ite (fun _ => Sat.of_forall fun q hq => ?_) fun _ => trivial
      unfold threadSetEligible at hq
      split_ifs at hq
      obtain rfl := Except.ok.inj hq
      exact invalidateIfFirst_delayedEvents

/-- The partition processes what the check of the queue fires, and in this order. -/
theorem Timers.check (h : p.Timers q) (hn : p.delayedEvents.length ≤ n) (hfuel : n < fuel)
    (hcheck : delayedEventQueueCheck hm now n p = .ok p')
    (fired : List (Firing (Nat × DelayedKind) P)) :
    ∃ r new, q.delayedEventQueueCheck (fun _ _ _ => []) now fuel fired = some (r, fired ++ new) ∧
      p'.Timers r ∧ p.delayedEvents.map DelayedEvent.field =
        new.map Firing.event ++ p'.delayedEvents.map DelayedEvent.field := by
  induction fuel generalizing p q n fired with
  | zero => omega
  | succ fuel ih =>
    have hidle : p' = p → q.delayedEventQueueCheck (fun _ _ _ => []) now (fuel + 1) fired =
        some (q, fired) → ∃ r new, q.delayedEventQueueCheck (fun _ _ _ => []) now (fuel + 1) fired =
          some (r, fired ++ new) ∧ p'.Timers r ∧ p.delayedEvents.map DelayedEvent.field =
            new.map Firing.event ++ p'.delayedEvents.map DelayedEvent.field := by
      rintro rfl hq
      exact ⟨q, [], by rw [hq, List.append_nil], h, rfl⟩
    cases hp : p.delayedEvents with
    | nil =>
      have hfirst : q.firstEvent = none := by
        rw [h.holds.first, hp]
        rfl
      have hstays : delayedEventQueueCheck hm now n p = .ok p := by
        cases n with
        | zero => rfl
        | succ n => rw [delayedEventQueueCheck, hp]
      rw [← hp]
      refine hidle (Except.ok.inj (hcheck.symm.trans hstays)) ?_
      rw [DelayedEventQueue.delayedEventQueueCheck, hfirst]
    | cons event rest =>
      obtain ⟨n, rfl⟩ : ∃ m, n = m + 1 := by
        rw [hp, List.length_cons] at hn
        exact ⟨n - 1, by omega⟩
      obtain ⟨hfirst, htime, hpop⟩ := h.pop hp
      rw [delayedEventQueueCheck, hp] at hcheck
      dsimp only at hcheck
      by_cases hdue : now < event.timepoint
      · rw [if_pos hdue] at hcheck
        rw [← hp]
        refine hidle (Except.ok.inj hcheck).symm ?_
        rw [DelayedEventQueue.delayedEventQueueCheck, hfirst]
        exact if_pos (htime.symm ▸ hdue)
      · rw [if_neg hdue] at hcheck
        have hinactive : ¬ { p with delayedEvents := rest }.DelayedEventActive event.thread event.kind := by
          rintro ⟨e, he, hthread, hkind⟩
          have hnodup := h.holds.nodup
          rw [hp, List.map_cons] at hnodup
          exact (List.nodup_cons.mp hnodup).1 (List.mem_map.mpr ⟨e, he, Prod.ext hthread hkind⟩)
        cases hprocessed : processEvent hm { p with delayedEvents := rest } event with
        | error e =>
          rw [hprocessed] at hcheck
          cases hcheck
        | ok m =>
          have hkept : m.delayedEvents = rest := (processEvent_delayedEvents hinactive).of_ok hprocessed
          rw [hprocessed] at hcheck
          have hlength : m.delayedEvents.length ≤ n := by
            rw [hp, List.length_cons] at hn
            rw [hkept]
            omega
          let firing : Firing (Nat × DelayedKind) P :=
            ⟨event.field, (q.events event.field).handlerId, (q.events event.field).processEvent, []⟩
          obtain ⟨r, new, hr, htimers, horder⟩ :=
            ih (hpop.of_eq hkept) hlength (by omega) hcheck (fired ++ [firing])
          rw [hkept] at horder
          refine ⟨r, firing :: new, ?_, htimers, ?_⟩
          · rw [DelayedEventQueue.delayedEventQueueCheck, hfirst]
            dsimp only
            rw [if_neg (htime.symm ▸ hdue)]
            rw [List.append_assoc] at hr
            exact hr
          · rw [List.map_cons, horder]
            rfl

end ArincPartition

/-- A call that changes the timed events -/
inductive TimerCall where
  | add (t : Nat) (kind : DelayedKind) (time : Int)
  | remove (t : Nat) (kind : DelayedKind)
  | check (now : Int)

namespace ArincPartition

def timerCall (hm : PartitionHm) (p : ArincPartition) : TimerCall → Option ArincPartition
  | .add t kind time => some (p.delayedEventAdd t kind time)
  | .remove t kind => some (p.delayedEventRemove t kind)
  | .check now => (delayedEventQueueCheck hm now p.delayedEvents.length p).toOption

end ArincPartition

namespace DelayedEventQueue

variable {P : Type}

/-- What the kernel does to the queue in such a call. Each field has a handler of its own. -/
def timerCall (handler : DelayedKind → UInt16 × P) (fuel : Nat)
    (q : DelayedEventQueue (Nat × DelayedKind) P) :
    TimerCall → Option (DelayedEventQueue (Nat × DelayedKind) P)
  | .add t kind time => q.delayedEventAdd fuel (t, kind) time (handler kind).1 (handler kind).2
  | .remove t kind => some (q.delayedEventRemove (t, kind))
  | .check now => (q.delayedEventQueueCheck (fun _ _ _ => []) now fuel []).map Prod.fst

end DelayedEventQueue

namespace ArincPartition

variable {P : Type} {p p' : ArincPartition} {q : DelayedEventQueue (Nat × DelayedKind) P}
  {hm : PartitionHm} {fuel : Nat}

theorem Timers.call (h : p.Timers q) (handler : DelayedKind → UInt16 × P)
    (hfuel : p.delayedEvents.length < fuel) (call : TimerCall)
    (hcall : p.timerCall hm call = some p') :
    ∃ r, q.timerCall handler fuel call = some r ∧ p'.Timers r ∧
      p'.delayedEvents.length ≤ p.delayedEvents.length + 1 := by
  cases call with
  | add t kind time =>
    obtain rfl := Option.some.inj hcall
    obtain ⟨r, hr, htimers⟩ := h.add t kind time (handler kind).1 (handler kind).2 hfuel
    refine ⟨r, hr, htimers, ?_⟩
    rw [delayedEventAdd, insertByTime, List.orderedInsert_length]
    exact Nat.succ_le_succ (List.length_filter_le _ _)
  | remove t kind =>
    obtain rfl := Option.some.inj hcall
    exact ⟨_, rfl, h.remove t kind, (List.length_filter_le _ _).trans (Nat.le_succ _)⟩
  | check now =>
    have hok : delayedEventQueueCheck hm now p.delayedEvents.length p = .ok p' := by
      simp only [timerCall] at hcall
      cases hcheck : delayedEventQueueCheck hm now p.delayedEvents.length p with
      | error e =>
        rw [hcheck] at hcall
        cases hcall
      | ok m =>
        rw [hcheck] at hcall
        exact congrArg _ (Option.some.inj hcall)
    obtain ⟨r, new, hr, htimers, horder⟩ := h.check (Nat.le_refl _) hfuel hok []
    have hlength := congrArg List.length horder
    rw [List.length_append, List.length_map, List.length_map, List.length_map] at hlength
    refine ⟨r, ?_, htimers, by omega⟩
    simp only [DelayedEventQueue.timerCall, hr, Option.map_some]

theorem Timers.run (handler : DelayedKind → UInt16 × P) (h : p.Timers q)
    (calls : List TimerCall) (hfuel : p.delayedEvents.length + calls.length < fuel)
    (hrun : Run.exec (timerCall hm) p calls = some p') :
    ∃ r, Run.exec (DelayedEventQueue.timerCall handler fuel) q calls = some r ∧ p'.Timers r := by
  induction calls generalizing p q with
  | nil =>
    obtain rfl := Option.some.inj hrun
    exact ⟨q, rfl, h⟩
  | cons call calls ih =>
    rw [List.length_cons] at hfuel
    obtain ⟨m, hm', hrest⟩ := Run.exec_cons.mp hrun
    have hroom : p.delayedEvents.length < fuel := by omega
    obtain ⟨r, hr, htimers, hlength⟩ := h.call handler hroom call hm'
    have hfits : m.delayedEvents.length + calls.length < fuel := by omega
    obtain ⟨r', hr', htimers'⟩ := ih htimers hfits hrest
    exact ⟨r', Run.exec_cons.mpr ⟨r, hr, hr'⟩, htimers'⟩

/-- The timed events of a partition are the contents of its queue after every sequence of calls, as
long as the partition does not fail. -/
theorem partition_timers (handler : DelayedKind → UInt16 × P)
    (events : Nat × DelayedKind → EventCell (Nat × DelayedKind) P) (hp : p.delayedEvents = [])
    (calls : List TimerCall) (hrun : Run.exec (timerCall hm) p calls = some p') :
    ∃ r, Run.exec (DelayedEventQueue.timerCall handler (calls.length + 1)) (.init events) calls =
        some r ∧
      r.firstEvent = (p'.delayedEvents.map DelayedEvent.field).head? ∧
      ∀ before e after, p'.delayedEvents = before ++ e :: after →
        (r.events e.field).timepoint = e.timepoint ∧
        (r.events e.field).nextEvent = (after.map DelayedEvent.field).head? := by
  have hinit : p.Timers (.init events) := by
    refine ⟨?_, fun e he => ?_⟩
    · rw [hp]
      exact (QueueHistory.start_agrees events).holds
    · rw [hp] at he
      cases he
  have hfuel : p.delayedEvents.length + calls.length < calls.length + 1 := by simp [hp]
  obtain ⟨r, hr, htimers⟩ := hinit.run handler calls hfuel hrun
  refine ⟨r, hr, htimers.holds.first, ?_⟩
  intro before e after hsplit
  have hholds := htimers.holds
  rw [hsplit, List.map_append, List.map_cons] at hholds
  exact ⟨htimers.timepoint e (by simp [hsplit]), hholds.next⟩

end ArincPartition

end Chpok
