import Chpok.Kernel.DelayedEvent
import Chpok.Library.LinkedList
import Mathlib.Data.List.Sort

/-! The links of the queue of delayed events. Adding, removing and draining are the
operations of a list that is linked in both directions; its back links from the anchor,
which the queue does not store, are kept beside it. -/

namespace Chpok

/-- What an event is added with. -/
def EventCell.data {E P : Type} (cell : EventCell E P) : Int × UInt16 × P :=
  (cell.timepoint, cell.handlerId, cell.processEvent)

namespace DelayedEventQueue

variable {E P : Type} {q r : DelayedEventQueue E P} {e x c : E} {l xs ys : List E}
  {place last : Option E} {timepoint : Int} {fuel : Nat}

/-- The place of the link that points to an event; `last` is the last one of the queue. -/
def prevOf (q : DelayedEventQueue E P) (last : Option E) : Option E → Option E
  | none => last
  | some e => (q.events e).pprevEvent.join

/-- The queue consists of the events of the list, in that order. -/
structure Holds (q : DelayedEventQueue E P) (l : List E) : Prop where
  linked : ∃ last, LinkedList.Linked q.nextOf (q.prevOf last) l
  queued : ∀ e, (q.events e).pprevEvent.isSome ↔ e ∈ l

theorem Holds.nodup (h : q.Holds l) : l.Nodup := by
  obtain ⟨last, hlinked⟩ := h.linked
  exact hlinked.nodup

theorem Holds.first (h : q.Holds l) : q.firstEvent = l.head? := by
  obtain ⟨last, hlinked⟩ := h.linked
  exact hlinked.first_eq

theorem Holds.next (h : q.Holds (xs ++ x :: ys)) : (q.events x).nextEvent = ys.head? := by
  obtain ⟨last, hlinked⟩ := h.linked
  exact hlinked.next_eq

theorem Holds.pprev (h : q.Holds (xs ++ x :: ys)) : (q.events x).pprevEvent = some xs.getLast? := by
  obtain ⟨last, hlinked⟩ := h.linked
  obtain ⟨p, hp⟩ := Option.isSome_iff_exists.mp ((h.queued x).mpr (by simp))
  have hprev : (q.events x).pprevEvent.join = xs.getLast? := hlinked.prev_eq
  rw [hp] at hprev
  rw [hp]
  exact congrArg some hprev

theorem Holds.pprev_none (h : q.Holds l) (hx : x ∉ l) : (q.events x).pprevEvent = none :=
  Option.not_isSome_iff_eq_none.mp fun hsome => hx ((h.queued x).mp hsome)

/-- The loop of `delayed_event_add` stops before the first event that is later. -/
theorem insertionPoint_spec (goesBefore : E → E → Prop) [DecidableRel goesBefore]
    (hlater : ∀ x ∈ ys, goesBefore c x ↔ (q.events x).timepoint > timepoint)
    (hpath : LinkedList.Path q.nextOf place ys none) (hfuel : ys.length < fuel) :
    ∃ pre post, ys = pre ++ post ∧ ys.orderedInsert goesBefore c = pre ++ c :: post ∧
      q.insertionPoint timepoint fuel place = some (pre.getLast?.or place) := by
  induction ys generalizing place fuel with
  | nil =>
    obtain ⟨fuel, rfl⟩ := Nat.exists_eq_succ_of_ne_zero (Nat.ne_zero_of_lt hfuel)
    have hlink : q.nextOf place = none := hpath
    exact ⟨[], [], rfl, rfl, by simp [insertionPoint, hlink]⟩
  | cons y ys ih =>
    obtain ⟨fuel, rfl⟩ := Nat.exists_eq_succ_of_ne_zero (Nat.ne_zero_of_lt hfuel)
    obtain ⟨hlink, hrest⟩ := hpath
    have hy := hlater y (by simp)
    rw [List.orderedInsert_cons, insertionPoint, hlink]
    dsimp only
    by_cases hstop : (q.events y).timepoint > timepoint
    · rw [if_pos hstop, if_pos (hy.mpr hstop)]
      exact ⟨[], y :: ys, rfl, rfl, rfl⟩
    · rw [if_neg hstop, if_neg (fun h => hstop (hy.mp h))]
      obtain ⟨pre, post, rfl, hinsert, hpoint⟩ := ih (fun x hx => hlater x (by simp [hx])) hrest
        (Nat.lt_of_succ_lt_succ hfuel)
      refine ⟨y :: pre, post, rfl, ?_, ?_⟩
      · rw [hinsert]
        rfl
      · rw [hpoint]
        cases hlast : pre.getLast? <;> simp [List.getLast?_cons, hlast]

section Update

variable [DecidableEq E]

@[simp] theorem updateEvent_self (f : EventCell E P → EventCell E P) :
    (q.updateEvent e f).events e = f (q.events e) := Function.update_self ..

theorem updateEvent_ne (hne : x ≠ e) (f : EventCell E P → EventCell E P) :
    (q.updateEvent e f).events x = q.events x := Function.update_of_ne hne ..

theorem nextOf_updateEvent (f : EventCell E P → EventCell E P) :
    (q.updateEvent e f).nextOf = Function.update q.nextOf (some e) (f (q.events e)).nextEvent := by
  funext p
  cases p with
  | none => rfl
  | some x =>
    by_cases hne : x = e
    · subst hne
      simp [nextOf]
    · simp [nextOf, hne, updateEvent_ne hne]

theorem prevOf_updateEvent (f : EventCell E P → EventCell E P) :
    (q.updateEvent e f).prevOf last =
      Function.update (q.prevOf last) (some e) (f (q.events e)).pprevEvent.join := by
  funext p
  cases p with
  | none => rfl
  | some x =>
    by_cases hne : x = e
    · subst hne
      simp [prevOf]
    · simp [prevOf, hne, updateEvent_ne hne]

theorem nextOf_setNext (place value : Option E) :
    (q.setNext place value).nextOf = Function.update q.nextOf place value := by
  cases place with
  | none =>
    funext p
    cases p <;> simp [setNext, nextOf]
  | some e => exact nextOf_updateEvent _

theorem prevOf_setNext (place value : Option E) :
    (q.setNext place value).prevOf last = q.prevOf last := by
  cases place with
  | none =>
    funext p
    cases p <;> rfl
  | some e =>
    rw [setNext, prevOf_updateEvent]
    exact Function.update_eq_self _ _

theorem nextOf_setPprev (v : Option (Option E)) : (q.setPprev e v).nextOf = q.nextOf :=
  (nextOf_updateEvent _).trans (Function.update_eq_self _ _)

theorem nextOf_backLink (next place : Option E) : (q.backLink next place).nextOf = q.nextOf := by
  cases next with
  | none => rfl
  | some n => exact nextOf_setPprev _

theorem prevOf_backLink (last next place : Option E) : ∃ last',
    (q.backLink next place).prevOf last' = Function.update (q.prevOf last) next place := by
  cases next with
  | none =>
    refine ⟨place, funext fun p => ?_⟩
    cases p <;> simp [backLink, prevOf]
  | some n =>
    refine ⟨last, ?_⟩
    rw [backLink, setPprev, prevOf_updateEvent]
    rfl

theorem pprev_setNext (place value : Option E) (e : E) :
    ((q.setNext place value).events e).pprevEvent = (q.events e).pprevEvent := by
  cases place with
  | none => rfl
  | some x =>
    by_cases hne : e = x
    · subst hne
      simp [setNext]
    · rw [setNext, updateEvent_ne hne]

theorem pprev_setPprev (v : Option (Option E)) (x : E) : ((q.setPprev e v).events x).pprevEvent =
    if x = e then v else (q.events x).pprevEvent := by
  by_cases hne : x = e
  · subst hne
    simp [setPprev]
  · rw [if_neg hne, setPprev, updateEvent_ne hne]

theorem pprev_backLink (next place : Option E) (e : E) :
    ((q.backLink next place).events e).pprevEvent =
      if next = some e then some place else (q.events e).pprevEvent := by
  cases next with
  | none => rfl
  | some n => simp [backLink, pprev_setPprev, eq_comm]

theorem data_setNext (place value : Option E) (e : E) :
    ((q.setNext place value).events e).data = (q.events e).data := by
  cases place with
  | none => rfl
  | some x =>
    by_cases hne : e = x
    · subst hne
      simp [setNext, EventCell.data]
    · rw [setNext, updateEvent_ne hne]

theorem data_setPprev (v : Option (Option E)) (x : E) :
    ((q.setPprev e v).events x).data = (q.events x).data := by
  by_cases hne : x = e
  · subst hne
    simp [setPprev, EventCell.data]
  · rw [setPprev, updateEvent_ne hne]

theorem data_backLink (next place : Option E) (e : E) :
    ((q.backLink next place).events e).data = (q.events e).data := by
  cases next with
  | none => rfl
  | some n => exact data_setPprev _ _

theorem data_unlink (place next : Option E) (e x : E) :
    ((((q.setNext place next).backLink next place).setPprev e none).events x).data =
      (q.events x).data := by
  rw [data_setPprev, data_backLink, data_setNext]

theorem data_remove (e x : E) : ((q.delayedEventRemove e).events x).data = (q.events x).data := by
  unfold delayedEventRemove
  split
  · rfl
  · exact data_unlink ..

theorem data_removes (es : List E) (x : E) :
    ((es.foldl delayedEventRemove q).events x).data = (q.events x).data := by
  induction es generalizing q with
  | nil => rfl
  | cons e es ih => rw [List.foldl_cons, ih, data_remove]

theorem Holds.unlink (h : q.Holds (xs ++ x :: ys)) :
    (((q.setNext xs.getLast? ys.head?).backLink ys.head? xs.getLast?).setPprev x none).Holds
      (xs ++ ys) := by
  obtain ⟨last, hlinked⟩ := h.linked
  have hnodup := List.nodup_cons.mp (List.nodup_middle.mp h.nodup)
  constructor
  · obtain ⟨last', hlast⟩ := prevOf_backLink (q := q.setNext xs.getLast? ys.head?) last
      ys.head? xs.getLast?
    refine ⟨last', ?_⟩
    have herase := hlinked.erase (Function.update q.nextOf xs.getLast? ys.head? (some x)) none
    rw [Function.update_eq_self] at herase
    rw [nextOf_setPprev, nextOf_backLink, nextOf_setNext, setPprev, prevOf_updateEvent, hlast,
      prevOf_setNext]
    exact herase
  · intro y
    rw [pprev_setPprev, pprev_backLink, pprev_setNext]
    by_cases hy : y = x
    · subst hy
      simpa using hnodup.1
    · have hqueued := h.queued y
      simp only [List.mem_append, List.mem_cons, hy, false_or] at hqueued
      rw [if_neg hy, List.mem_append]
      split_ifs with hhead
      · simp [List.mem_of_head? hhead]
      · exact hqueued

theorem Holds.remove (h : q.Holds l) (e : E) :
    (q.delayedEventRemove e).Holds (l.filter (· ≠ e)) := by
  by_cases he : e ∈ l
  · obtain ⟨xs, ys, rfl⟩ := List.append_of_mem he
    have hnodup := List.nodup_cons.mp (List.nodup_middle.mp h.nodup)
    have hfilter : (xs ++ e :: ys).filter (· ≠ e) = xs ++ ys := by
      have hrest : (xs ++ ys).filter (· ≠ e) = xs ++ ys :=
        List.filter_eq_self.mpr fun y hy => decide_eq_true (ne_of_mem_of_not_mem hy hnodup.1)
      rw [← hrest]
      simp
    rw [hfilter, delayedEventRemove, h.pprev, h.next]
    exact h.unlink
  · rw [delayedEventRemove, h.pprev_none he, List.filter_eq_self.mpr]
    · exact h
    · exact fun y hy => decide_eq_true (ne_of_mem_of_not_mem hy he)

theorem Holds.removes (h : q.Holds l) (es : List E) :
    (es.foldl delayedEventRemove q).Holds (l.filter (· ∉ es)) := by
  induction es generalizing q l with
  | nil => simpa using h
  | cons e es ih =>
    have hrest := ih (h.remove e)
    have hfilter : (l.filter (· ≠ e)).filter (· ∉ es) = l.filter (· ∉ e :: es) := by
      rw [List.filter_filter]
      congr 1
      funext y
      by_cases hy : y = e <;> simp [hy]
    rw [← hfilter]
    exact hrest

theorem Holds.link (h : q.Holds (xs ++ ys)) (hc : c ∉ xs ++ ys) :
    (((q.updateEvent c fun cell =>
      { cell with nextEvent := ys.head?, pprevEvent := some xs.getLast? }).setNext xs.getLast?
        (some c)).backLink ys.head? (some c)).Holds (xs ++ c :: ys) := by
  obtain ⟨last, hlinked⟩ := h.linked
  constructor
  · obtain ⟨last', hlast⟩ := prevOf_backLink (q := (q.updateEvent c fun cell =>
      { cell with nextEvent := ys.head?, pprevEvent := some xs.getLast? }).setNext xs.getLast?
        (some c)) last ys.head? (some c)
    refine ⟨last', ?_⟩
    rw [nextOf_backLink, nextOf_setNext, nextOf_updateEvent, hlast, prevOf_setNext,
      prevOf_updateEvent]
    exact hlinked.insert hc
  · intro y
    rw [pprev_backLink, pprev_setNext]
    have hqueued := h.queued y
    rw [List.mem_append] at hqueued
    by_cases hy : y = c
    · subst hy
      split_ifs <;> simp
    · rw [updateEvent_ne hy]
      simp only [List.mem_append, List.mem_cons, hy, false_or]
      split_ifs with hhead
      · simp [List.mem_of_head? hhead]
      · exact hqueued

/-- An event that is added goes before the later ones. -/
theorem Holds.add (h : q.Holds l) (handlerId : UInt16) (processEvent : P)
    (goesBefore : E → E → Prop) [DecidableRel goesBefore]
    (hlater : ∀ x ∈ l, x ≠ c → (goesBefore c x ↔ (q.events x).timepoint > timepoint))
    (hfuel : l.length < fuel) :
    ∃ r, q.delayedEventAdd fuel c timepoint handlerId processEvent = some r ∧
      r.Holds ((l.filter (· ≠ c)).orderedInsert goesBefore c) ∧
      (r.events c).data = (timepoint, handlerId, processEvent) ∧
      ∀ x, x ≠ c → (r.events x).data = (q.events x).data := by
  set m := (q.delayedEventRemove c).updateEvent c fun cell =>
    { cell with timepoint, handlerId, processEvent } with hm
  have hc : c ∉ l.filter (· ≠ c) := by simp
  have hholds : m.Holds (l.filter (· ≠ c)) := by
    obtain ⟨last, hlinked⟩ := (h.remove c).linked
    refine ⟨⟨last, ?_⟩, fun x => ?_⟩
    · rw [hm, nextOf_updateEvent, prevOf_updateEvent]
      convert hlinked
      · exact Function.update_eq_self _ _
      · exact Function.update_eq_self _ _
    · rw [← (h.remove c).queued x, hm]
      by_cases hx : x = c
      · subst hx
        simp
      · rw [updateEvent_ne hx]
  have hdata : ∀ x, x ≠ c → (m.events x).data = (q.events x).data := by
    intro x hx
    rw [hm, updateEvent_ne hx, data_remove]
  have hfound : ∀ x ∈ l.filter (· ≠ c), goesBefore c x ↔ (m.events x).timepoint > timepoint := by
    intro x hx
    obtain ⟨hx, hne⟩ := List.mem_filter.mp hx
    have hne : x ≠ c := of_decide_eq_true hne
    have htime : (m.events x).timepoint = (q.events x).timepoint := congrArg Prod.fst (hdata x hne)
    rw [htime]
    exact hlater x hx hne
  obtain ⟨last, hlinked⟩ := hholds.linked
  obtain ⟨pre, post, hsplit, hinsert, hpoint⟩ := insertionPoint_spec goesBefore hfound hlinked.next
    (Nat.lt_of_le_of_lt (List.length_filter_le ..) hfuel)
  rw [hsplit] at hholds hc
  have hnext : m.nextOf pre.getLast? = post.head? := by
    have hpath := hlinked.next
    rw [hsplit] at hpath
    cases hlast : pre.getLast? with
    | none =>
      obtain rfl : pre = [] := List.getLast?_eq_none_iff.mp hlast
      exact LinkedList.path_head hpath
    | some y =>
      obtain ⟨init, rfl⟩ := List.getLast?_eq_some_iff.mp hlast
      rw [List.append_assoc] at hpath
      exact LinkedList.path_succ hpath
  rw [Option.or_none] at hpoint
  refine ⟨_, ?_, hinsert ▸ hholds.link hc, ?_, fun x hx => ?_⟩
  · rw [delayedEventAdd, ← hm, hpoint, Option.map_some, hnext]
  · rw [data_backLink, data_setNext, updateEvent_self, hm, updateEvent_self]
    rfl
  · rw [data_backLink, data_setNext, updateEvent_ne hx, hdata x hx]

end Update

end DelayedEventQueue

end Chpok
