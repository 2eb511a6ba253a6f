import Chpok.Kernel.DelayedEventLinks
import Chpok.Library.PriorityInsert
import Mathlib.Data.List.Basic

/-! What the queue of delayed events contains after any calls, in which order, and what a
check of the queue fires. -/

namespace Chpok

variable {E P : Type} {e : E} {l : List E} {fuel : Nat}

namespace DelayedEventQueue

open QueueHistory (Ended)

variable {q r : DelayedEventQueue E P} {time : Int} {fired : List (Firing E P)}
  {callback : List (Firing E P) → P → UInt16 → List E} {before : E → E → Prop}

theorem ended_cons {f : Firing E P} :
    Ended (f :: fired) e ↔ e = f.event ∨ e ∈ f.removed ∨ Ended fired e := by
  simp [Ended, or_assoc]

/-- What one check fires, out of the events of the list. -/
structure Fires (callback : List (Firing E P) → P → UInt16 → List E) (before : E → E → Prop)
    (q : DelayedEventQueue E P) (time : Int) (l : List E) (fired new : List (Firing E P)) : Prop where
  order : (new.map Firing.event).Sublist l
  data : ∀ f ∈ new, (f.handlerId, f.processEvent) = (q.events f.event).data.2
  removed : ∀ pre f post, new = pre ++ f :: post →
    f.removed = callback (fired ++ pre) f.processEvent f.handlerId
  due : ∀ e ∈ l, e ∈ new.map Firing.event ↔
    (q.events e).timepoint ≤ time ∧ ∀ f ∈ new, before f.event e → e ∉ f.removed

theorem fires_nil (h : ∀ e ∈ l, (q.events e).timepoint > time) :
    Fires callback before q time l fired [] := by
  refine ⟨List.nil_sublist l, nofun, by simp, fun e he => ?_⟩
  have := h e he
  simp
  omega

variable [DecidableEq E]

/-- The first event fires; the events that its callback removes do not. -/
theorem Fires.cons {x : E} {rest : List E} {f : Firing E P} {new : List (Firing E P)}
    (hasymm : ∀ a b, before a b → ¬ before b a) (hsorted : (x :: rest).Pairwise before)
    (hdue : (q.events x).timepoint ≤ time)
    (hevent : f.event = x) (hdata : (f.handlerId, f.processEvent) = (q.events x).data.2)
    (hremoved : f.removed = callback fired f.processEvent f.handlerId)
    (hr : ∀ e, (r.events e).data = (q.events e).data)
    (h : Fires callback before r time (rest.filter (· ∉ f.removed)) (fired ++ [f]) new) :
    Fires callback before q time (x :: rest) fired (f :: new) := by
  obtain ⟨hx, -⟩ := List.pairwise_cons.mp hsorted
  have hlater : ∀ g ∈ new, before x g.event := by
    intro g hg
    have hmem := h.order.subset (List.mem_map_of_mem hg)
    exact hx _ (List.mem_filter.mp hmem).1
  constructor
  · rw [List.map_cons, hevent]
    exact (h.order.trans List.filter_sublist).cons_cons x
  · intro g hg
    rcases List.mem_cons.mp hg with rfl | hg
    · rw [hevent]
      exact hdata
    · rw [← hr]
      exact h.data g hg
  · intro pre g post hsplit
    cases pre with
    | nil =>
      obtain ⟨rfl, -⟩ := List.cons.inj hsplit
      rw [List.append_nil]
      exact hremoved
    | cons g' pre =>
      obtain ⟨rfl, htail⟩ := List.cons.inj hsplit
      have hrest := h.removed pre g post htail
      rw [List.append_assoc] at hrest
      exact hrest
  · intro e he
    by_cases hex : e = x
    · subst hex
      refine ⟨fun _ => ⟨hdue, fun g hg hbefore => ?_⟩, fun _ => by simp [hevent]⟩
      rcases List.mem_cons.mp hg with rfl | hg
      · rw [hevent] at hbefore
        exact absurd hbefore (hasymm _ _ hbefore)
      · exact absurd hbefore (hasymm _ _ (hlater g hg))
    · have he : e ∈ rest := (List.mem_cons.mp he).resolve_left hex
      have htime : (r.events e).timepoint = (q.events e).timepoint := congrArg Prod.fst (hr e)
      by_cases hgone : e ∈ f.removed
      · constructor
        · intro hfired
          have hmem : e ∈ new.map Firing.event := by
            rw [List.map_cons, hevent] at hfired
            exact (List.mem_cons.mp hfired).resolve_left hex
          have hkept := (List.mem_filter.mp (h.order.subset hmem)).2
          simp [hgone] at hkept
        · rintro ⟨-, hnot⟩
          exact absurd hgone (hnot f (by simp) (hevent ▸ hx e he))
      · have hdue := h.due e (List.mem_filter.mpr ⟨he, decide_eq_true hgone⟩)
        rw [htime] at hdue
        rw [List.map_cons, hevent, List.mem_cons, or_iff_right hex, hdue, List.forall_mem_cons]
        exact and_congr_right fun _ => (and_iff_right fun _ => hgone).symm

/-- A check of the queue ends. -/
theorem Holds.check (callback : List (Firing E P) → P → UInt16 → List E) (time : Int)
    (fired : List (Firing E P)) (h : q.Holds l) (hsorted : l.Pairwise before)
    (hasymm : ∀ a b, before a b → ¬ before b a)
    (htime : ∀ a b, before a b → (q.events a).timepoint ≤ (q.events b).timepoint)
    (hfuel : l.length < fuel) :
    ∃ r new, q.delayedEventQueueCheck callback time fuel fired = some (r, fired ++ new) ∧
      r.Holds (l.filter fun e => ¬ Ended new e) ∧
      (∀ e, (r.events e).data = (q.events e).data) ∧
      Fires callback before q time l fired new := by
  induction fuel generalizing q l fired with
  | zero => exact absurd hfuel (Nat.not_lt_zero _)
  | succ fuel ih =>
    cases l with
    | nil =>
      refine ⟨q, [], ?_, h, fun _ => rfl, fires_nil nofun⟩
      rw [delayedEventQueueCheck, h.first]
      simp
    | cons x rest =>
      have hfirst : q.Holds ([] ++ x :: rest) := h
      have hnext : (q.events x).nextEvent = rest.head? := hfirst.next
      obtain ⟨hx, hrest⟩ := List.pairwise_cons.mp hsorted
      rw [delayedEventQueueCheck, h.first, List.head?_cons]
      dsimp only
      by_cases hlate : (q.events x).timepoint > time
      · have hall : ∀ e ∈ x :: rest, (q.events e).timepoint > time := by
          intro e he
          rcases List.mem_cons.mp he with rfl | he
          · exact hlate
          · exact lt_of_lt_of_le hlate (htime x e (hx e he))
        rw [if_pos hlate]
        exact ⟨q, [], by simp, by simpa [Ended] using h, fun _ => rfl, fires_nil hall⟩
      · rw [if_neg hlate, hnext]
        set f : Firing E P := ⟨x, (q.events x).handlerId, (q.events x).processEvent,
          callback fired (q.events x).processEvent (q.events x).handlerId⟩ with hf
        have hunlinked := hfirst.unlink
        rw [List.getLast?_nil, List.nil_append] at hunlinked
        have hremoved := hunlinked.removes f.removed
        have hdata : ∀ e, ((f.removed.foldl delayedEventRemove (((q.setNext none
            rest.head?).backLink rest.head? none).setPprev x none)).events e).data =
            (q.events e).data := by
          intro e
          rw [data_removes, data_unlink]
        obtain ⟨r, new, hcheck, hr, hrdata, hfires⟩ := ih (fired ++ [f]) hremoved
          (hrest.sublist List.filter_sublist)
          (fun a b hab => by
            have ha := congrArg Prod.fst (hdata a)
            have hb := congrArg Prod.fst (hdata b)
            exact ha.trans_le ((htime a b hab).trans_eq hb.symm))
          (Nat.lt_of_le_of_lt (List.length_filter_le ..) (Nat.lt_of_succ_lt_succ hfuel))
        refine ⟨r, f :: new, ?_, ?_, fun e => (hrdata e).trans (hdata e), ?_⟩
        · rw [List.append_cons fired f new]
          exact hcheck
        · have hfilter : (rest.filter (· ∉ f.removed)).filter (fun e => ¬ Ended new e) =
              (x :: rest).filter fun e => ¬ Ended (f :: new) e := by
            have hnot := (List.nodup_cons.mp h.nodup).1
            have hfirst : ¬ decide (¬ Ended (f :: new) x) = true := by
              rw [decide_eq_true_iff, not_not, ended_cons]
              exact Or.inl rfl
            rw [List.filter_filter,
              List.filter_cons_of_neg (p := fun e => decide (¬ Ended (f :: new) e)) hfirst]
            apply List.filter_congr
            intro e he
            have hne : e ≠ x := ne_of_mem_of_not_mem he hnot
            simp [ended_cons, hf, hne, Bool.and_comm]
          rw [← hfilter]
          exact hr
        · exact hfires.cons hasymm hsorted (not_lt.mp hlate) rfl rfl rfl hdata

end DelayedEventQueue

namespace QueueHistory

open DelayedEventQueue

variable {s t : QueueHistory E P} {a b : E} {calls : List (QueueCall E P)}

/-- In the order of the timepoints, ties in the order in which they were added -/
def Before (s : QueueHistory E P) (a b : E) : Prop :=
  ∃ x y, s.latest a = some x ∧ s.latest b = some y ∧
    (x.timepoint < y.timepoint ∨ x.timepoint = y.timepoint ∧ x.stamp < y.stamp)

/-- The queue holds what was added and neither removed nor fired, in that order. -/
structure Agrees (s : QueueHistory E P) (l : List E) : Prop where
  holds : s.queue.Holds l
  mem : ∀ e, e ∈ l ↔ (s.latest e).isSome
  order : l.Pairwise s.Before
  data : ∀ e x, s.latest e = some x →
    (s.queue.events e).data = (x.timepoint, x.handlerId, x.processEvent)
  stamps : ∀ e x, s.latest e = some x → x.stamp < s.adds
  length : l.length ≤ s.adds

theorem before_asymm (a b : E) (h : s.Before a b) : ¬ s.Before b a := by
  rintro ⟨y, x, hy, hx, hyx⟩
  obtain ⟨x', y', hx', hy', hxy⟩ := h
  obtain rfl : x = x' := Option.some.inj (hx.symm.trans hx')
  obtain rfl : y = y' := Option.some.inj (hy.symm.trans hy')
  omega

theorem before_congr (ha : t.latest a = s.latest a) (hb : t.latest b = s.latest b)
    (h : s.Before a b) : t.Before a b := by
  obtain ⟨x, y, hx, hy, hxy⟩ := h
  exact ⟨x, y, ha.trans hx, hb.trans hy, hxy⟩

theorem before_trans {c : E} (hab : s.Before a b) (hbc : s.Before b c) : s.Before a c := by
  obtain ⟨x, y, hx, hy, hxy⟩ := hab
  obtain ⟨y', z, hy', hz, hyz⟩ := hbc
  obtain rfl : y = y' := Option.some.inj (hy.symm.trans hy')
  exact ⟨x, z, hx, hz, by omega⟩

theorem start_agrees (events : E → EventCell E P) : (start events).Agrees [] := by
  refine ⟨⟨⟨none, List.nodup_nil, rfl, rfl⟩, ?_⟩, ?_, List.Pairwise.nil, nofun, nofun, ?_⟩
  · intro e
    simp [start, DelayedEventQueue.init]
  · intro e
    simp [start]
  · exact Nat.le_refl _

theorem Agrees.timepoint (h : s.Agrees l) {x : Added P} (hx : s.latest a = some x) :
    (s.queue.events a).timepoint = x.timepoint := congrArg Prod.fst (h.data a x hx)

theorem Agrees.timepoint_le (h : s.Agrees l) (hab : s.Before a b) :
    (s.queue.events a).timepoint ≤ (s.queue.events b).timepoint := by
  obtain ⟨x, y, hx, hy, hxy⟩ := hab
  rw [h.timepoint hx, h.timepoint hy]
  omega

/-- The time of the check is that of the first event, ... -/
theorem Agrees.checkTime_le (h : s.Agrees l) {x : Added P} (hx : s.latest a = some x) :
    s.queue.getCheckTime ≤ x.timepoint := by
  have ha : a ∈ l := (h.mem a).mpr (by simp [hx])
  rw [getCheckTime, h.holds.first, ← h.timepoint hx]
  cases l with
  | nil => cases ha
  | cons first rest =>
    rcases List.mem_cons.mp ha with rfl | ha
    · exact Int.le_refl _
    · exact h.timepoint_le ((List.pairwise_cons.mp h.order).1 a ha)

/-- ... which is in the queue. -/
theorem Agrees.checkTime (h : s.Agrees l) : (l = [] ∧ s.queue.getCheckTime = 0) ∨
    ∃ a x, s.latest a = some x ∧ s.queue.getCheckTime = x.timepoint := by
  rw [getCheckTime, h.holds.first]
  cases l with
  | nil => exact Or.inl ⟨rfl, rfl⟩
  | cons first rest =>
    obtain ⟨x, hx⟩ := Option.isSome_iff_exists.mp ((h.mem first).mp (by simp))
    exact Or.inr ⟨first, x, hx, h.timepoint hx⟩

theorem Agrees.filter (h : s.Agrees l) {keep : E → Bool}
    (hholds : t.queue.Holds (l.filter keep))
    (hlatest : ∀ e, t.latest e = if keep e then s.latest e else none)
    (hdata : ∀ e, (t.queue.events e).data = (s.queue.events e).data) (hadds : t.adds = s.adds) :
    t.Agrees (l.filter keep) := by
  have hsome : ∀ e x, t.latest e = some x → s.latest e = some x := by
    intro e x hx
    rw [hlatest] at hx
    split_ifs at hx
    exact hx
  refine ⟨hholds, fun e => ?_, ?_, fun e x hx => ?_, fun e x hx => ?_, ?_⟩
  · rw [List.mem_filter, h.mem, hlatest]
    split_ifs with hkeep <;> simp [hkeep]
  · apply (h.order.sublist List.filter_sublist).imp_of_mem
    intro a b ha hb hab
    apply before_congr _ _ hab
    · rw [hlatest, if_pos (List.mem_filter.mp ha).2]
    · rw [hlatest, if_pos (List.mem_filter.mp hb).2]
  · rw [hdata]
    exact h.data e x (hsome e x hx)
  · rw [hadds]
    exact h.stamps e x (hsome e x hx)
  · rw [hadds]
    exact Nat.le_trans (List.length_filter_le ..) h.length

variable [DecidableEq E]

theorem Agrees.remove (h : s.Agrees l) (fuel : Nat) (e : E) :
    ∃ t, s.step fuel (.remove e) = some t ∧ t.Agrees (l.filter (· ≠ e)) ∧ t.adds = s.adds := by
  refine ⟨_, rfl, h.filter (h.holds.remove e) (fun x => ?_) (fun x => data_remove e x) rfl, rfl⟩
  by_cases hx : x = e
  · subst hx
    simp
  · simp [hx]

theorem Agrees.add (h : s.Agrees l) (hfuel : s.adds < fuel) (c : E) (timepoint : Int)
    (handlerId : UInt16) (processEvent : P) :
    ∃ t l', s.step fuel (.add c timepoint handlerId processEvent) = some t ∧ t.Agrees l' ∧
      t.adds = s.adds + 1 := by
  let time : E → Int := fun x => if x = c then timepoint else (s.queue.events x).timepoint
  let goesBefore : E → E → Prop := fun x y => time x < time y
  have hlater : ∀ x ∈ l, x ≠ c →
      (goesBefore c x ↔ (s.queue.events x).timepoint > timepoint) := by
    intro x _ hne
    simp [goesBefore, time, hne]
  obtain ⟨r, hadd, hholds, hdata, hother⟩ := h.holds.add handlerId processEvent goesBefore hlater
    (Nat.lt_of_le_of_lt h.length hfuel)
  set t : QueueHistory E P := { s with
    queue := r
    latest := Function.update s.latest c (some ⟨timepoint, s.adds, handlerId, processEvent⟩)
    adds := s.adds + 1 } with ht
  have hc : t.latest c = some ⟨timepoint, s.adds, handlerId, processEvent⟩ := by simp [ht]
  have hne : ∀ x, x ≠ c → t.latest x = s.latest x := by
    intro x hx
    simp [ht, hx]
  refine ⟨t, _, by rw [step, hadd]; rfl, ⟨hholds, fun x => ?_, ?_, fun x y hy => ?_, fun x y hy => ?_,
    ?_⟩, rfl⟩
  · rw [List.mem_orderedInsert, List.mem_filter, h.mem]
    by_cases hx : x = c
    · subst hx
      simp [hc]
    · simp [hne x hx, hx]
  · have hqueued : ∀ x ∈ l.filter (· ≠ c), x ≠ c ∧ time x = (s.queue.events x).timepoint ∧
        ∃ y, s.latest x = some y ∧ t.latest x = some y := by
      intro x hx
      obtain ⟨hx, hxc⟩ := List.mem_filter.mp hx
      have hxc : x ≠ c := of_decide_eq_true hxc
      obtain ⟨y, hy⟩ := Option.isSome_iff_exists.mp ((h.mem x).mp hx)
      exact ⟨hxc, if_neg hxc, y, hy, (hne x hxc).trans hy⟩
    have htime : time c = timepoint := if_pos rfl
    apply PriorityInsert.pairwise
    · apply (h.order.sublist List.filter_sublist).imp_of_mem
      intro a b ha hb hab
      exact before_congr (hne a (hqueued a ha).1) (hne b (hqueued b hb).1) hab
    · intro b hb hcb
      obtain ⟨hbc, hbtime, y, hy, hy'⟩ := hqueued b hb
      have hlt : time c < time b := hcb
      rw [htime, hbtime, h.timepoint hy] at hlt
      exact ⟨_, y, hc, hy', Or.inl hlt⟩
    · intro b hb hcb
      obtain ⟨hbc, hbtime, y, hy, hy'⟩ := hqueued b hb
      have hle : time b ≤ time c := not_lt.mp hcb
      rw [htime, hbtime, h.timepoint hy] at hle
      refine ⟨y, _, hy', hc, ?_⟩
      rcases lt_or_eq_of_le hle with hlt | heq
      · exact Or.inl hlt
      · exact Or.inr ⟨heq, h.stamps b y hy⟩
    · exact fun b _ x _ => before_trans
  · by_cases hx : x = c
    · subst hx
      obtain rfl := Option.some.inj (hc.symm.trans hy)
      exact hdata
    · rw [hne x hx] at hy
      exact (hother x hx).trans (h.data x y hy)
  · by_cases hx : x = c
    · subst hx
      obtain rfl := Option.some.inj (hc.symm.trans hy)
      exact Nat.lt_succ_self _
    · rw [hne x hx] at hy
      exact Nat.lt_succ_of_lt (h.stamps x y hy)
  · rw [List.orderedInsert_length]
    exact Nat.succ_le_succ (Nat.le_trans (List.length_filter_le ..) h.length)

theorem Agrees.check (h : s.Agrees l) (hfuel : s.adds < fuel)
    (callback : List (Firing E P) → P → UInt16 → List E) (time : Int) :
    ∃ t new, s.step fuel (.check callback time) = some t ∧
      t.Agrees (l.filter fun e => ¬ Ended new e) ∧ t.adds = s.adds ∧ t.fired = s.fired ++ new ∧
      Fires callback s.Before s.queue time l [] new := by
  obtain ⟨r, new, hcheck, hholds, hdata, hfires⟩ := h.holds.check callback time []
    h.order before_asymm (fun _ _ => h.timepoint_le)
    (Nat.lt_of_le_of_lt h.length hfuel)
  have hstep : s.step fuel (.check callback time) = some { s with
      queue := r
      latest := fun e => if Ended new e then none else s.latest e
      fired := s.fired ++ new } := by
    rw [QueueHistory.step, hcheck]
    rfl
  refine ⟨_, new, hstep, h.filter hholds (fun e => ?_) hdata rfl, rfl, rfl, hfires⟩
  by_cases he : Ended new e <;> simp [he]

theorem Agrees.step (h : s.Agrees l) (hfuel : s.adds < fuel) (call : QueueCall E P) :
    ∃ t l', s.step fuel call = some t ∧ t.Agrees l' ∧ t.adds ≤ s.adds + 1 := by
  cases call with
  | add event timepoint handlerId processEvent =>
    obtain ⟨t, l', ht, hl, hadds⟩ := h.add hfuel event timepoint handlerId processEvent
    exact ⟨t, l', ht, hl, hadds.le⟩
  | remove event =>
    obtain ⟨t, ht, hl, hadds⟩ := h.remove fuel event
    exact ⟨t, _, ht, hl, hadds.trans_le (Nat.le_succ _)⟩
  | check callback time =>
    obtain ⟨t, new, ht, hl, hadds, -, -⟩ := h.check hfuel callback time
    exact ⟨t, _, ht, hl, hadds.trans_le (Nat.le_succ _)⟩

theorem Agrees.run (h : s.Agrees l) (hfuel : s.adds + calls.length < fuel) :
    ∃ t l', Run.exec (QueueHistory.step fuel) s calls = some t ∧ t.Agrees l' ∧
      t.adds ≤ s.adds + calls.length := by
  induction calls generalizing s l with
  | nil => exact ⟨s, l, rfl, h, Nat.le_refl _⟩
  | cons call calls ih =>
    rw [List.length_cons] at hfuel
    have hlt : s.adds < fuel := by omega
    obtain ⟨m, l', hm, hl', hadds⟩ := h.step hlt call
    obtain ⟨t, l'', ht, hl'', hle⟩ := ih hl' (by omega)
    refine ⟨t, l'', Run.exec_cons.mpr ⟨m, hm, ht⟩, hl'', ?_⟩
    rw [List.length_cons]
    omega

/-- After every sequence of calls the queue holds, linked both ways and sorted, the events that have
been added and neither removed nor fired; a check fires those that are due, and the check time is
that of the first one. -/
theorem delayed_event_queue (events : E → EventCell E P) (hfuel : calls.length < fuel) :
    ∃ s l, Run.exec (QueueHistory.step fuel) (start events) calls = some s ∧
      l.Nodup ∧ s.queue.firstEvent = l.head? ∧
      (∀ before e after, l = before ++ e :: after →
        (s.queue.events e).nextEvent = after.head? ∧
        (s.queue.events e).pprevEvent = some before.getLast?) ∧
      (∀ e, e ∉ l → (s.queue.events e).pprevEvent = none) ∧
      (∀ e, e ∈ l ↔ (s.latest e).isSome) ∧
      (∀ e x, s.latest e = some x →
        (s.queue.events e).data = (x.timepoint, x.handlerId, x.processEvent)) ∧
      l.Pairwise s.Before ∧
      (∀ callback time, ∃ t new, s.step fuel (.check callback time) = some t ∧
        t.fired = s.fired ++ new ∧ Fires callback s.Before s.queue time l [] new) ∧
      ((l = [] ∧ s.queue.getCheckTime = 0) ∨
        ∃ a x, s.latest a = some x ∧ s.queue.getCheckTime = x.timepoint ∧
          ∀ b y, s.latest b = some y → x.timepoint ≤ y.timepoint) := by
  have hstart : (start events).adds + calls.length < fuel := by
    change 0 + calls.length < fuel
    omega
  obtain ⟨s, l, hrun, hs, hadds⟩ := (start_agrees events).run hstart
  refine ⟨s, l, hrun, hs.holds.nodup, hs.holds.first, ?_, fun e => hs.holds.pprev_none, hs.mem,
    hs.data, hs.order, fun callback time => ?_, ?_⟩
  · rintro before e after rfl
    exact ⟨hs.holds.next, hs.holds.pprev⟩
  · obtain ⟨t, new, ht, -, -, hfired, hfires⟩ :=
      hs.check (Nat.lt_of_le_of_lt hadds hstart) callback time
    exact ⟨t, new, ht, hfired, hfires⟩
  · rcases hs.checkTime with hempty | ⟨a, x, hx, htime⟩
    · exact Or.inl hempty
    · exact Or.inr ⟨a, x, hx, htime, fun b y hy => htime ▸ hs.checkTime_le hy⟩

/-- An event is put off, and the first one that fires removes another one. -/
def putOff : List (QueueCall Nat Unit) :=
  [.add 0 5 0 (), .add 1 7 1 (), .add 2 7 2 (), .add 0 9 0 (),
    .check (fun _ _ handlerId => if handlerId = 1 then [2] else []) 8]

theorem delayed_event_queue_putOff : ∃ (s : QueueHistory Nat Unit) (l : List Nat),
    Run.exec (QueueHistory.step 6) (start fun _ => ⟨none, none, 0, 0, ()⟩) putOff = some s ∧
      s.queue.firstEvent = l.head? ∧ (∀ e, e ∈ l ↔ (s.latest e).isSome) ∧
      s.queue.firstEvent = some 0 := by
  have hfuel : putOff.length < 6 := by decide
  obtain ⟨s, l, hrun, -, hfirst, -, -, hmem, -⟩ :=
    delayed_event_queue (fun _ => ⟨none, none, 0, 0, ()⟩) hfuel
  have hview : (Run.exec (QueueHistory.step 6) (start fun _ => ⟨none, none, 0, 0, ()⟩)
      putOff).map (·.queue.firstEvent) = some (some 0) := by decide
  rw [hrun] at hview
  exact ⟨s, l, hrun, hfirst, hmem, Option.some.inj hview⟩

end QueueHistory

end Chpok
