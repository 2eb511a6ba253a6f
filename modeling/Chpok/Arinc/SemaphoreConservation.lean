import Chpok.Arinc.Semaphore
import Chpok.Arinc.BlockedProcesses
import Chpok.Library.Run

/-! Conservation of the semaphore value. A signal either counts up or releases the first
process that waits; the value is positive only while nobody waits, unless a deletion has cut
waiting processes off the queue. -/

namespace Chpok

namespace SemaphoreSystem

variable {s t : SemaphoreSystem} {initial c : Nat}

/-- Waits that have returned `NO_ERROR`, or will since the process has been released. -/
def successfulWaits (s : SemaphoreSystem) : Nat := s.waits + (s.queue.released s.blocked).card

structure Conserved (s : SemaphoreSystem) (initial : Nat) : Prop where
  queued : ∃ l, s.queue.Queued (· ∈ s.blocked) l
  balance : s.semaphore.currentValue + s.successfulWaits = initial + s.signals
  bounded : s.semaphore.currentValue ≤ s.semaphore.maximumValue
  idle : 0 < s.semaphore.currentValue → ∀ u ∈ s.blocked, ¬ s.queue.Waits u

/-- A process whose wait is over may return without harm to the others. -/
def Clean (s : SemaphoreSystem) : SemaphoreInput → Prop
  | .resume t => s.queue.MayReturn t
  | _ => True

theorem Conserved.waitSemaphore {timeOut : Int} {start : WaitStart} (hs : s.Conserved initial)
    (h : s.step (.waitSemaphore c timeOut start) = some t) : t.Conserved initial := by
  obtain ⟨⟨l, hqueued⟩, hbalance, hbounded, hidle⟩ := hs
  simp only [step] at h
  split_ifs at h with hcalls
  have hne : ∀ u ∈ s.blocked, u ≠ c := fun u hu => ne_of_mem_of_not_mem hu hcalls.1
  obtain ⟨⟨sem, rc⟩, hr, rfl⟩ := Option.map_eq_some_iff.mp h
  simp only [Semaphore.waitSemaphore] at hr
  split_ifs at hr with hvalue hzero
  · obtain ⟨rfl, rfl⟩ := Prod.mk.inj (Option.some.inj hr)
    refine ⟨⟨l, hqueued⟩, ?_, Nat.le_trans (Nat.sub_le _ _) hbounded, fun _ => hidle hvalue⟩
    rw [successfulWaits] at hbalance
    change s.semaphore.currentValue - 1 + (s.waits + 1 + (s.queue.released s.blocked).card) =
      initial + s.signals
    omega
  · obtain ⟨rfl, rfl⟩ := Prod.mk.inj (Option.some.inj hr)
    exact ⟨⟨l, hqueued⟩, hbalance, hbounded, hidle⟩
  · obtain ⟨⟨q, rc'⟩, hq, he⟩ := Option.map_eq_some_iff.mp hr
    obtain ⟨rfl, rfl⟩ := Prod.mk.inj he
    by_cases hstart : start = .begins
    · subst hstart
      obtain ⟨q', l', hq', hqueued', hwaits, -, hbare⟩ :=
        hqueued.queueAndWait_begins hcalls.1 hcalls.2 s.semaphore.discipline
      obtain ⟨rfl, rfl⟩ := Prod.mk.inj (Option.some.inj (hq'.symm.trans hq))
      have hreleased : q'.released (insert c s.blocked) = s.queue.released s.blocked :=
        WaitQueue.released_insert hwaits fun u hu =>
          WaitQueue.released_of_bare (hbare u (hne u hu))
      refine ⟨⟨l', hqueued'.congr fun u => Finset.mem_insert⟩, ?_, hbounded,
        fun hpos => absurd hpos hvalue⟩
      rw [← hbalance, successfulWaits, successfulWaits, ← hreleased]
      rfl
    · obtain ⟨q', hq', hqueued', -, hbare⟩ :=
        hqueued.queueAndWait_refused hcalls.1 hstart s.semaphore.discipline
      obtain ⟨rfl, rfl⟩ := Prod.mk.inj (Option.some.inj (hq'.symm.trans hq))
      have hreleased : q'.released s.blocked = s.queue.released s.blocked :=
        WaitQueue.released_congr fun u hu => WaitQueue.released_of_bare (hbare u (hne u hu))
      refine ⟨⟨l, hqueued'⟩, ?_, hbounded, fun hpos => absurd hpos hvalue⟩
      rw [← hbalance, successfulWaits, successfulWaits, ← hreleased]
      rfl

/-- What a signal does: it releases the first process of the queue that waits, or counts. -/
theorem Conserved.signalSemaphore (hs : s.Conserved initial) (hcalls : s.Calls c) :
    ∃ t, s.step (.signalSemaphore c) = some t ∧ t.Conserved initial ∧
      ((∀ u ∈ s.blocked, ¬ s.queue.Waits u) ∨
        ∃ l x, s.queue.Linked l ∧ l.find? (s.queue.Waits ·) = some x ∧ x ∈ s.blocked ∧
          t.signals = s.signals + 1 ∧ t.semaphore.currentValue = s.semaphore.currentValue ∧
          t.blocked = s.blocked ∧ t.queue.Released x ∧
          ∀ u, u ≠ x → (t.queue.Waits u ↔ s.queue.Waits u)) := by
  obtain ⟨⟨l, hqueued⟩, hbalance, hbounded, hidle⟩ := hs
  rw [successfulWaits] at hbalance
  rcases hqueued.notifyOne with ⟨q, hq, hnone, hqueued', -, hbare⟩ |
    ⟨q, x, dead, rest, hq, rfl, hdead, hwaits, hfirst, hqueued', -, hself, hother⟩
  · have hnobody : ∀ u ∈ s.blocked, ¬ s.queue.Waits u :=
      fun u hu hw => hnone u (hqueued.waits u hu hw) hw
    have hnobody' : ∀ u ∈ s.blocked, ¬ q.Waits u := fun u hu hw =>
      hnobody u hu ((WaitQueue.waits_of_bare (hbare u)).mp hw)
    have hreleased : q.released s.blocked = s.queue.released s.blocked :=
      WaitQueue.released_congr fun u _ => WaitQueue.released_of_bare (hbare u)
    by_cases hmax : s.semaphore.currentValue = s.semaphore.maximumValue
    · refine ⟨{ s with semaphore := { s.semaphore with processQueue := q } }, ?_,
        ⟨⟨[], hqueued'⟩, ?_, hbounded, fun _ => hnobody'⟩, .inl hnobody⟩
      · rw [step, if_pos hcalls, Semaphore.signalSemaphore,
          show s.semaphore.processQueue = s.queue from rfl, hq]
        simp [hmax]
      · rw [← hbalance, ← hreleased]
        rfl
    · refine ⟨{ s with
          semaphore := { s.semaphore with
            processQueue := q, currentValue := s.semaphore.currentValue + 1 }
          signals := s.signals + 1 }, ?_,
        ⟨⟨[], hqueued'⟩, ?_, Nat.lt_of_le_of_ne hbounded hmax, fun _ => hnobody'⟩, .inl hnobody⟩
      · rw [step, if_pos hcalls, Semaphore.signalSemaphore,
          show s.semaphore.processQueue = s.queue from rfl, hq]
        simp [hmax]
      · change s.semaphore.currentValue + 1 + (s.waits + (q.released s.blocked).card) =
          initial + (s.signals + 1)
        rw [hreleased]
        omega
  · have hxin : x ∈ s.blocked := hqueued.members x (by simp)
    have hfind : (dead ++ x :: rest).find? (s.queue.Waits ·) = some x := by
      refine List.find?_eq_some_iff_append.mpr ⟨by simpa using hwaits, dead, rest, rfl, ?_⟩
      simpa using hdead
    have hzero : ¬ 0 < s.semaphore.currentValue := fun hpos => hidle hpos x hxin hwaits
    have hreleased : (q.msectionWqDel x).Released x := WaitQueue.released_of_awake hself
    have hcard : ((q.msectionWqDel x).released s.blocked).card =
        (s.queue.released s.blocked).card + 1 :=
      WaitQueue.released_card_succ hxin hwaits hreleased fun u hu =>
        WaitQueue.released_of_bare (hother u hu)
    refine ⟨{ s with
        semaphore := { s.semaphore with processQueue := q.msectionWqDel x }
        signals := s.signals + 1 }, ?_,
      ⟨⟨rest, hqueued'⟩, ?_, hbounded, fun hpos => absurd hpos hzero⟩,
      .inr ⟨_, x, hqueued.sound.linked, hfind, hxin, rfl, rfl, rfl, hreleased,
        fun u hu => WaitQueue.waits_of_bare (hother u hu)⟩⟩
    · rw [step, if_pos hcalls, Semaphore.signalSemaphore,
        show s.semaphore.processQueue = s.queue from rfl, hq]
      simp [hfirst]
    · change s.semaphore.currentValue + (s.waits + ((q.msectionWqDel x).released s.blocked).card) =
        initial + (s.signals + 1)
      rw [hcard]
      omega

theorem Conserved.getSemaphoreStatus (hs : s.Conserved initial)
    (h : s.step (.getSemaphoreStatus c) = some t) : t.Conserved initial := by
  obtain ⟨⟨l, hqueued⟩, hbalance, hbounded, hidle⟩ := hs
  simp only [step] at h
  split_ifs at h with hcalls
  obtain ⟨⟨sem, status⟩, hr, rfl⟩ := Option.map_eq_some_iff.mp h
  obtain ⟨⟨q, n⟩, hq, he⟩ := Option.map_eq_some_iff.mp hr
  obtain ⟨rfl, rfl⟩ := Prod.mk.inj he
  obtain ⟨q', hq', hqueued', -, hbare⟩ := hqueued.size
  obtain ⟨rfl, rfl⟩ := Prod.mk.inj (Option.some.inj (hq'.symm.trans hq))
  have hreleased : q'.released s.blocked = s.queue.released s.blocked :=
    WaitQueue.released_congr fun u _ => WaitQueue.released_of_bare (hbare u)
  refine ⟨⟨_, hqueued'⟩, ?_, hbounded, fun hpos u hu hw => ?_⟩
  · rw [← hbalance, successfulWaits, successfulWaits, ← hreleased]
    rfl
  · exact hidle hpos u hu ((WaitQueue.waits_of_bare (hbare u)).mp hw)

theorem Conserved.resume (hs : s.Conserved initial) (hok : s.Clean (.resume c))
    (h : s.step (.resume c) = some t) : t.Conserved initial := by
  obtain ⟨⟨l, hqueued⟩, hbalance, hbounded, hidle⟩ := hs
  rw [successfulWaits] at hbalance
  rw [step] at h
  by_cases hready : c ∈ s.blocked ∧ (s.queue.threads c).state ≠ .waiting
  · rw [if_pos hready] at h
    obtain rfl := Option.some.inj h
    obtain ⟨l', hqueued', -, hbare⟩ := hqueued.waitReturn hready.1 hready.2 hok
    have hreleased : (s.queue.waitReturn c).1.released (s.blocked.erase c) =
        (s.queue.released s.blocked).erase c :=
      WaitQueue.released_erase fun u hu => WaitQueue.released_of_bare (hbare u hu)
    have hcode : (s.queue.waitReturn c).2 = .noError ↔ c ∈ s.queue.released s.blocked := by
      rw [WaitQueue.released, Finset.mem_filter, WaitQueue.Released, WaitQueue.waitReturn]
      cases (s.queue.threads c).waitResult <;> simp [hready]
    refine ⟨⟨l', hqueued'.congr fun u => ?_⟩, ?_, hbounded, fun hpos u hu hw => ?_⟩
    · exact Finset.mem_erase.trans and_comm
    · change s.semaphore.currentValue + ((if (s.queue.waitReturn c).2 = .noError then s.waits + 1
        else s.waits) + ((s.queue.waitReturn c).1.released (s.blocked.erase c)).card) = _
      rw [hreleased]
      by_cases hin : c ∈ s.queue.released s.blocked
      · rw [if_pos (hcode.mpr hin)]
        have hcard := Finset.card_erase_add_one hin
        change _ = initial + s.signals
        omega
      · rw [if_neg (mt hcode.mp hin), Finset.erase_eq_of_notMem hin]
        exact hbalance
    · obtain ⟨hne, hin⟩ := Finset.mem_erase.mp hu
      exact hidle hpos u hin ((WaitQueue.waits_of_bare (hbare u hne)).mp hw)
  · rw [if_neg hready] at h
    cases h

theorem Conserved.process {e : ProcessInput} (hs : s.Conserved initial)
    (h : s.step (.process e) = some t) : t.Conserved initial := by
  obtain ⟨⟨l, hqueued⟩, hbalance, hbounded, hidle⟩ := hs
  obtain ⟨q, hq, rfl⟩ := Option.map_eq_some_iff.mp h
  obtain ⟨hqueued', -, hsame⟩ := hqueued.processStep hq
  have hreleased : q.released s.blocked = s.queue.released s.blocked :=
    WaitQueue.released_congr fun u hu => (hsame u hu).2
  refine ⟨⟨l, hqueued'⟩, ?_, hbounded, fun hpos u hu hw => ?_⟩
  · rw [← hbalance, successfulWaits, successfulWaits, ← hreleased]
    rfl
  · exact hidle hpos u hu ((hsame u hu).1 hw)

theorem step_conserved {e : SemaphoreInput} (hs : s.Conserved initial) (hok : s.Clean e)
    (h : s.step e = some t) : t.Conserved initial := by
  cases e with
  | waitSemaphore c timeOut start => exact hs.waitSemaphore h
  | signalSemaphore c =>
    by_cases hcalls : s.Calls c
    · obtain ⟨t', ht', hconserved, -⟩ := hs.signalSemaphore hcalls
      exact Option.some.inj (ht'.symm.trans h) ▸ hconserved
    · rw [step, if_neg hcalls] at h
      cases h
  | getSemaphoreStatus c => exact hs.getSemaphoreStatus h
  | resume c => exact hs.resume hok h
  | process e => exact hs.process h

/-- A semaphore that has just been created. -/
structure Created (s : SemaphoreSystem) : Prop where
  first : s.queue.first = none
  last : s.queue.last = none
  blocked : s.blocked = ∅
  signals : s.signals = 0
  waits : s.waits = 0
  bounded : s.semaphore.currentValue ≤ s.semaphore.maximumValue

theorem Created.conserved (hs : s.Created) : s.Conserved s.semaphore.currentValue where
  queued := ⟨[], WaitQueue.queued_empty hs.first hs.last (by simp [hs.blocked])⟩
  balance := by
    rw [successfulWaits, hs.blocked, hs.waits, hs.signals]
    rfl
  bounded := hs.bounded
  idle := by simp [hs.blocked]

/-- In every clean run no signal is lost or counted twice, the value stays within its maximum, and
processes are blocked only at zero, where a signal releases the first one that waits. -/
theorem semaphore_conservation {es : List SemaphoreInput} (hs : s.Created)
    (hok : Run.Meets step Clean s es) (h : Run.exec step s es = some t) :
    t.semaphore.currentValue + t.successfulWaits = s.semaphore.currentValue + t.signals ∧
    t.semaphore.currentValue ≤ t.semaphore.maximumValue ∧
    (0 < t.semaphore.currentValue → ∀ u ∈ t.blocked, ¬ t.queue.Waits u) ∧
    ∀ c u, t.Calls c → u ∈ t.blocked → t.queue.Waits u →
      ∃ r l x, t.step (.signalSemaphore c) = some r ∧ t.queue.Linked l ∧
        l.find? (t.queue.Waits ·) = some x ∧ r.signals = t.signals + 1 ∧
        r.semaphore.currentValue = t.semaphore.currentValue ∧ x ∈ r.blocked ∧
        r.queue.Released x ∧ ∀ v, v ≠ x → (r.queue.Waits v ↔ t.queue.Waits v) := by
  have hstep : ∀ (a : SemaphoreSystem) e b, a.Conserved s.semaphore.currentValue → a.Clean e →
      a.step e = some b → b.Conserved s.semaphore.currentValue :=
    fun _ _ _ ha hok h => step_conserved ha hok h
  have ht := Run.invariant_of_meets hstep hs.conserved hok h
  refine ⟨ht.balance, ht.bounded, ht.idle, fun c u hcalls hu hw => ?_⟩
  obtain ⟨r, hr, -, hnobody | ⟨l, x, hlinked, hfind, hxin, hsignals, hvalue, hblocked, hx, hsame⟩⟩ :=
    ht.signalSemaphore hcalls
  · exact absurd hw (hnobody u hu)
  · exact ⟨r, l, x, hr, hlinked, hfind, hsignals, hvalue, hblocked ▸ hxin, hx, hsame⟩

/-- Four processes of which none has used the semaphore yet. -/
def fourProcesses : SemaphoreSystem where
  semaphore :=
    { maximumValue := 1
      currentValue := 0
      discipline := .fifo
      processQueue :=
        { threads _ := ⟨.runnable, false, .ok, none, none, 0, 0⟩
          nthreadsUsed := 5, first := none, last := none } }
  blocked := ∅
  signals := 0
  waits := 0

theorem fourProcesses_created : fourProcesses.Created := ⟨rfl, rfl, rfl, rfl, rfl, Nat.zero_le _⟩

def twoWaits : List SemaphoreInput := [.waitSemaphore 1 5 .begins, .waitSemaphore 2 5 .begins]

theorem twoWaits_clean : ∀ e ∈ twoWaits, ∀ s, Clean s e := by simp [twoWaits, Clean]

/-- Two processes wait; a signal would release the first of them. -/
theorem semaphore_conservation_twoWaits :
    ∃ t, Run.exec step fourProcesses twoWaits = some t ∧
      t.semaphore.currentValue + t.successfulWaits = 0 + t.signals ∧
      ∃ r l x, t.step (.signalSemaphore 3) = some r ∧ t.queue.Linked l ∧
        l.find? (t.queue.Waits ·) = some x ∧ r.queue.Released x := by
  have hview : (Run.exec step fourProcesses twoWaits).map (fun t =>
      (decide (t.Calls 3), decide (2 ∈ t.blocked), (t.queue.threads 2).state)) =
        some (true, true, .waiting) := by
    decide +kernel
  obtain ⟨t, ht, hv⟩ := Option.map_eq_some_iff.mp hview
  obtain ⟨hcalls, hrest⟩ := Prod.mk.inj hv
  obtain ⟨hin, hwaits⟩ := Prod.mk.inj hrest
  obtain ⟨hbalance, -, -, hsignal⟩ := semaphore_conservation fourProcesses_created
    (Run.meets_of_forall twoWaits_clean _) ht
  obtain ⟨r, l, x, hr, hlinked, hfind, -, -, -, hx, -⟩ :=
    hsignal 3 2 (of_decide_eq_true hcalls) (of_decide_eq_true hin) hwaits
  exact ⟨t, ht, hbalance, r, l, x, hr, hlinked, hfind, hx⟩

/-- The wait of process 1 ends by timeout, a request of the status prunes it, and its own
deletion cuts off process 2; the signal then finds nobody. -/
def prunedWait : List SemaphoreInput := twoWaits ++
  [.process (.timeOut 1), .getSemaphoreStatus 3, .resume 1, .signalSemaphore 3]

/-- The value is positive although process 2 waits. -/
theorem semaphore_conservation_fails :
    ∃ t, Run.exec step fourProcesses prunedWait = some t ∧ 0 < t.semaphore.currentValue ∧
      2 ∈ t.blocked ∧ t.queue.Waits 2 := by
  have hview : (Run.exec step fourProcesses prunedWait).map (fun t =>
      (t.semaphore.currentValue, decide (2 ∈ t.blocked), (t.queue.threads 2).state)) =
        some (1, true, .waiting) := by
    decide +kernel
  obtain ⟨t, ht, hv⟩ := Option.map_eq_some_iff.mp hview
  obtain ⟨hvalue, hrest⟩ := Prod.mk.inj hv
  obtain ⟨hin, hwaits⟩ := Prod.mk.inj hrest
  exact ⟨t, ht, hvalue ▸ Nat.one_pos, of_decide_eq_true hin, hwaits⟩

end SemaphoreSystem

end Chpok
