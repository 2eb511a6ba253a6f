import Chpok.Kernel.WaitQueueLinks
import Chpok.Library.Run

/-! Integrity of a wait queue that user code and the kernel edit. It is lost when a thread
that the kernel has already taken out deletes itself from a queue that is not empty: with
both links unset its deletion writes the two fields of the queue. -/

namespace Chpok

namespace WaitQueue

variable {w r : WaitQueue} {t u c : Nat} {l before after : List Nat}

/-- The links of the other threads are unset, and whoever waits is in the queue. -/
structure Intact (w : WaitQueue) (l : List Nat) : Prop where
  linked : w.Linked l
  outside : ∀ t, t ∉ l → (w.threads t).wqNext = none ∧ (w.threads t).wqPrev = none
  waits : ∀ t, w.Waits t → t ∈ l

def InQueue (w : WaitQueue) (t : Nat) : Prop := ∃ l, w.Linked l ∧ t ∈ l

theorem Intact.isLinked_iff (h : w.Intact l) : w.IsLinked t ↔ t ∈ l :=
  h.linked.isLinked_iff fun ht => (h.outside t ht).2

theorem Intact.inQueue_iff (h : w.Intact l) : w.InQueue t ↔ t ∈ l := by
  refine ⟨fun ⟨l', hl', ht⟩ => ?_, fun ht => ⟨l, h.linked, ht⟩⟩
  rwa [h.linked.unique hl']

theorem Intact.link (h : w.Intact (before ++ after)) (hc : c ∉ before ++ after) :
    (w.link c before.getLast? after.head?).Intact (before ++ c :: after) := by
  refine ⟨h.linked.link hc, fun u hu => ?_, fun u hu => ?_⟩
  · simp only [List.mem_append, List.mem_cons, not_or] at hu
    rw [link_threads hu.2.1 hu.1 hu.2.2]
    exact h.outside u (by simp [hu.1, hu.2.2])
  · rw [waits_of_bare (link_bare _ _ u)] at hu
    have := h.waits u hu
    rw [List.mem_append] at this
    rcases this with hu | hu <;> simp [hu]

theorem Intact.del (h : w.Intact (before ++ t :: after)) (hnot : ¬ w.Waits t) :
    (w.msectionWqDel t).Intact (before ++ after) := by
  refine ⟨h.linked.del, fun u hu => ?_, fun u hu => ?_⟩
  · by_cases hut : u = t
    · subst hut
      rw [del_threads_self]
      exact ⟨rfl, rfl⟩
    · rw [List.mem_append, not_or] at hu
      have hout : u ∉ before ++ t :: after := by simp [hut, hu]
      rw [h.linked.del_threads hout]
      exact h.outside u hout
  · rw [waits_of_bare (del_bare t u)] at hu
    have hut : u ≠ t := by
      rintro rfl
      exact hnot hu
    simpa [hut] using h.waits u hu

theorem Intact.del_outside (h : w.Intact l) (ht : t ∉ l) : (w.msectionWqDel t).Linked [] :=
  (del_unlinked (h.outside t ht).1 (h.outside t ht).2).1

theorem Intact.del_empty (h : w.Intact []) : (w.msectionWqDel t).Intact [] := by
  obtain ⟨hnext, hprev⟩ := h.outside t (by simp)
  obtain ⟨hlinked, hsame⟩ := del_unlinked hnext hprev
  refine ⟨hlinked, fun u _ => ?_, fun u hu => ?_⟩
  · by_cases hut : u = t
    · subst hut
      rw [del_threads_self]
      exact ⟨rfl, rfl⟩
    · rw [hsame u hut]
      exact h.outside u (by simp)
  · rw [waits_of_bare (del_bare t u)] at hu
    exact absurd (h.waits u hu) (by simp)

theorem Intact.updateThread (h : w.Intact l) {f : WqThread → WqThread}
    (hnext : (f (w.threads t)).wqNext = (w.threads t).wqNext)
    (hprev : (f (w.threads t)).wqPrev = (w.threads t).wqPrev)
    (hwaits : (f (w.threads t)).state = .waiting → t ∈ l) : (w.updateThread t f).Intact l := by
  refine ⟨h.linked.updateThread hnext hprev, fun u hu => ?_, fun u hu => ?_⟩
  · by_cases hut : u = t
    · subst hut
      rw [updateThread_threads_self, hnext, hprev]
      exact h.outside u hu
    · rw [updateThread_threads_ne hut]
      exact h.outside u hu
  · by_cases hut : u = t
    · subst hut
      rw [Waits, updateThread_threads_self] at hu
      exact hwaits hu
    · rw [Waits, updateThread_threads_ne hut] at hu
      exact h.waits u hu

theorem Intact.beginWait (h : w.Intact l) (ht : t ∈ l) : (w.beginWait t).Intact l :=
  h.updateThread rfl rfl fun _ => ht

theorem Intact.endWait (h : w.Intact l) : (w.endWait t).Intact l :=
  h.updateThread rfl rfl (h.waits t)

theorem Intact.threadWakeUp (h : w.Intact l) (hr : w.threadWakeUp t = some r) : r.Intact l := by
  simp only [WaitQueue.threadWakeUp] at hr
  split_ifs at hr
  obtain rfl := Option.some.inj hr
  exact h.updateThread rfl rfl (by simp)

theorem Intact.wakeNotified (h : w.Intact l) (hr : w.wakeNotified t = some r) :
    r.Intact l ∧ r.nthreadsUsed = w.nthreadsUsed := by
  obtain ⟨v, hv, rfl⟩ := Option.map_eq_some_iff.mp hr
  have hvl := h.threadWakeUp hv
  simp only [WaitQueue.threadWakeUp] at hv
  split_ifs at hv
  obtain rfl := Option.some.inj hv
  exact ⟨hvl.updateThread rfl rfl (hvl.waits t), rfl⟩

theorem Intact.cancelWait (h : w.Intact l) (hr : w.cancelWait t = some r) : r.Intact l := by
  obtain ⟨v, hv, rfl⟩ := Option.map_eq_some_iff.mp hr
  have hvl := h.threadWakeUp hv
  exact hvl.updateThread rfl rfl (hvl.waits t)

theorem Intact.kernelMsectionWqDel (h : w.Intact (before ++ t :: after))
    (hnot : (w.threads t).state ≠ .waiting) (hr : w.kernelMsectionWqDel t = some r) :
    r.Intact (before ++ after) := by
  simp only [WaitQueue.kernelMsectionWqDel] at hr
  split_ifs at hr
  exact Option.some.inj hr ▸ h.del hnot

theorem Intact.wqNotify {fuel : Nat} {isAll found : Bool} (kept : List Nat) {rest : List Nat}
    (h : w.Intact (kept ++ rest)) (hr : wqNotify fuel w rest.head? isAll = some (r, found)) :
    ∃ l, r.Intact l := by
  induction rest generalizing w kept fuel found with
  | nil =>
    have hw : WaitQueue.wqNotify fuel w none isAll = some (w, false) := by cases fuel <;> rfl
    obtain ⟨rfl, -⟩ := Prod.mk.inj (Option.some.inj (hw.symm.trans hr))
    exact ⟨_, h⟩
  | cons t rest ih =>
    cases fuel with
    | zero => cases hr
    | succ fuel =>
      simp only [List.head?_cons, WaitQueue.wqNotify, h.linked.wqNext_eq] at hr
      split_ifs at hr with hguard hwaits hall
      · obtain ⟨v, hv, hr⟩ := Option.bind_eq_some_iff.mp hr
        exact ih kept (h.kernelMsectionWqDel hwaits hv) hr
      · obtain ⟨v, hv, hr⟩ := Option.bind_eq_some_iff.mp hr
        obtain ⟨⟨q, b⟩, hq, he⟩ := Option.map_eq_some_iff.mp hr
        obtain ⟨rfl, -⟩ := Prod.mk.inj he
        have hkept : v.Intact ((kept ++ [t]) ++ rest) := by simpa using (h.wakeNotified hv).1
        exact ih (kept ++ [t]) hkept hq
      · obtain ⟨v, hv, hr⟩ := Option.bind_eq_some_iff.mp hr
        obtain ⟨rfl, -⟩ := Prod.mk.inj (Option.some.inj hr)
        exact ⟨_, (h.wakeNotified hv).1⟩

theorem Intact.wqSize {fuel count total : Nat} (kept : List Nat) {rest : List Nat}
    (h : w.Intact (kept ++ rest)) (hr : wqSize fuel w rest.head? count = some (r, total)) :
    ∃ l, r.Intact l := by
  induction rest generalizing w kept fuel count with
  | nil =>
    have hw : WaitQueue.wqSize fuel w none count = some (w, count) := by cases fuel <;> rfl
    obtain ⟨rfl, -⟩ := Prod.mk.inj (Option.some.inj (hw.symm.trans hr))
    exact ⟨_, h⟩
  | cons t rest ih =>
    cases fuel with
    | zero => cases hr
    | succ fuel =>
      simp only [List.head?_cons, WaitQueue.wqSize, h.linked.wqNext_eq] at hr
      split_ifs at hr with hguard hwaits
      · obtain ⟨v, hv, hr⟩ := Option.bind_eq_some_iff.mp hr
        exact ih kept (h.kernelMsectionWqDel hwaits hv) hr
      · have hkept : w.Intact ((kept ++ [t]) ++ rest) := by simpa using h
        exact ih (kept ++ [t]) hkept hr

end WaitQueue

namespace WqSystem

variable {s t : WqSystem}

/-- Nobody waits, and no link is set. -/
structure Empty (s : WqSystem) : Prop where
  first : s.queue.first = none
  last : s.queue.last = none
  links : ∀ u, (s.queue.threads u).wqNext = none ∧ (s.queue.threads u).wqPrev = none
  waits : ∀ u, ¬ s.queue.Waits u

theorem Empty.intact (hs : s.Empty) : s.queue.Intact [] :=
  ⟨⟨.nil, hs.first, hs.last⟩, fun u _ => hs.links u, fun u hu => absurd hu (hs.waits u)⟩

/-- A deletion finds the thread in the queue, or finds the queue empty. -/
def Clean (s : WqSystem) : WqInput → Prop
  | .del u => s.queue.IsLinked u ∨ s.queue.first = none
  | _ => True

theorem ownerStep_intact {c : Nat} {e : WqInput} {l : List Nat} (hs : s.queue.Intact l)
    (hok : s.Clean e) (h : s.ownerStep c e = some t) : ∃ l, t.queue.Intact l := by
  cases e with
  | leave =>
    obtain rfl := Option.some.inj h
    exact ⟨l, hs⟩
  | add next =>
    simp only [ownerStep] at h
    split_ifs at h with hguard
    obtain rfl := Option.some.inj h
    simp only [hs.isLinked_iff] at hguard
    obtain ⟨before, after, rfl, hadd⟩ := hs.linked.split_before (c := c) hguard.2
    exact ⟨_, hadd ▸ hs.link hguard.1⟩
  | addAfter prev =>
    simp only [ownerStep] at h
    split_ifs at h with hguard
    obtain rfl := Option.some.inj h
    simp only [hs.isLinked_iff] at hguard
    obtain ⟨before, after, rfl, -, hadd⟩ := hs.linked.split_after (c := c) hguard.2
    exact ⟨_, hadd ▸ hs.link hguard.1⟩
  | del u =>
    simp only [ownerStep] at h
    split_ifs at h with hnot
    obtain rfl := Option.some.inj h
    rcases hok with hlinked | hempty
    · obtain ⟨before, after, rfl⟩ := List.append_of_mem (hs.isLinked_iff.mp hlinked)
      exact ⟨_, hs.del hnot⟩
    · obtain rfl := List.head?_eq_none_iff.mp (hs.linked.first_eq.symm.trans hempty)
      exact ⟨_, hs.del_empty⟩
  | notify isAll =>
    obtain ⟨⟨r, found⟩, hr, rfl⟩ := Option.map_eq_some_iff.mp h
    rw [WaitQueue.jetMsectionWqNotify, hs.linked.first_eq] at hr
    exact hs.wqNotify [] hr
  | size =>
    obtain ⟨⟨r, total⟩, hr, rfl⟩ := Option.map_eq_some_iff.mp h
    rw [WaitQueue.jetMsectionWqSize, hs.linked.first_eq] at hr
    exact hs.wqSize [] hr
  | wait =>
    simp only [ownerStep] at h
    split_ifs at h with hlinked
    obtain rfl := Option.some.inj h
    exact ⟨l, hs.beginWait (hs.isLinked_iff.mp hlinked)⟩
  | enter _ | resume _ | timeOut _ | stop _ => cases h

theorem step_intact {e : WqInput} {l : List Nat} (hs : s.queue.Intact l) (hok : s.Clean e)
    (h : s.step e = some t) : ∃ l, t.queue.Intact l := by
  cases e with
  | enter u =>
    simp only [step] at h
    split_ifs at h
    exact ⟨l, Option.some.inj h ▸ hs⟩
  | resume u =>
    simp only [step] at h
    split_ifs at h
    obtain rfl := Option.some.inj h
    exact ⟨l, hs.endWait⟩
  | timeOut u =>
    obtain ⟨r, hr, rfl⟩ := Option.map_eq_some_iff.mp h
    exact ⟨l, hs.threadWakeUp hr⟩
  | stop u =>
    obtain ⟨r, hr, rfl⟩ := Option.map_eq_some_iff.mp h
    exact ⟨l, hs.cancelWait hr⟩
  | leave | add _ | addAfter _ | del _ | notify _ | size | wait =>
    obtain ⟨c, -, hstep⟩ := Option.bind_eq_some_iff.mp h
    exact ownerStep_intact hs hok hstep

/-- A deletion leaves every other thread linked exactly if it finds the thread in the queue,
or the queue empty. -/
theorem del_keeps_iff {u : Nat} {l : List Nat} (hs : s.queue.Intact l)
    (h : s.step (.del u) = some t) :
    s.Clean (.del u) ↔ ∀ v, v ≠ u → s.queue.InQueue v → t.queue.InQueue v := by
  obtain ⟨c, -, hstep⟩ := Option.bind_eq_some_iff.mp h
  simp only [ownerStep] at hstep
  split_ifs at hstep with hnot
  obtain rfl := Option.some.inj hstep
  simp only [Clean, hs.isLinked_iff, hs.inQueue_iff]
  constructor
  · rintro (hu | hempty) v hv hin
    · obtain ⟨before, after, rfl⟩ := List.append_of_mem hu
      refine ⟨_, hs.linked.del, ?_⟩
      simpa [hv] using hin
    · obtain rfl := List.head?_eq_none_iff.mp (hs.linked.first_eq.symm.trans hempty)
      cases hin
  · intro hkeep
    by_contra hclean
    obtain ⟨hu, hfirst⟩ := not_or.mp hclean
    cases l with
    | nil => exact hfirst hs.linked.first_eq
    | cons v l =>
      have hv : v ≠ u := by
        rintro rfl
        exact hu (by simp)
      obtain ⟨l', hl', hin⟩ := hkeep v hv (by simp)
      obtain rfl := (hs.del_outside hu).unique hl'
      cases hin

/-- In every clean run the queue is a doubly linked list that holds all the threads that wait, and to
take out a thread loses no other one exactly if the step is clean. -/
theorem wait_queue_integrity {es : List WqInput} (hs : s.Empty)
    (hok : Run.Meets step Clean s es) (h : Run.exec step s es = some t) :
    (∃ l, t.queue.Linked l ∧ t.queue.first = l.head? ∧ t.queue.last = l.getLast?) ∧
    (∀ u, t.queue.Waits u → t.queue.InQueue u) ∧
    ∀ u r, t.step (.del u) = some r →
      (t.Clean (.del u) ↔ ∀ v, v ≠ u → t.queue.InQueue v → r.queue.InQueue v) := by
  have hstep : ∀ (s : WqSystem) e t, (∃ l, s.queue.Intact l) → s.Clean e → s.step e = some t →
      ∃ l, t.queue.Intact l := fun _ _ _ ⟨_, hs⟩ hok h => step_intact hs hok h
  obtain ⟨l, hl⟩ := Run.invariant_of_meets hstep ⟨[], hs.intact⟩ hok h
  refine ⟨⟨l, hl.linked, hl.linked.first_eq, hl.linked.last_eq⟩, fun u hu => ?_,
    fun u r hr => del_keeps_iff hl hr⟩
  exact hl.inQueue_iff.mpr (hl.waits u hu)

/-- Four threads that have not used the queue yet. -/
def fourThreads : WqSystem where
  queue :=
    { threads _ := ⟨.runnable, false, .ok, none, none, 0, 0⟩
      nthreadsUsed := 5, first := none, last := none }
  owner := none

theorem fourThreads_empty : fourThreads.Empty :=
  ⟨rfl, rfl, fun _ => ⟨rfl, rfl⟩, fun _ => nofun⟩

def waitInQueue (u : Nat) : List WqInput := [.enter u, .add none, .wait]

/-- The wait of thread 1, in front of 2, ends; the kernel takes it out while thread 4 asks
for the number of waiting threads. -/
def prunedRun : List WqInput :=
  waitInQueue 1 ++ waitInQueue 2 ++ [.timeOut 1, .enter 4, .size, .leave, .resume 1]

/-- Here nobody asks. -/
def linkedRun : List WqInput := waitInQueue 1 ++ waitInQueue 2 ++ [.timeOut 1, .resume 1]

theorem linkedRun_clean : ∀ e ∈ linkedRun, ∀ s, Clean s e := by
  simp [linkedRun, waitInQueue, Clean]

/-- A thread may delete itself while it is still in the queue, and thread 2 stays in. -/
theorem wait_queue_integrity_linked :
    ∃ t r, Run.exec step fourThreads linkedRun = some t ∧ t.step (.del 1) = some r ∧
      ((∀ v, v ≠ 1 → t.queue.InQueue v → r.queue.InQueue v) ∧ t.queue.InQueue 2) := by
  have hview : (Run.exec step fourThreads linkedRun).map (fun t =>
      ((t.step (.del 1)).isSome, t.queue.first, (t.queue.threads 2).state)) =
        some (true, some 1, .waiting) := by
    decide +kernel
  obtain ⟨t, ht, hv⟩ := Option.map_eq_some_iff.mp hview
  obtain ⟨hdel, hrest⟩ := Prod.mk.inj hv
  obtain ⟨hfirst, hwaits⟩ := Prod.mk.inj hrest
  obtain ⟨r, hr⟩ := Option.isSome_iff_exists.mp hdel
  have hintegrity := wait_queue_integrity fourThreads_empty
    (Run.meets_of_forall linkedRun_clean _) ht
  exact ⟨t, r, ht, hr, (hintegrity.2.2 1 r hr).mp (.inl (.inl hfirst)), hintegrity.2.1 2 hwaits⟩

/-- Thread 1 deletes itself after the kernel has taken it out, and thread 2, which waits, is
in the queue no more. -/
theorem wait_queue_integrity_fails :
    ∃ t, Run.exec step fourThreads (prunedRun ++ [.del 1]) = some t ∧ t.queue.Waits 2 ∧
      ¬ t.queue.InQueue 2 := by
  have hview : (Run.exec step fourThreads (prunedRun ++ [.del 1])).map (fun t =>
      (t.queue.first, (t.queue.threads 2).state)) = some (none, .waiting) := by
    decide +kernel
  obtain ⟨t, ht, hv⟩ := Option.map_eq_some_iff.mp hview
  obtain ⟨hfirst, hwaits⟩ := Prod.mk.inj hv
  refine ⟨t, ht, hwaits, ?_⟩
  rintro ⟨l, hl, hin⟩
  obtain rfl := List.head?_eq_none_iff.mp (hl.first_eq.symm.trans hfirst)
  cases hin

end WqSystem

end Chpok
