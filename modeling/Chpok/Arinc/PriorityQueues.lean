import Chpok.Arinc.BlockedProcesses
import Chpok.Kernel.PortWq

/-! The priority queue of the kernel and the one of the library run side by side. Both hold the
processes that wait, by the priorities that they had when they came. -/

namespace Chpok

/-- The input on an object of the library: a process comes to wait, the first one is released,
the wait of a process ends by timeout, a process is stopped or started, or a priority is set. A
process that waits takes itself out of the queue before it stops. -/
def WaitQueue.priorityStep (w : WaitQueue) : PriorityInput → Option (WaitQueue × Option Nat)
  | .enqueue t =>
    if t < w.nthreadsUsed ∧ (w.threads t).state = .runnable then
      (w.queueAndWait t .priority .begins).map fun r => (r.1, none)
    else none
  | .wakeUp =>
    (w.jetMsectionWqNotify false).bind fun r =>
      if r.2 then r.1.first.map fun t => (((r.1.msectionWqDel t).waitReturn t).1, some t)
      else some (r.1, none)
  | .remove t => (w.threadWakeUp t).map fun w => ((w.waitReturn t).1, none)
  | .stop t =>
    if (w.threads t).state = .waiting then
      (w.cancelWait t).map fun w =>
        ((w.waitReturn t).1.updateThread t fun th => { th with state := .stopped }, none)
    else if (w.threads t).state = .runnable then
      some (w.updateThread t fun th => { th with state := .stopped }, none)
    else none
  | .start t =>
    if (w.threads t).state = .stopped then
      some (w.updateThread t fun th => { th with state := .runnable }, none)
    else none
  | .setPriority t priority =>
    some (w.updateThread t fun th => { th with priority := priority }, none)

/-- `msection_wq_init`, and threads that run and wait for nothing -/
def WaitQueue.init (priorities : Nat → Nat) (nthreadsUsed : Nat) : WaitQueue where
  threads t := ⟨.runnable, false, .ok, none, none, priorities t, 0⟩
  nthreadsUsed := nthreadsUsed
  first := none
  last := none

/-- A process that waits, its priority when it came, and the number of inputs before -/
structure PriorityEntry where
  process : Nat
  priority : Nat
  stamp : Nat
  deriving DecidableEq, Repr

/-- Decreasing priority, first-in first-out among equals -/
def PriorityEntry.Before (e e' : PriorityEntry) : Prop :=
  e'.priority < e.priority ∨ e.priority = e'.priority ∧ e.stamp < e'.stamp

/-- The priorities after some inputs -/
def prioritiesAfter (priorities : Nat → Nat) : List PriorityInput → Nat → Nat
  | [] => priorities
  | .setPriority t priority :: inputs =>
    prioritiesAfter (Function.update priorities t priority) inputs
  | .enqueue _ :: inputs | .wakeUp :: inputs | .remove _ :: inputs | .stop _ :: inputs
  | .start _ :: inputs =>
    prioritiesAfter priorities inputs

/-- The last input that made the process wait, and the priority that it had then -/
structure PriorityEntry.Recorded (e : PriorityEntry) (priorities : Nat → Nat)
    (inputs : List PriorityInput) : Prop where
  enqueued : inputs[e.stamp]? = some (.enqueue e.process)
  last : ∀ i > e.stamp, inputs[i]? ≠ some (.enqueue e.process)
  priority : e.priority = prioritiesAfter priorities (inputs.take e.stamp) e.process

/-- Both queues after some inputs, and the entries for the processes in them -/
structure SameQueues (priorities : Nat → Nat) (inputs : List PriorityInput) (k : PortWq)
    (w : WaitQueue) (l : List PriorityEntry) : Prop where
  kernel : k.Holds (l.map (·.process))
  library : w.Sound (l.map (·.process))
  used : k.nthreadsUsed = w.nthreadsUsed
  sorted : l.Pairwise PriorityEntry.Before
  recorded : ∀ e ∈ l, e.Recorded priorities inputs
  waitPriority : ∀ e ∈ l, (k.threads e.process).waitPriority = e.priority ∧
    (w.threads e.process).wqPriority = e.priority
  priority : ∀ t, (k.threads t).priority = prioritiesAfter priorities inputs t ∧
    (w.threads t).priority = prioritiesAfter priorities inputs t
  waiting : ∀ e ∈ l, (k.threads e.process).state = .waiting ∧
    (w.threads e.process).state = .waiting
  outside : ∀ t ∉ l.map (·.process), (k.threads t).state ≠ .waiting ∧
    (w.threads t).state = (k.threads t).state

namespace SameQueues

variable {priorities : Nat → Nat} {inputs : List PriorityInput} {k : PortWq} {w : WaitQueue}
  {l before after : List PriorityEntry} {e : PriorityEntry} {t : Nat} {input : PriorityInput}

theorem prioritiesAfter_append (inputs' : List PriorityInput) :
    prioritiesAfter priorities (inputs ++ inputs') =
      prioritiesAfter (prioritiesAfter priorities inputs) inputs' := by
  induction inputs generalizing priorities with
  | nil => rfl
  | cons input inputs ih =>
    cases input with
    | enqueue t => exact ih
    | wakeUp => exact ih
    | remove t => exact ih
    | stop t => exact ih
    | start t => exact ih
    | setPriority t priority => exact ih

theorem recorded_lt (h : e.Recorded priorities inputs) : e.stamp < inputs.length :=
  (List.getElem?_eq_some_iff.mp h.enqueued).1

theorem recorded_snoc (h : e.Recorded priorities inputs) (hne : input ≠ .enqueue e.process) :
    e.Recorded priorities (inputs ++ [input]) := by
  have hlt := recorded_lt h
  refine ⟨?_, fun i hi => ?_, ?_⟩
  · rw [List.getElem?_append_left hlt]
    exact h.enqueued
  · rcases Nat.lt_trichotomy i inputs.length with hin | rfl | hout
    · rw [List.getElem?_append_left hin]
      exact h.last i hi
    · simpa using hne
    · rw [List.getElem?_eq_none (by simp; omega)]
      simp
  · rw [List.take_append_of_le_length (Nat.le_of_lt hlt)]
    exact h.priority

theorem recorded_new :
    (⟨t, prioritiesAfter priorities inputs t, inputs.length⟩ : PriorityEntry).Recorded priorities
      (inputs ++ [.enqueue t]) := by
  refine ⟨by simp, fun i hi => ?_, ?_⟩
  · dsimp only at hi
    rw [List.getElem?_eq_none (by simp; omega)]
    simp
  · rw [List.take_left]

theorem split_priority (hsorted : l.Pairwise PriorityEntry.Before) (priority : Nat) :
    ∃ before after, l = before ++ after ∧ (∀ e ∈ before, priority ≤ e.priority) ∧
      ∀ e ∈ after, e.priority < priority := by
  induction l with
  | nil => exact ⟨[], [], rfl, by simp, by simp⟩
  | cons x l ih =>
    obtain ⟨hx, hrest⟩ := List.pairwise_cons.mp hsorted
    by_cases hle : priority ≤ x.priority
    · obtain ⟨before, after, rfl, hbefore, hafter⟩ := ih hrest
      exact ⟨x :: before, after, rfl, List.forall_mem_cons.mpr ⟨hle, hbefore⟩, hafter⟩
    · have hlt := Nat.lt_of_not_le hle
      refine ⟨[], x :: l, rfl, by simp, List.forall_mem_cons.mpr ⟨hlt, fun e he => ?_⟩⟩
      rcases hx e he with hlower | ⟨heq, -⟩
      · exact Nat.lt_trans hlower hlt
      · exact heq ▸ hlt

theorem sorted_insert (hsorted : (before ++ after).Pairwise PriorityEntry.Before)
    (hbefore : ∀ x ∈ before, e.priority ≤ x.priority)
    (hafter : ∀ x ∈ after, x.priority < e.priority)
    (hnew : ∀ x ∈ before, x.stamp < e.stamp) :
    (before ++ e :: after).Pairwise PriorityEntry.Before := by
  obtain ⟨hpre, hpost, hcross⟩ := List.pairwise_append.mp hsorted
  have hfirst : ∀ x ∈ before, x.Before e := by
    intro x hx
    rcases Nat.lt_or_eq_of_le (hbefore x hx) with hlt | heq
    · exact .inl hlt
    · exact .inr ⟨heq.symm, hnew x hx⟩
  refine List.pairwise_append.mpr ⟨hpre, ?_, fun x hx y hy => ?_⟩
  · exact List.pairwise_cons.mpr ⟨fun x hx => .inl (hafter x hx), hpost⟩
  · rcases List.mem_cons.mp hy with rfl | hy
    · exact hfirst x hx
    · exact hcross x hx y hy

/-- The loop from the end passes the processes of lower priority, ... -/
theorem queuePosition_passes {fuel priority : Nat} {before after : List Nat} (behind : List Nat)
    (hlinked : w.Linked (before ++ after ++ behind))
    (hbefore : ∀ x ∈ before, priority ≤ (w.threads x).wqPriority)
    (hafter : ∀ x ∈ after, (w.threads x).wqPriority < priority)
    (hfuel : (before ++ after).length ≤ fuel) :
    WaitQueue.queuePosition fuel w priority (before ++ after).getLast? =
      some before.getLast? := by
  induction after using List.reverseRecOn generalizing fuel behind with
  | nil =>
    rw [List.append_nil] at hfuel ⊢
    cases hlast : before.getLast? with
    | none => cases fuel <;> rfl
    | some x =>
      have hx := List.mem_of_getLast? hlast
      cases fuel with
      | zero => exact absurd (List.length_pos_of_mem hx) (by omega)
      | succ fuel => rw [WaitQueue.queuePosition, if_pos (hbefore x hx)]
  | append_singleton after y ih =>
    have hy := hafter y (by simp)
    rw [List.length_append, List.length_append, List.length_singleton] at hfuel
    cases fuel with
    | zero => omega
    | succ fuel =>
      have hsplit : before ++ (after ++ [y]) ++ behind = before ++ after ++ y :: behind := by simp
      rw [hsplit] at hlinked
      rw [← List.append_assoc, List.getLast?_concat, WaitQueue.queuePosition,
        if_neg (Nat.not_le.mpr hy), hlinked.wqPrev_eq]
      refine ih (y :: behind) hlinked (fun x hx => hafter x (by simp [hx])) ?_
      rw [List.length_append]
      omega

/-- ... so that the process is linked in before them. -/
theorem addCommon_eq {c : Nat} {before after : List Nat} (h : w.Sound (before ++ after))
    (hbefore : ∀ x ∈ before, (w.threads c).priority ≤ (w.threads x).wqPriority)
    (hafter : ∀ x ∈ after, (w.threads x).wqPriority < (w.threads c).priority) :
    w.arincProcessQueueAddCommon c .priority =
      some ((w.link c before.getLast? after.head?).updateThread c
        fun th => { th with wqPriority := th.priority }) := by
  have hposition := queuePosition_passes [] (by simpa using h.linked) hbefore hafter h.length_le
  have hnext : w.nextOf before.getLast? = after.head? := by
    cases hlast : before.getLast? with
    | none =>
      obtain rfl := List.getLast?_eq_none_iff.mp hlast
      exact h.linked.first_eq
    | some x =>
      obtain ⟨pre, rfl⟩ := List.getLast?_eq_some_iff.mp hlast
      have hlinked := h.linked
      rw [List.append_assoc, List.singleton_append] at hlinked
      exact hlinked.wqNext_eq
  rw [WaitQueue.arincProcessQueueAddCommon, h.linked.last_eq, hposition, Option.map_some,
    WaitQueue.msectionWqAddAfter, hnext]

/-! One input -/

theorem not_mem_takeOut (h : SameQueues priorities inputs k w (before ++ e :: after)) :
    e.process ∉ (before ++ after).map (·.process) := by
  have hnodup := h.kernel.linked.nodup
  rw [List.map_append, List.map_cons] at hnodup
  rw [List.map_append]
  exact (List.nodup_cons.mp (List.nodup_middle.mp hnodup)).1

theorem fields_of_bare {th th' : WqThread} (h : th'.bare = th.bare) :
    th'.state = th.state ∧ th'.priority = th.priority ∧ th'.wqPriority = th.wqPriority := by
  simp only [WqThread.bare, WqThread.mk.injEq] at h
  exact ⟨h.1, h.2.2.2.2.2.1, h.2.2.2.2.2.2⟩

/-- A process that has left both queues, and runs or is stopped -/
theorem takeOut {k' : PortWq} {w' : WaitQueue} {state : ThreadState} (hstate : state ≠ .waiting)
    (h : SameQueues priorities inputs k w (before ++ e :: after))
    (hinput : ∀ t, input ≠ .enqueue t)
    (hpriorities : prioritiesAfter priorities (inputs ++ [input]) = prioritiesAfter priorities inputs)
    (hk : k'.Holds ((before ++ after).map (·.process))) (hkused : k'.nthreadsUsed = k.nthreadsUsed)
    (hkothers : ∀ u, u ≠ e.process → k'.threads u = k.threads u)
    (hkself : k'.threads e.process = { k.threads e.process with state })
    (hw : w'.Sound ((before ++ after).map (·.process))) (hwused : w'.nthreadsUsed = w.nthreadsUsed)
    (hwothers : ∀ u, u ≠ e.process → (w'.threads u).bare = (w.threads u).bare)
    (hwself : (w'.threads e.process).state = state ∧
      (w'.threads e.process).priority = (w.threads e.process).priority) :
    SameQueues priorities (inputs ++ [input]) k' w' (before ++ after) := by
  have hsub : ∀ x ∈ before ++ after, x ∈ before ++ e :: after ∧ x.process ≠ e.process := by
    intro x hx
    refine ⟨?_, fun he => h.not_mem_takeOut (he ▸ List.mem_map_of_mem hx)⟩
    rcases List.mem_append.mp hx with hx | hx
    · exact List.mem_append_left _ hx
    · exact List.mem_append_right _ (List.mem_cons_of_mem _ hx)
  have hfields : ∀ u, u ≠ e.process → (w'.threads u).state = (w.threads u).state ∧
      (w'.threads u).priority = (w.threads u).priority ∧
      (w'.threads u).wqPriority = (w.threads u).wqPriority := by
    exact fun u hu => fields_of_bare (hwothers u hu)
  refine ⟨hk, hw, ?_, ?_, fun x hx => ?_, fun x hx => ?_, fun u => ?_, fun x hx => ?_,
    fun u hu => ?_⟩
  · rw [hkused, hwused, h.used]
  · exact h.sorted.sublist ((List.sublist_cons_self e after).append_left before)
  · exact recorded_snoc (h.recorded x (hsub x hx).1) (hinput _)
  · obtain ⟨hx, hne⟩ := hsub x hx
    rw [hkothers _ hne, (hfields _ hne).2.2]
    exact h.waitPriority x hx
  · rw [hpriorities]
    by_cases hu : u = e.process
    · subst hu
      rw [hkself, hwself.2]
      exact h.priority _
    · rw [hkothers u hu, (hfields u hu).2.1]
      exact h.priority u
  · obtain ⟨hx, hne⟩ := hsub x hx
    rw [hkothers _ hne, (hfields _ hne).1]
    exact h.waiting x hx
  · by_cases hue : u = e.process
    · subst hue
      rw [hkself, hwself.1]
      exact ⟨hstate, rfl⟩
    · rw [hkothers u hue, (hfields u hue).1]
      apply h.outside u
      simp only [List.map_append, List.map_cons, List.mem_append, List.mem_cons, not_or] at hu ⊢
      exact ⟨hu.1, hue, hu.2⟩

/-- A process in the queue of the kernel is taken out and runs again. -/
theorem kernel_takeOut (h : SameQueues priorities inputs k w (before ++ e :: after)) :
    ∃ k', k.threadWakeUp e.process = some k' ∧
      (k.listDelInit e.process).threadWakeUp e.process = some k' ∧
      k'.Holds ((before ++ after).map (·.process)) ∧ k'.nthreadsUsed = k.nthreadsUsed ∧
      (∀ u, u ≠ e.process → k'.threads u = k.threads u) ∧
      k'.threads e.process = { k.threads e.process with state := .runnable } := by
  have hwaiting : (k.threads e.process).state = .waiting := (h.waiting e (by simp)).1
  have hholds := h.kernel
  rw [List.map_append, List.map_cons] at hholds
  have hlinked : k.next (some e.process) ≠ some e.process := by
    rw [hholds.linked.next_eq]
    intro he
    apply h.not_mem_takeOut
    rw [List.map_append]
    exact List.mem_append_right _ (List.mem_of_head? he)
  have hdel := hholds.listDelInit
  rw [← List.map_append] at hdel
  have hout : (k.listDelInit e.process).next (some e.process) = some e.process :=
    (hdel.outside _ h.not_mem_takeOut).1
  refine ⟨(k.listDelInit e.process).updateThread e.process fun th => { th with state := .runnable },
    ?_, ?_, hdel.updateThread _, rfl, fun u hu => PortWq.updateThread_threads_ne hu _, ?_⟩
  · rw [PortWq.threadWakeUp, if_pos hwaiting]
    exact congrArg some (if_neg hlinked)
  · have hstill : ((k.listDelInit e.process).threads e.process).state = .waiting := hwaiting
    rw [PortWq.threadWakeUp, if_pos hstill]
    exact congrArg some (if_pos hout)
  · rw [PortWq.updateThread_threads_self]
    rfl

theorem step_setPriority (h : SameQueues priorities inputs k w l) (t priority : Nat) :
    ∃ k' w', k.step (.setPriority t priority) = some (k', none) ∧
      w.priorityStep (.setPriority t priority) = some (w', none) ∧
      SameQueues priorities (inputs ++ [.setPriority t priority]) k' w' l := by
  refine ⟨_, _, rfl, rfl, ?_⟩
  have hkernel : ∀ u, ((k.updateThread t fun th => { th with priority := priority }).threads u).state =
      (k.threads u).state ∧ ((k.updateThread t fun th => { th with
        priority := priority }).threads u).waitPriority = (k.threads u).waitPriority := by
    intro u
    by_cases hu : u = t
    · subst hu
      rw [PortWq.updateThread_threads_self]
      exact ⟨rfl, rfl⟩
    · rw [PortWq.updateThread_threads_ne hu]
      exact ⟨rfl, rfl⟩
  have hlibrary : ∀ u, ((w.updateThread t fun th => { th with priority := priority }).threads u).state =
      (w.threads u).state ∧ ((w.updateThread t fun th => { th with
        priority := priority }).threads u).wqPriority = (w.threads u).wqPriority ∧
      ((w.updateThread t fun th => { th with
        priority := priority }).threads u).entering = (w.threads u).entering := by
    intro u
    by_cases hu : u = t
    · subst hu
      rw [WaitQueue.updateThread_threads_self]
      exact ⟨rfl, rfl, rfl⟩
    · rw [WaitQueue.updateThread_threads_ne hu]
      exact ⟨rfl, rfl, rfl⟩
  refine ⟨h.kernel.updateThread _, ⟨h.library.linked.updateThread rfl rfl, h.library.ids, ?_⟩,
    h.used, h.sorted, fun e he => recorded_snoc (h.recorded e he) (by simp), fun e he => ?_,
    fun u => ?_, fun e he => ?_, fun u hu => ?_⟩
  · intro u hu
    rw [(hlibrary u).2.2]
    exact h.library.entering u hu
  · rw [(hkernel _).2, (hlibrary _).2.1]
    exact h.waitPriority e he
  · rw [prioritiesAfter_append]
    have hafter : prioritiesAfter (prioritiesAfter priorities inputs) [.setPriority t priority] =
        Function.update (prioritiesAfter priorities inputs) t priority := rfl
    rw [hafter]
    by_cases hu : u = t
    · subst hu
      rw [PortWq.updateThread_threads_self, WaitQueue.updateThread_threads_self,
        Function.update_self]
      exact ⟨rfl, rfl⟩
    · rw [PortWq.updateThread_threads_ne hu, WaitQueue.updateThread_threads_ne hu,
        Function.update_of_ne hu]
      exact h.priority u
  · rw [(hkernel _).1, (hlibrary _).1]
    exact h.waiting e he
  · rw [(hkernel _).1, (hlibrary _).1]
    exact h.outside u hu

/-- The first process of the queue of the library is released. -/
theorem library_wakeUp (h : SameQueues priorities inputs k w (e :: after)) :
    ∃ w', w.priorityStep .wakeUp = some (w', some e.process) ∧
      w'.Sound (after.map (·.process)) ∧ w'.nthreadsUsed = w.nthreadsUsed ∧
      (∀ u, u ≠ e.process → (w'.threads u).bare = (w.threads u).bare) ∧
      (w'.threads e.process).state = .runnable ∧
      (w'.threads e.process).priority = (w.threads e.process).priority := by
  have hwaits : w.Waits e.process := (h.waiting e (by simp)).2
  have hsound := h.library
  rw [List.map_cons] at hsound
  obtain ⟨r, hnotify, hr, hswept⟩ := hsound.notifyOne
  have hany : (e.process :: after.map (·.process)).any (w.Waits ·) = true := by simp [hwaits]
  have hall : (e.process :: after.map (·.process)).dropWhile (¬ w.Waits ·) =
      e.process :: after.map (·.process) := by simp [hwaits]
  have hfind : (e.process :: after.map (·.process)).find? (w.Waits ·) = some e.process := by
    simp [hwaits]
  rw [hany] at hnotify
  rw [hall] at hr
  rw [hfind] at hswept
  have hself : (r.threads e.process).bare = (w.threads e.process).bare.awake :=
    hswept.notified e.process (by simp)
  have hothers : ∀ u, u ≠ e.process → (r.threads u).bare = (w.threads u).bare :=
    fun u hu => hswept.others u (by simpa using hu)
  have hlinked : r.Linked ([] ++ e.process :: after.map (·.process)) := hr.linked
  have hresult : ((r.msectionWqDel e.process).threads e.process).waitResult = .ok := by
    rw [WaitQueue.del_threads_self, hself]
    rfl
  have hnot : e.process ∉ after.map (·.process) := hlinked.not_mem_of_del
  refine ⟨(r.msectionWqDel e.process).endWait e.process, ?_, ?_, ?_, fun u hu => ?_, ?_, ?_⟩
  · simp only [WaitQueue.priorityStep, hnotify, Option.bind_some, if_true, hr.linked.first_eq,
      List.head?_cons, Option.map_some, WaitQueue.waitReturn, hresult]
  · refine hsound.of_bare (hlinked.del.updateThread rfl rfl) ?_ (fun u hu => by simp [hu])
      fun u hu => ?_
    · exact (WaitQueue.del_used _).trans hswept.used
    · have hne : u ≠ e.process := ne_of_mem_of_not_mem hu hnot
      rw [WaitQueue.endWait, WaitQueue.updateThread_threads_ne hne, WaitQueue.del_bare]
      exact hothers u hne
  · exact (WaitQueue.del_used _).trans hswept.used
  · rw [WaitQueue.endWait, WaitQueue.updateThread_threads_ne hu, WaitQueue.del_bare]
    exact hothers u hu
  · rw [WaitQueue.endWait, WaitQueue.updateThread_threads_self, WaitQueue.del_threads_self, hself]
    rfl
  · rw [WaitQueue.endWait, WaitQueue.updateThread_threads_self, WaitQueue.del_threads_self, hself]
    rfl

/-- A process whose wait has not been ended by a notification takes itself out of the queue. -/
theorem library_leave (h : SameQueues priorities inputs k w (before ++ e :: after))
    {result : WaitResult} (hresult : result ≠ .ok) :
    let r := ((w.updateThread e.process fun th => { th with
      state := .runnable, waitResult := result }).waitReturn e.process).1
    r.Sound ((before ++ after).map (·.process)) ∧ r.nthreadsUsed = w.nthreadsUsed ∧
      (∀ u, u ≠ e.process → (r.threads u).bare = (w.threads u).bare) ∧
      (r.threads e.process).state = .runnable ∧
      (r.threads e.process).priority = (w.threads e.process).priority := by
  have hsound := h.library
  rw [List.map_append, List.map_cons] at hsound
  let awake : WqThread → WqThread := fun th => { th with state := .runnable, waitResult := result }
  have hnot : ((w.updateThread e.process awake).threads e.process).waitResult ≠ .ok := by
    rw [WaitQueue.updateThread_threads_self]
    exact hresult
  have hlinked : ((w.updateThread e.process awake).endWait e.process).Linked
      (before.map (·.process) ++ e.process :: after.map (·.process)) :=
    (hsound.linked.updateThread rfl rfl).updateThread rfl rfl
  have hothers : ∀ u, u ≠ e.process →
      ((((w.updateThread e.process awake).endWait e.process).msectionWqDel e.process).threads
        u).bare = (w.threads u).bare := by
    intro u hu
    rw [WaitQueue.del_bare, WaitQueue.endWait, WaitQueue.updateThread_threads_ne hu,
      WaitQueue.updateThread_threads_ne hu]
  have hreturn : ((w.updateThread e.process awake).waitReturn e.process).1 =
      ((w.updateThread e.process awake).endWait e.process).msectionWqDel e.process := by
    rw [WaitQueue.waitReturn]
    cases hcase : ((w.updateThread e.process awake).threads e.process).waitResult with
    | ok => exact absurd hcase hnot
    | cancelled | timeout => rfl
  dsimp only
  rw [hreturn]
  refine ⟨?_, WaitQueue.del_used _, hothers, ?_, ?_⟩
  · rw [List.map_append]
    refine hsound.of_bare hlinked.del (WaitQueue.del_used _) (fun u hu => ?_) fun u hu => ?_
    · rcases List.mem_append.mp hu with hu | hu
      · exact List.mem_append_left _ hu
      · exact List.mem_append_right _ (List.mem_cons_of_mem _ hu)
    · exact hothers u (ne_of_mem_of_not_mem hu hlinked.not_mem_of_del)
  · rw [WaitQueue.del_threads_self, WaitQueue.endWait, WaitQueue.updateThread_threads_self,
      WaitQueue.updateThread_threads_self]
    rfl
  · rw [WaitQueue.del_threads_self, WaitQueue.endWait, WaitQueue.updateThread_threads_self,
      WaitQueue.updateThread_threads_self]
    rfl

/-- The wait of a process ends by timeout. -/
theorem library_remove (h : SameQueues priorities inputs k w (before ++ e :: after)) :
    ∃ w', w.priorityStep (.remove e.process) = some (w', none) ∧
      w'.Sound ((before ++ after).map (·.process)) ∧ w'.nthreadsUsed = w.nthreadsUsed ∧
      (∀ u, u ≠ e.process → (w'.threads u).bare = (w.threads u).bare) ∧
      (w'.threads e.process).state = .runnable ∧
      (w'.threads e.process).priority = (w.threads e.process).priority := by
  have hwaiting : (w.threads e.process).state = .waiting := (h.waiting e (by simp)).2
  have hentering := h.library.entering e.process (by simp)
  have hwake : w.threadWakeUp e.process = some (w.updateThread e.process fun th => { th with
      state := .runnable, waitResult := .timeout }) := by
    rw [WaitQueue.threadWakeUp, if_pos hwaiting, WaitQueue.updateThread, WaitQueue.updateThread,
      if_pos hentering]
  refine ⟨_, ?_, h.library_leave (by decide : WaitResult.timeout ≠ .ok)⟩
  rw [WaitQueue.priorityStep, hwake, Option.map_some]

/-- A process that waits is stopped. -/
theorem library_stop (h : SameQueues priorities inputs k w (before ++ e :: after)) :
    ∃ w', w.priorityStep (.stop e.process) = some (w', none) ∧
      w'.Sound ((before ++ after).map (·.process)) ∧ w'.nthreadsUsed = w.nthreadsUsed ∧
      (∀ u, u ≠ e.process → (w'.threads u).bare = (w.threads u).bare) ∧
      (w'.threads e.process).state = .stopped ∧
      (w'.threads e.process).priority = (w.threads e.process).priority := by
  have hwaiting : (w.threads e.process).state = .waiting := (h.waiting e (by simp)).2
  have hcancel : w.cancelWait e.process = some (w.updateThread e.process fun th => { th with
      state := .runnable, waitResult := .cancelled }) := by
    rw [WaitQueue.cancelWait, WaitQueue.threadWakeUp, if_pos hwaiting, Option.map_some]
    simp [WaitQueue.updateThread]
  obtain ⟨hsound, hused, hothers, -, hpriority⟩ :=
    h.library_leave (by decide : WaitResult.cancelled ≠ .ok)
  refine ⟨_, by rw [WaitQueue.priorityStep, if_pos hwaiting, hcancel, Option.map_some],
    ⟨hsound.linked.updateThread rfl rfl, hsound.ids, fun u hu => ?_⟩, hused, fun u hu => ?_, ?_, ?_⟩
  · rw [WaitQueue.updateThread_threads_ne (ne_of_mem_of_not_mem hu h.not_mem_takeOut)]
    exact hsound.entering u hu
  · rw [WaitQueue.updateThread_threads_ne hu]
    exact hothers u hu
  · rw [WaitQueue.updateThread_threads_self]
  · rw [WaitQueue.updateThread_threads_self]
    exact hpriority

/-- The kernel adds a process behind those of at least its priority. -/
theorem kernel_enqueue (h : SameQueues priorities inputs k w (before ++ after))
    (hlt : t < k.nthreadsUsed) (hrunnable : (k.threads t).state = .runnable)
    (ht : t ∉ (before ++ after).map (·.process))
    (hbefore : ∀ x ∈ before, prioritiesAfter priorities inputs t ≤ x.priority)
    (hafter : ∀ x ∈ after, x.priority < prioritiesAfter priorities inputs t) :
    ∃ k', k.step (.enqueue t) = some (k', none) ∧
      k'.Holds (before.map (·.process) ++ t :: after.map (·.process)) ∧
      k'.nthreadsUsed = k.nthreadsUsed ∧ (∀ u, u ≠ t → k'.threads u = k.threads u) ∧
      k'.threads t = ⟨.waiting, (k.threads t).priority, (k.threads t).priority⟩ := by
  have hholds := h.kernel
  rw [List.map_append] at hholds ht
  let noted : PortWqThread → PortWqThread := fun th => { th with waitPriority := th.priority }
  have hnoted : (k.updateThread t noted).Holds
      (before.map (·.process) ++ after.map (·.process)) := hholds.updateThread _
  have hwait : ∀ x ∈ before ++ after,
      ((k.updateThread t noted).threads x.process).waitPriority = x.priority := by
    intro x hx
    have hne : x.process ≠ t := by
      rintro rfl
      apply ht
      rw [← List.map_append]
      exact List.mem_map_of_mem hx
    rw [PortWq.updateThread_threads_ne hne]
    exact (h.waitPriority x hx).1
  have hposition : PortWq.prioPosition k.nthreadsUsed (k.updateThread t noted)
      (k.threads t).priority ((k.updateThread t noted).next none) =
      some (after.map (·.process)).head? := by
    rw [(h.priority t).1]
    refine PortWq.prioPosition_eq hnoted.linked.next (fun x hx => ?_) (fun x hx => ?_)
      hnoted.length_le
    · obtain ⟨e, he, rfl⟩ := List.mem_map.mp hx
      rw [hwait e (List.mem_append_left _ he)]
      exact hbefore e he
    · obtain ⟨e, he, rfl⟩ := List.mem_map.mp hx
      rw [hwait e (List.mem_append_right _ he)]
      exact hafter e he
  have hadd : k.threadWqAddPrio t =
      some ((k.updateThread t noted).listAddTail t (after.map (·.process)).head?) := by
    have hself : ((k.updateThread t noted).threads t).waitPriority = (k.threads t).priority := by
      rw [PortWq.updateThread_threads_self]
    change (PortWq.prioPosition k.nthreadsUsed (k.updateThread t noted)
      ((k.updateThread t noted).threads t).waitPriority _).map _ = _
    rw [hself, hposition, Option.map_some]
  refine ⟨((k.updateThread t noted).listAddTail t (after.map (·.process)).head?).updateThread t
    fun th => { th with state := .waiting }, ?_, (hnoted.listAddTail ht hlt).updateThread _, rfl,
    fun u hu => ?_, ?_⟩
  · rw [PortWq.step, if_pos ⟨hlt, hrunnable⟩, hadd, Option.map_some]
  · rw [PortWq.updateThread_threads_ne hu]
    exact PortWq.updateThread_threads_ne hu _
  · rw [PortWq.updateThread_threads_self]
    change (⟨.waiting, ((k.updateThread t noted).threads t).priority,
      ((k.updateThread t noted).threads t).waitPriority⟩ : PortWqThread) = _
    rw [PortWq.updateThread_threads_self]

/-- The library finds the same place from the other end. -/
theorem library_enqueue (h : SameQueues priorities inputs k w (before ++ after))
    (hlt : t < w.nthreadsUsed) (hrunnable : (w.threads t).state = .runnable)
    (ht : t ∉ (before ++ after).map (·.process))
    (hbefore : ∀ x ∈ before, prioritiesAfter priorities inputs t ≤ x.priority)
    (hafter : ∀ x ∈ after, x.priority < prioritiesAfter priorities inputs t) :
    ∃ w', w.priorityStep (.enqueue t) = some (w', none) ∧
      w'.Sound (before.map (·.process) ++ t :: after.map (·.process)) ∧
      w'.nthreadsUsed = w.nthreadsUsed ∧
      (∀ u, u ≠ t → (w'.threads u).bare = (w.threads u).bare) ∧
      (w'.threads t).state = .waiting ∧ (w'.threads t).priority = (w.threads t).priority ∧
      (w'.threads t).wqPriority = (w.threads t).priority := by
  have hsound := h.library
  rw [List.map_append] at hsound ht
  have hadd := addCommon_eq (c := t) hsound (fun x hx => ?_) fun x hx => ?_
  rotate_left
  · obtain ⟨e, he, rfl⟩ := List.mem_map.mp hx
    rw [(h.priority t).2, (h.waitPriority e (List.mem_append_left _ he)).2]
    exact hbefore e he
  · obtain ⟨e, he, rfl⟩ := List.mem_map.mp hx
    rw [(h.priority t).2, (h.waitPriority e (List.mem_append_right _ he)).2]
    exact hafter e he
  have hself : ((w.link t (before.map (·.process)).getLast? (after.map (·.process)).head?).threads
      t).bare = (w.threads t).bare := WaitQueue.link_bare _ _ _
  obtain ⟨hstate, hpriority, -⟩ := fields_of_bare hself
  refine ⟨((w.link t (before.map (·.process)).getLast? (after.map (·.process)).head?).updateThread
    t fun th => { th with wqPriority := th.priority }).beginWait t, ?_,
    ⟨?_, fun u hu => ?_, fun u hu => ?_⟩, WaitQueue.link_used _ _, fun u hu => ?_, ?_, ?_, ?_⟩
  · rw [WaitQueue.priorityStep, if_pos ⟨hlt, hrunnable⟩, WaitQueue.queueAndWait, hadd,
      Option.map_some, Option.map_some]
  · exact ((hsound.linked.link ht).updateThread rfl rfl).updateThread rfl rfl
  · simp only [List.mem_append, List.mem_cons] at hu
    change u < (w.link t _ _).nthreadsUsed
    rw [WaitQueue.link_used]
    rcases hu with hu | rfl | hu
    · exact hsound.ids u (List.mem_append_left _ hu)
    · exact hlt
    · exact hsound.ids u (List.mem_append_right _ hu)
  · by_cases hut : u = t
    · subst hut
      rw [WaitQueue.beginWait, WaitQueue.updateThread_threads_self]
    · rw [WaitQueue.beginWait, WaitQueue.updateThread_threads_ne hut,
        WaitQueue.updateThread_threads_ne hut]
      have hbare : ((w.link t (before.map (·.process)).getLast?
          (after.map (·.process)).head?).threads u).bare = (w.threads u).bare :=
        WaitQueue.link_bare _ _ _
      rw [(WaitQueue.state_of_bare hbare).2.1]
      simp only [List.mem_append, List.mem_cons] at hu
      exact hsound.entering u (List.mem_append.mpr (by tauto))
  · rw [WaitQueue.beginWait, WaitQueue.updateThread_threads_ne hu,
      WaitQueue.updateThread_threads_ne hu, WaitQueue.link_bare]
  · rw [WaitQueue.beginWait, WaitQueue.updateThread_threads_self]
  · rw [WaitQueue.beginWait, WaitQueue.updateThread_threads_self,
      WaitQueue.updateThread_threads_self]
    exact hpriority
  · rw [WaitQueue.beginWait, WaitQueue.updateThread_threads_self,
      WaitQueue.updateThread_threads_self]
    exact hpriority

theorem step_enqueue (h : SameQueues priorities inputs k w l) (hlt : t < k.nthreadsUsed)
    (hrunnable : (k.threads t).state = .runnable) :
    ∃ k' w' l', k.step (.enqueue t) = some (k', none) ∧
      w.priorityStep (.enqueue t) = some (w', none) ∧
      SameQueues priorities (inputs ++ [.enqueue t]) k' w' l' := by
  have ht : t ∉ l.map (·.process) := by
    intro hmem
    obtain ⟨e, he, rfl⟩ := List.mem_map.mp hmem
    rw [(h.waiting e he).1] at hrunnable
    cases hrunnable
  have hrunnable' := (h.outside t ht).2.trans hrunnable
  obtain ⟨before, after, rfl, hbefore, hafter⟩ :=
    split_priority h.sorted (prioritiesAfter priorities inputs t)
  obtain ⟨k', hk, hholds, hkused, hkothers, hkself⟩ :=
    h.kernel_enqueue hlt hrunnable ht hbefore hafter
  obtain ⟨w', hw, hsound, hwused, hwothers, hwstate, hwpriority, hwwait⟩ :=
    h.library_enqueue (h.used ▸ hlt) hrunnable' ht hbefore hafter
  let e : PriorityEntry := ⟨t, prioritiesAfter priorities inputs t, inputs.length⟩
  have hne : ∀ x ∈ before ++ after, x.process ≠ t := by
    rintro x hx rfl
    exact ht (List.mem_map_of_mem hx)
  have hmem : ∀ x ∈ before ++ e :: after, x ∈ before ++ after ∨ x = e := by
    intro x hx
    simp only [List.mem_append, List.mem_cons] at hx ⊢
    tauto
  have hsame : prioritiesAfter priorities (inputs ++ [.enqueue t]) =
      prioritiesAfter priorities inputs := prioritiesAfter_append _
  have hmap : (before ++ e :: after).map (·.process) =
      before.map (·.process) ++ t :: after.map (·.process) := by
    rw [List.map_append, List.map_cons]
  refine ⟨k', w', before ++ e :: after, hk, hw, ⟨hmap ▸ hholds, hmap ▸ hsound, ?_, ?_,
    fun x hx => ?_, fun x hx => ?_, fun u => ?_, fun x hx => ?_, fun u hu => ?_⟩⟩
  · rw [hkused, hwused, h.used]
  · exact sorted_insert h.sorted hbefore hafter fun x hx =>
      recorded_lt (h.recorded x (List.mem_append_left _ hx))
  · rcases hmem x hx with hx | rfl
    · refine recorded_snoc (h.recorded x hx) fun he => hne x hx ?_
      exact (PriorityInput.enqueue.inj he).symm
    · exact recorded_new
  · rcases hmem x hx with hx | rfl
    · rw [hkothers _ (hne x hx), (fields_of_bare (hwothers _ (hne x hx))).2.2]
      exact h.waitPriority x hx
    · rw [hkself, hwwait]
      exact h.priority t
  · rw [hsame]
    by_cases hu : u = t
    · subst hu
      rw [hkself, hwpriority]
      exact h.priority u
    · rw [hkothers u hu, (fields_of_bare (hwothers u hu)).2.1]
      exact h.priority u
  · rcases hmem x hx with hx | rfl
    · rw [hkothers _ (hne x hx), (fields_of_bare (hwothers _ (hne x hx))).1]
      exact h.waiting x hx
    · rw [hkself]
      exact ⟨rfl, hwstate⟩
  · rw [hmap] at hu
    simp only [List.mem_append, List.mem_cons, not_or] at hu
    rw [hkothers u hu.2.1, (fields_of_bare (hwothers u hu.2.1)).1]
    apply h.outside u
    rw [List.map_append, List.mem_append, not_or]
    exact ⟨hu.1, hu.2.2⟩

theorem step_wakeUp (h : SameQueues priorities inputs k w l) :
    ∃ k' w' woken l', k.step .wakeUp = some (k', woken) ∧
      w.priorityStep .wakeUp = some (w', woken) ∧
      SameQueues priorities (inputs ++ [.wakeUp]) k' w' l' := by
  cases l with
  | nil =>
    have hfirst : w.first = none := h.library.linked.first_eq
    have hnext : k.next none = none := h.kernel.linked.first_eq
    have hnotify : w.jetMsectionWqNotify false = some (w, false) := by
      rw [WaitQueue.jetMsectionWqNotify, hfirst]
      cases w.nthreadsUsed <;> rfl
    refine ⟨k, w, none, [], ?_, ?_, h.kernel, h.library, h.used, h.sorted, by simp, by simp,
      fun u => ?_, by simp, h.outside⟩
    · rw [PortWq.step, PortWq.threadWqWakeUp, hnext]
    · rw [WaitQueue.priorityStep, hnotify]
      rfl
    · rw [prioritiesAfter_append]
      exact h.priority u
  | cons e after =>
    have hnext : k.next none = some e.process := h.kernel.linked.first_eq
    have hsplit : SameQueues priorities inputs k w ([] ++ e :: after) := h
    obtain ⟨k', -, hk, hholds, hkused, hkothers, hkself⟩ := hsplit.kernel_takeOut
    obtain ⟨w', hw, hsound, hwused, hwothers, hwself⟩ := h.library_wakeUp
    refine ⟨k', w', some e.process, after, ?_, hw, ?_⟩
    · rw [PortWq.step, PortWq.threadWqWakeUp, hnext]
      dsimp only
      rw [hk, Option.map_some]
    · exact hsplit.takeOut (by decide) (by simp) (prioritiesAfter_append _) hholds hkused hkothers
        hkself hsound hwused hwothers hwself

theorem step_remove (h : SameQueues priorities inputs k w l)
    (hwaiting : (k.threads t).state = .waiting) :
    ∃ k' w' l', k.step (.remove t) = some (k', none) ∧
      w.priorityStep (.remove t) = some (w', none) ∧
      SameQueues priorities (inputs ++ [.remove t]) k' w' l' := by
  have ht : t ∈ l.map (·.process) := by
    by_contra hnot
    exact (h.outside t hnot).1 hwaiting
  obtain ⟨e, he, rfl⟩ := List.mem_map.mp ht
  obtain ⟨before, after, rfl⟩ := List.append_of_mem he
  obtain ⟨k', hk, -, hholds, hkused, hkothers, hkself⟩ := h.kernel_takeOut
  obtain ⟨w', hw, hsound, hwused, hwothers, hwself⟩ := h.library_remove
  refine ⟨k', w', before ++ after, ?_, hw, ?_⟩
  · rw [PortWq.step, hk, Option.map_some]
  · exact h.takeOut (by decide) (by simp) (prioritiesAfter_append _) hholds hkused hkothers hkself
      hsound hwused hwothers hwself

/-- A process that is in no queue comes to run, or is stopped. -/
theorem setState (h : SameQueues priorities inputs k w l) (ht : t ∉ l.map (·.process))
    {state : ThreadState} (hstate : state ≠ .waiting) (hinput : ∀ u, input ≠ .enqueue u)
    (hpriorities : prioritiesAfter priorities (inputs ++ [input]) = prioritiesAfter priorities inputs) :
    SameQueues priorities (inputs ++ [input]) (k.updateThread t fun th => { th with state })
      (w.updateThread t fun th => { th with state }) l := by
  have hne : ∀ e ∈ l, e.process ≠ t := by
    rintro e he rfl
    exact ht (List.mem_map_of_mem he)
  refine ⟨h.kernel.updateThread _, ⟨h.library.linked.updateThread rfl rfl, h.library.ids, ?_⟩,
    h.used, h.sorted, fun e he => recorded_snoc (h.recorded e he) (hinput _), fun e he => ?_,
    fun u => ?_, fun e he => ?_, fun u hu => ?_⟩
  · intro u hu
    rw [WaitQueue.updateThread_threads_ne (ne_of_mem_of_not_mem hu ht)]
    exact h.library.entering u hu
  · rw [PortWq.updateThread_threads_ne (hne e he), WaitQueue.updateThread_threads_ne (hne e he)]
    exact h.waitPriority e he
  · rw [hpriorities]
    by_cases hu : u = t
    · subst hu
      rw [PortWq.updateThread_threads_self, WaitQueue.updateThread_threads_self]
      exact h.priority u
    · rw [PortWq.updateThread_threads_ne hu, WaitQueue.updateThread_threads_ne hu]
      exact h.priority u
  · rw [PortWq.updateThread_threads_ne (hne e he), WaitQueue.updateThread_threads_ne (hne e he)]
    exact h.waiting e he
  · by_cases hut : u = t
    · subst hut
      rw [PortWq.updateThread_threads_self, WaitQueue.updateThread_threads_self]
      exact ⟨hstate, rfl⟩
    · rw [PortWq.updateThread_threads_ne hut, WaitQueue.updateThread_threads_ne hut]
      exact h.outside u hu

theorem step_stop (h : SameQueues priorities inputs k w l)
    (hrunning : (k.threads t).state ≠ .stopped) :
    ∃ k' w' l', k.step (.stop t) = some (k', none) ∧ w.priorityStep (.stop t) = some (w', none) ∧
      SameQueues priorities (inputs ++ [.stop t]) k' w' l' := by
  let stopped : PortWqThread → PortWqThread := fun th => { th with state := .stopped }
  have hkernel : k.step (.stop t) = some ((k.updateThread t stopped).listDelInit t, none) := by
    rw [PortWq.step, PortWq.threadStop, if_pos hrunning, Option.map_some]
    rfl
  by_cases ht : t ∈ l.map (·.process)
  · obtain ⟨e, he, rfl⟩ := List.mem_map.mp ht
    obtain ⟨before, after, rfl⟩ := List.append_of_mem he
    obtain ⟨w', hw, hsound, hwused, hwothers, hwself⟩ := h.library_stop
    have hholds := h.kernel.updateThread (t := e.process) stopped
    rw [List.map_append, List.map_cons] at hholds
    have hself : (k.updateThread e.process stopped).threads e.process =
        { k.threads e.process with state := .stopped } := PortWq.updateThread_threads_self _
    refine ⟨_, w', before ++ after, hkernel, hw, h.takeOut (by decide : ThreadState.stopped ≠ .waiting)
      (by simp) (prioritiesAfter_append _) ?_ rfl (fun u hu => PortWq.updateThread_threads_ne hu _)
      hself hsound hwused hwothers hwself⟩
    rw [List.map_append]
    exact hholds.listDelInit
  · have hsame : SameQueues priorities (inputs ++ [.stop t]) (k.updateThread t stopped)
        (w.updateThread t fun th => { th with state := .stopped }) l :=
      h.setState ht (by decide) (by simp) (prioritiesAfter_append _)
    rw [(h.kernel.updateThread (t := t) stopped).listDelInit_outside ht] at hkernel
    have hrunnable : (k.threads t).state = .runnable := by
      have hnot := (h.outside t ht).1
      cases hstate : (k.threads t).state with
      | runnable => rfl
      | stopped => exact absurd hstate hrunning
      | waiting => exact absurd hstate hnot
    have hlibrary : (w.threads t).state = .runnable := (h.outside t ht).2.trans hrunnable
    refine ⟨_, _, l, hkernel, ?_, hsame⟩
    rw [WaitQueue.priorityStep, if_neg (by rw [hlibrary]; decide), if_pos hlibrary]

theorem step_start (h : SameQueues priorities inputs k w l)
    (hstopped : (k.threads t).state = .stopped) :
    ∃ k' w', k.step (.start t) = some (k', none) ∧ w.priorityStep (.start t) = some (w', none) ∧
      SameQueues priorities (inputs ++ [.start t]) k' w' l := by
  have ht : t ∉ l.map (·.process) := by
    intro hmem
    obtain ⟨e, he, rfl⟩ := List.mem_map.mp hmem
    rw [(h.waiting e he).1] at hstopped
    cases hstopped
  have hlibrary : (w.threads t).state = .stopped := (h.outside t ht).2.trans hstopped
  refine ⟨_, _, ?_, ?_, h.setState ht (by decide : ThreadState.runnable ≠ .waiting) (by simp)
    (prioritiesAfter_append _)⟩
  · rw [PortWq.step, PortWq.threadStart, if_pos hstopped, Option.map_some]
  · rw [WaitQueue.priorityStep, if_pos hlibrary]

theorem step_same (h : SameQueues priorities inputs k w l) (hpossible : k.Possible input) :
    ∃ k' w' woken l', k.step input = some (k', woken) ∧
      w.priorityStep input = some (w', woken) ∧
      SameQueues priorities (inputs ++ [input]) k' w' l' := by
  cases input with
  | enqueue t =>
    obtain ⟨k', w', l', hk, hw, hsame⟩ := h.step_enqueue hpossible.1 hpossible.2
    exact ⟨k', w', none, l', hk, hw, hsame⟩
  | wakeUp => exact h.step_wakeUp
  | remove t =>
    obtain ⟨k', w', l', hk, hw, hsame⟩ := h.step_remove hpossible
    exact ⟨k', w', none, l', hk, hw, hsame⟩
  | stop t =>
    obtain ⟨k', w', l', hk, hw, hsame⟩ := h.step_stop hpossible
    exact ⟨k', w', none, l', hk, hw, hsame⟩
  | start t =>
    obtain ⟨k', w', hk, hw, hsame⟩ := h.step_start hpossible
    exact ⟨k', w', none, l, hk, hw, hsame⟩
  | setPriority t priority =>
    obtain ⟨k', w', hk, hw, hsame⟩ := h.step_setPriority t priority
    exact ⟨k', w', none, l, hk, hw, hsame⟩

theorem init (priorities : Nat → Nat) (nthreadsUsed : Nat) :
    SameQueues priorities [] (PortWq.init priorities nthreadsUsed)
      (WaitQueue.init priorities nthreadsUsed) [] where
  kernel := ⟨⟨.nil, rfl, rfl⟩, by simp, fun _ _ => ⟨rfl, rfl⟩⟩
  library := ⟨⟨.nil, rfl, rfl⟩, by simp, by simp⟩
  used := rfl
  sorted := .nil
  recorded := by simp
  waitPriority := by simp
  priority _ := ⟨rfl, rfl⟩
  waiting := by simp
  outside _ _ := ⟨by simp [PortWq.init], rfl⟩

theorem run_same {rest : List PriorityInput} (woken : List (Option Nat))
    (h : SameQueues priorities inputs k w l)
    (hpossible : Run.Meets (fun k input => (k.step input).map Prod.fst) PortWq.Possible k rest) :
    ∃ k' w' woken' l', Run.exec (Run.record PortWq.step) (k, woken) rest = some (k', woken') ∧
      Run.exec (Run.record WaitQueue.priorityStep) (w, woken) rest = some (w', woken') ∧
      SameQueues priorities (inputs ++ rest) k' w' l' := by
  induction rest generalizing inputs k w l woken with
  | nil => exact ⟨k, w, woken, l, rfl, rfl, by simpa using h⟩
  | cons input rest ih =>
    obtain ⟨hinput, hrest⟩ := hpossible
    obtain ⟨k₁, w₁, t, l₁, hk, hw, hsame⟩ := h.step_same hinput
    obtain ⟨k', w', woken', l', hk', hw', hsame'⟩ :=
      ih (woken ++ [t]) hsame (hrest k₁ (by simp [hk]))
    refine ⟨k', w', woken', l', ?_, ?_, by simpa using hsame'⟩
    · exact Run.exec_cons.mpr ⟨(k₁, woken ++ [t]), by rw [Run.record, hk, Option.map_some], hk'⟩
    · exact Run.exec_cons.mpr ⟨(w₁, woken ++ [t]), by rw [Run.record, hw, Option.map_some], hw'⟩

end SameQueues

/-- Whatever comes, both queues wake up the same processes and hold the same ones in the same
order, and the same process is the first one. -/
theorem priority_queues_agree (priorities : Nat → Nat) (nthreadsUsed : Nat)
    (inputs : List PriorityInput)
    (hpossible : Run.Meets (fun k input => (k.step input).map Prod.fst) PortWq.Possible
      (PortWq.init priorities nthreadsUsed) inputs) :
    ∃ k w woken l,
      Run.exec (Run.record PortWq.step) (PortWq.init priorities nthreadsUsed, []) inputs =
        some (k, woken) ∧
      Run.exec (Run.record WaitQueue.priorityStep) (WaitQueue.init priorities nthreadsUsed, [])
        inputs = some (w, woken) ∧
      SameQueues priorities inputs k w l ∧ k.next none = w.first := by
  obtain ⟨k, w, woken, l, hk, hw, hsame⟩ :=
    (SameQueues.init priorities nthreadsUsed).run_same [] hpossible
  refine ⟨k, w, woken, l, hk, hw, hsame, ?_⟩
  rw [hsame.library.linked.first_eq]
  exact hsame.kernel.linked.first_eq

/-- Two of three processes have the same priority, and one is raised while it waits. -/
theorem priority_queues_agree_three :
    ∃ k w woken l,
      Run.exec (Run.record PortWq.step) (PortWq.init (fun _ => 5) 3, [])
        [.setPriority 1 7, .enqueue 0, .enqueue 1, .enqueue 2, .setPriority 2 9, .wakeUp] =
        some (k, woken) ∧
      Run.exec (Run.record WaitQueue.priorityStep) (WaitQueue.init (fun _ => 5) 3, [])
        [.setPriority 1 7, .enqueue 0, .enqueue 1, .enqueue 2, .setPriority 2 9, .wakeUp] =
        some (w, woken) ∧
      SameQueues (fun _ => 5)
        [.setPriority 1 7, .enqueue 0, .enqueue 1, .enqueue 2, .setPriority 2 9, .wakeUp] k w l ∧
      k.next none = w.first := by
  exact priority_queues_agree _ _ _ (by decide)

end Chpok
