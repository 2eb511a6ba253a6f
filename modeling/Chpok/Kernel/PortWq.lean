import Chpok.Kernel.Msection
import Chpok.Library.LinkedList
import Chpok.Library.Run
import Mathlib.Data.List.Perm.Subperm

/-! The wait queue of a port (`kernel/core/thread.c`), as the circular list that it is
(`kernel/include/list.h`). A place is a `struct list_head`: `none` is the one of the queue, a
thread stands for its `wait_elem`. A failed assertion has no result. -/

namespace Chpok

/-- What the queue knows of `pok_thread_t` -/
structure PortWqThread where
  state : ThreadState
  priority : Nat
  waitPriority : Nat
  deriving DecidableEq, Repr

/-- `pok_thread_wq_t`, with the threads of the partition -/
structure PortWq where
  next : Option Nat → Option Nat
  prev : Option Nat → Option Nat
  threads : Nat → PortWqThread
  nthreadsUsed : Nat

/-- What happens to processes and to the queue that they wait in -/
inductive PriorityInput where
  | enqueue (thread : Nat)
  | wakeUp
  | remove (thread : Nat)
  | stop (thread : Nat)
  | start (thread : Nat)
  | setPriority (thread priority : Nat)
  deriving DecidableEq, Repr

namespace PortWq

def updateThread (q : PortWq) (t : Nat) (f : PortWqThread → PortWqThread) : PortWq :=
  { q with threads := Function.update q.threads t (f (q.threads t)) }

/-- `__list_add` -/
def listAdd (q : PortWq) (new prev next : Option Nat) : PortWq :=
  { q with
    prev := Function.update (Function.update q.prev next new) new prev
    next := Function.update (Function.update q.next new next) prev new }

/-- `list_add_tail` -/
def listAddTail (q : PortWq) (t : Nat) (place : Option Nat) : PortWq :=
  q.listAdd (some t) (q.prev place) place

/-- `list_del_init` -/
def listDelInit (q : PortWq) (t : Nat) : PortWq :=
  { q with
    prev := Function.update (Function.update q.prev (q.next (some t)) (q.prev (some t)))
      (some t) (some t)
    next := Function.update (Function.update q.next (q.prev (some t)) (q.next (some t)))
      (some t) (some t) }

/-- The loop of `pok_thread_wq_add_prio`: the place before which the thread is added -/
def prioPosition : Nat → PortWq → Nat → Option Nat → Option (Option Nat)
  | _, _, _, none => some none
  | 0, _, _, some _ => none
  | fuel + 1, q, priority, some other =>
    if (q.threads other).waitPriority < priority then some (some other)
    else prioPosition fuel q priority (q.next (some other))

/-- `pok_thread_wq_add_prio`. A well-formed queue has at most as many threads as there are. -/
def threadWqAddPrio (q : PortWq) (t : Nat) : Option PortWq :=
  let q := q.updateThread t fun th => { th with waitPriority := th.priority }
  (prioPosition q.nthreadsUsed q (q.threads t).waitPriority (q.next none)).map (q.listAddTail t)

/-- `pok_thread_wq_remove` -/
def threadWqRemove (q : PortWq) (t : Nat) : PortWq := q.listDelInit t

/-- `thread_wake_up`. A thread that is still in the queue is taken out. -/
def threadWakeUp (q : PortWq) (t : Nat) : Option PortWq :=
  if (q.threads t).state = .waiting then
    let q := q.updateThread t fun th => { th with state := .runnable }
    some (if q.next (some t) = some t then q else q.listDelInit t)
  else none

/-- `pok_thread_wq_wake_up`, and the thread -/
def threadWqWakeUp (q : PortWq) : Option (PortWq × Option Nat) :=
  match q.next none with
  | none => some (q, none)
  | some t => ((q.listDelInit t).threadWakeUp t).map fun q => (q, some t)

/-- `thread_stop`. The thread may be in the queue or not. -/
def threadStop (q : PortWq) (t : Nat) : Option PortWq :=
  if (q.threads t).state ≠ .stopped then
    some ((q.updateThread t fun th => { th with state := .stopped }).threadWqRemove t)
  else none

/-- `thread_start` -/
def threadStart (q : PortWq) (t : Nat) : Option PortWq :=
  if (q.threads t).state = .stopped then
    some (q.updateThread t fun th => { th with state := .runnable })
  else none

/-- A thread that runs comes to wait, the first one is woken up, the wait of a thread ends by
timeout, a thread is stopped or started, or a priority is set. -/
def step (q : PortWq) : PriorityInput → Option (PortWq × Option Nat)
  | .enqueue t =>
    if t < q.nthreadsUsed ∧ (q.threads t).state = .runnable then
      (q.threadWqAddPrio t).map fun q =>
        (q.updateThread t fun th => { th with state := .waiting }, none)
    else none
  | .wakeUp => q.threadWqWakeUp
  | .remove t => (q.threadWakeUp t).map fun q => (q, none)
  | .stop t => (q.threadStop t).map fun q => (q, none)
  | .start t => (q.threadStart t).map fun q => (q, none)
  | .setPriority t priority =>
    some (q.updateThread t fun th => { th with priority := priority }, none)

/-- What a thread must be for the input to come: it runs when it comes to wait, waits when its wait
ends by timeout, and is stopped only once. -/
def Possible (q : PortWq) : PriorityInput → Prop
  | .enqueue t => t < q.nthreadsUsed ∧ (q.threads t).state = .runnable
  | .remove t => (q.threads t).state = .waiting
  | .stop t => (q.threads t).state ≠ .stopped
  | .start t => (q.threads t).state = .stopped
  | .wakeUp | .setPriority _ _ => True

instance (q : PortWq) : DecidablePred q.Possible
  | .enqueue t => inferInstanceAs (Decidable (t < q.nthreadsUsed ∧ (q.threads t).state = .runnable))
  | .remove t => inferInstanceAs (Decidable ((q.threads t).state = .waiting))
  | .stop t => inferInstanceAs (Decidable ((q.threads t).state ≠ .stopped))
  | .start t => inferInstanceAs (Decidable ((q.threads t).state = .stopped))
  | .wakeUp => inferInstanceAs (Decidable True)
  | .setPriority _ _ => inferInstanceAs (Decidable True)

/-- `pok_thread_wq_init`, and threads that run and wait for nothing -/
def init (priorities : Nat → Nat) (nthreadsUsed : Nat) : PortWq :=
  ⟨id, id, fun t => ⟨.runnable, priorities t, 0⟩, nthreadsUsed⟩

/-- The threads of the list are in the queue, in that order; the others are linked to
themselves. -/
structure Holds (q : PortWq) (l : List Nat) : Prop where
  linked : LinkedList.Linked q.next q.prev l
  ids : ∀ t ∈ l, t < q.nthreadsUsed
  outside : ∀ t ∉ l, q.next (some t) = some t ∧ q.prev (some t) = some t

variable {q : PortWq} {t u c : Nat} {l before after : List Nat} {priority : Nat}

@[simp] theorem updateThread_threads_self (f : PortWqThread → PortWqThread) :
    (q.updateThread t f).threads t = f (q.threads t) := Function.update_self ..

theorem updateThread_threads_ne (hne : u ≠ t) (f : PortWqThread → PortWqThread) :
    (q.updateThread t f).threads u = q.threads u := Function.update_of_ne hne ..

theorem Holds.updateThread (h : q.Holds l) (f : PortWqThread → PortWqThread) :
    (q.updateThread t f).Holds l := ⟨h.linked, h.ids, h.outside⟩

theorem Holds.length_le (h : q.Holds l) : l.length ≤ q.nthreadsUsed := by
  have hsub : l ⊆ List.range q.nthreadsUsed := fun t ht => List.mem_range.mpr (h.ids t ht)
  have hle := (List.Nodup.subperm h.linked.nodup hsub).length_le
  rwa [List.length_range] at hle

theorem Holds.listAddTail (h : q.Holds (before ++ after)) (hc : c ∉ before ++ after)
    (hlt : c < q.nthreadsUsed) :
    (q.listAddTail c after.head?).Holds (before ++ c :: after) := by
  have hprev : q.prev after.head? = before.getLast? := by
    cases after with
    | nil => simpa using h.linked.last_eq
    | cons y after => exact h.linked.prev_eq
  have hhead : after.head? ≠ some c := fun he => hc (by simp [List.mem_of_head? he])
  have hlast : before.getLast? ≠ some c := fun he => hc (by simp [List.mem_of_getLast? he])
  have hlinked := h.linked.insert hc
  rw [Function.update_comm hhead.symm] at hlinked
  refine ⟨?_, fun t ht => ?_, fun t ht => ?_⟩
  · rw [PortWq.listAddTail, hprev]
    exact hlinked
  · simp only [List.mem_append, List.mem_cons] at ht
    rcases ht with ht | rfl | ht
    · exact h.ids t (List.mem_append_left _ ht)
    · exact hlt
    · exact h.ids t (List.mem_append_right _ ht)
  · simp only [List.mem_append, List.mem_cons, not_or] at ht
    obtain ⟨hnext, hself⟩ := h.outside t (by simp [ht.1, ht.2.2])
    have hend : some t ≠ before.getLast? := fun he => ht.1 (List.mem_of_getLast? he.symm)
    have hstart : some t ≠ after.head? := fun he => ht.2.2 (List.mem_of_head? he.symm)
    rw [PortWq.listAddTail, hprev]
    constructor
    · change Function.update (Function.update q.next (some c) after.head?) before.getLast? (some c)
        (some t) = some t
      rw [Function.update_of_ne hend, LinkedList.update_some_ne ht.2.1, hnext]
    · change Function.update (Function.update q.prev after.head? (some c)) (some c) before.getLast?
        (some t) = some t
      rw [LinkedList.update_some_ne ht.2.1, Function.update_of_ne hstart, hself]

theorem Holds.listDelInit (h : q.Holds (before ++ t :: after)) :
    (q.listDelInit t).Holds (before ++ after) := by
  have hnext := h.linked.next_eq
  have hprev := h.linked.prev_eq
  refine ⟨?_, fun u hu => h.ids u ?_, fun u hu => ?_⟩
  · rw [PortWq.listDelInit, hnext, hprev]
    exact h.linked.erase (some t) (some t)
  · simp only [List.mem_append, List.mem_cons] at hu ⊢
    tauto
  · rw [PortWq.listDelInit, hnext, hprev]
    by_cases hut : u = t
    · subst hut
      exact ⟨Function.update_self .., Function.update_self ..⟩
    · simp only [List.mem_append, not_or] at hu
      obtain ⟨hnext, hself⟩ := h.outside u (by simp [hu.1, hut, hu.2])
      have hend : some u ≠ before.getLast? := fun he => hu.1 (List.mem_of_getLast? he.symm)
      have hstart : some u ≠ after.head? := fun he => hu.2 (List.mem_of_head? he.symm)
      constructor
      · change Function.update (Function.update q.next before.getLast? after.head?) (some t) (some t)
          (some u) = some u
        rw [LinkedList.update_some_ne hut, Function.update_of_ne hend, hnext]
      · change Function.update (Function.update q.prev after.head? before.getLast?) (some t) (some t)
          (some u) = some u
        rw [LinkedList.update_some_ne hut, Function.update_of_ne hstart, hself]

/-- A thread that is in no queue is taken out of none. -/
theorem Holds.listDelInit_outside (h : q.Holds l) (ht : t ∉ l) : q.listDelInit t = q := by
  obtain ⟨hnext, hprev⟩ := h.outside t ht
  rw [PortWq.listDelInit, hnext, hprev]
  have hnext' : Function.update q.next (some t) (some t) = q.next :=
    Function.update_eq_self_iff.mpr hnext.symm
  have hprev' : Function.update q.prev (some t) (some t) = q.prev :=
    Function.update_eq_self_iff.mpr hprev.symm
  rw [hnext', hprev', hnext', hprev']

theorem prioPosition_eq {fuel : Nat} {place : Option Nat}
    (hpath : LinkedList.Path q.next place (before ++ after) none)
    (hbefore : ∀ x ∈ before, priority ≤ (q.threads x).waitPriority)
    (hafter : ∀ x ∈ after, (q.threads x).waitPriority < priority)
    (hfuel : (before ++ after).length ≤ fuel) :
    prioPosition fuel q priority (q.next place) = some after.head? := by
  induction before generalizing place fuel with
  | nil =>
    cases after with
    | nil =>
      have hend : q.next place = none := hpath
      rw [hend]
      cases fuel <;> rfl
    | cons y after =>
      obtain ⟨fuel, rfl⟩ := Nat.exists_eq_succ_of_ne_zero (Nat.ne_zero_of_lt hfuel)
      rw [hpath.1, prioPosition, if_pos (hafter y List.mem_cons_self)]
      rfl
  | cons x before ih =>
    obtain ⟨fuel, rfl⟩ := Nat.exists_eq_succ_of_ne_zero (Nat.ne_zero_of_lt hfuel)
    have hx := hbefore x List.mem_cons_self
    rw [hpath.1, prioPosition, if_neg (Nat.not_lt.mpr hx)]
    exact ih hpath.2 (fun y hy => hbefore y (List.mem_cons_of_mem _ hy))
      (Nat.le_of_succ_le_succ hfuel)

end PortWq

end Chpok
