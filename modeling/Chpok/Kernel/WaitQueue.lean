import Chpok.Kernel.Msection

/-! Wait queues that are protected by a section: the operations of user code
(`libpok/core/msection.c`) and those of the kernel (`kernel/core/thread.c`) on the same
links. A pointer to a link is the place it is at; `none` stands for the two fields of the
queue itself. A failed assertion has no result. -/

namespace Chpok

/-- What a wait queue knows of `pok_thread_t` and `jet_thread_shared_data`; `entering` says
that `msection_entering` is the section of the queue. -/
structure WqThread where
  state : ThreadState
  entering : Bool
  waitResult : WaitResult
  wqNext : Option Nat
  wqPrev : Option Nat
  priority : Nat
  wqPriority : Nat
  deriving DecidableEq, Repr

/-- `struct msection_wq`, with the threads of the partition -/
structure WaitQueue where
  threads : Nat → WqThread
  nthreadsUsed : Nat
  first : Option Nat
  last : Option Nat

namespace WaitQueue

def updateThread (w : WaitQueue) (t : Nat) (f : WqThread → WqThread) : WaitQueue :=
  { w with threads := Function.update w.threads t (f (w.threads t)) }

def nextOf (w : WaitQueue) : Option Nat → Option Nat
  | none => w.first
  | some t => (w.threads t).wqNext

def prevOf (w : WaitQueue) : Option Nat → Option Nat
  | none => w.last
  | some t => (w.threads t).wqPrev

def setNext (w : WaitQueue) (place value : Option Nat) : WaitQueue :=
  match place with
  | none => { w with first := value }
  | some t => w.updateThread t fun th => { th with wqNext := value }

def setPrev (w : WaitQueue) (place value : Option Nat) : WaitQueue :=
  match place with
  | none => { w with last := value }
  | some t => w.updateThread t fun th => { th with wqPrev := value }

/-- The end of `msection_wq_add` and of `msection_wq_add_after`. -/
def link (w : WaitQueue) (current : Nat) (prev next : Option Nat) : WaitQueue :=
  ((w.updateThread current fun th => { th with wqNext := next, wqPrev := prev }).setNext
    prev (some current)).setPrev next (some current)

/-- `msection_wq_add` -/
def msectionWqAdd (w : WaitQueue) (current : Nat) (next : Option Nat) : WaitQueue :=
  w.link current (w.prevOf next) next

/-- `msection_wq_add_after` -/
def msectionWqAddAfter (w : WaitQueue) (current : Nat) (prev : Option Nat) : WaitQueue :=
  w.link current prev (w.nextOf prev)

/-- `msection_wq_del` of user code -/
def msectionWqDel (w : WaitQueue) (t : Nat) : WaitQueue :=
  ((w.setPrev (w.threads t).wqNext (w.threads t).wqPrev).setNext
    (w.threads t).wqPrev (w.threads t).wqNext).updateThread t
      fun th => { th with wqNext := none, wqPrev := none }

/-- `assert_thread_id`, for a link that is not `JET_THREAD_ID_NONE` -/
def IsThreadId (w : WaitQueue) (link : Option Nat) : Prop := ∀ t, link = some t → t < w.nthreadsUsed

instance (w : WaitQueue) (link : Option Nat) : Decidable (w.IsThreadId link) :=
  decidable_of_iff (∀ t ∈ link, t < w.nthreadsUsed) Iff.rfl

/-- `msection_wq_del` of the kernel -/
def kernelMsectionWqDel (w : WaitQueue) (t : Nat) : Option WaitQueue :=
  if w.IsThreadId (w.threads t).wqNext ∧ w.IsThreadId (w.threads t).wqPrev then
    some (w.msectionWqDel t)
  else none

/-- `thread_wake_up` -/
def threadWakeUp (w : WaitQueue) (t : Nat) : Option WaitQueue :=
  if (w.threads t).state = .waiting then
    some (w.updateThread t fun th => { th with
      state := .runnable
      waitResult := if th.entering then .timeout else th.waitResult })
  else none

/-- The wait is ended by a notification. -/
def wakeNotified (w : WaitQueue) (t : Nat) : Option WaitQueue :=
  (w.threadWakeUp t).map (·.updateThread t fun th => { th with waitResult := .ok })

/-- `pok_thread_stop_target` for a thread that waits on the section -/
def cancelWait (w : WaitQueue) (t : Nat) : Option WaitQueue :=
  (w.threadWakeUp t).map (·.updateThread t fun th => { th with waitResult := .cancelled })

/-- The loop of `jet_msection_wq_notify`, and whether it has notified a thread. -/
def wqNotify : Nat → WaitQueue → Option Nat → Bool → Option (WaitQueue × Bool)
  | _, w, none, _ => some (w, false)
  | 0, _, some _, _ => none
  | fuel + 1, w, some t, isAll =>
    if t < w.nthreadsUsed ∧ (w.threads t).entering then
      if (w.threads t).state ≠ .waiting then
        (w.kernelMsectionWqDel t).bind fun r => wqNotify fuel r (w.threads t).wqNext isAll
      else
        (w.wakeNotified t).bind fun r =>
          if isAll then (wqNotify fuel r (w.threads t).wqNext isAll).map fun q => (q.1, true)
          else some (r, true)
    else none

/-- `jet_msection_wq_notify`. A well-formed queue has at most as many threads as there are. -/
def jetMsectionWqNotify (w : WaitQueue) (isAll : Bool) : Option (WaitQueue × Bool) :=
  wqNotify w.nthreadsUsed w w.first isAll

/-- The loop of `jet_msection_wq_size` -/
def wqSize : Nat → WaitQueue → Option Nat → Nat → Option (WaitQueue × Nat)
  | _, w, none, count => some (w, count)
  | 0, _, some _, _ => none
  | fuel + 1, w, some t, count =>
    if t < w.nthreadsUsed ∧ (w.threads t).entering then
      if (w.threads t).state ≠ .waiting then
        (w.kernelMsectionWqDel t).bind fun r => wqSize fuel r (w.threads t).wqNext count
      else wqSize fuel w (w.threads t).wqNext (count + 1)
    else none

/-- `jet_msection_wq_size` -/
def jetMsectionWqSize (w : WaitQueue) : Option (WaitQueue × Nat) :=
  wqSize w.nthreadsUsed w w.first 0

/-- `jet_msection_wait` has recorded the section and the thread waits. -/
def beginWait (w : WaitQueue) (t : Nat) : WaitQueue :=
  w.updateThread t fun th => { th with entering := true, state := .waiting }

/-- The scheduler has given the section back to the thread. -/
def endWait (w : WaitQueue) (t : Nat) : WaitQueue :=
  w.updateThread t fun th => { th with entering := false }

/-- The thread is in the queue, as far as its own fields and those of the queue tell. -/
def IsLinked (w : WaitQueue) (t : Nat) : Prop :=
  w.first = some t ∨ (w.threads t).wqPrev ≠ none

instance (w : WaitQueue) (t : Nat) : Decidable (w.IsLinked t) :=
  inferInstanceAs (Decidable (_ ∨ _))

end WaitQueue

/-- A section with its wait queue. -/
structure WqSystem where
  queue : WaitQueue
  owner : Option Nat

inductive WqInput where
  | enter (thread : Nat)
  | leave
  | add (next : Option Nat)
  | addAfter (prev : Option Nat)
  | del (thread : Nat)
  | notify (isAll : Bool)
  | size
  | wait
  | resume (thread : Nat)
  | timeOut (thread : Nat)
  | stop (thread : Nat)
  deriving DecidableEq, Repr

namespace WqSystem

/-- What the owner of the section does. User code adds itself once and in front of or behind
threads of the queue, and takes out threads that do not wait any more. -/
def ownerStep (s : WqSystem) (c : Nat) : WqInput → Option WqSystem
  | .leave => some { s with owner := none }
  | .add next =>
    if ¬ s.queue.IsLinked c ∧ ∀ t ∈ next, s.queue.IsLinked t then
      some { s with queue := s.queue.msectionWqAdd c next }
    else none
  | .addAfter prev =>
    if ¬ s.queue.IsLinked c ∧ ∀ t ∈ prev, s.queue.IsLinked t then
      some { s with queue := s.queue.msectionWqAddAfter c prev }
    else none
  | .del t =>
    if (s.queue.threads t).state ≠ .waiting then
      some { s with queue := s.queue.msectionWqDel t }
    else none
  | .notify isAll => (s.queue.jetMsectionWqNotify isAll).map fun r => { s with queue := r.1 }
  | .size => s.queue.jetMsectionWqSize.map fun r => { s with queue := r.1 }
  | .wait =>
    if s.queue.IsLinked c then some { queue := s.queue.beginWait c, owner := none } else none
  | _ => none

def step (s : WqSystem) : WqInput → Option WqSystem
  | .enter t =>
    if s.owner = none ∧ (s.queue.threads t).state = .runnable ∧ ¬ (s.queue.threads t).entering then
      some { s with owner := some t }
    else none
  | .resume t =>
    -- The scheduler continues a thread whose wait is over.
    if s.owner = none ∧ (s.queue.threads t).state = .runnable ∧ (s.queue.threads t).entering then
      some { queue := s.queue.endWait t, owner := some t }
    else none
  | .timeOut t => (s.queue.threadWakeUp t).map fun r => { s with queue := r }
  | .stop t => (s.queue.cancelWait t).map fun r => { s with queue := r }
  | e => s.owner.bind fun c => s.ownerStep c e

end WqSystem

end Chpok
