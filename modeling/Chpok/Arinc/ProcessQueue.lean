import Chpok.Kernel.WaitQueue
import Chpok.Kernel.QueuingPort
import Mathlib.Data.Finset.Insert

/-! The process queue of an ARINC object (`libpok/arinc653/arinc_process_queue.c`), and the
code around `msection_wait` that all objects with a process queue share. One step is what a
process does while it owns the section of the object; in between, waits end by timeout or
by `STOP` only. -/

namespace Chpok

/-- `RETURN_CODE_TYPE` -/
inductive ReturnCode where
  | noError
  | noAction
  | notAvailable
  | invalidParam
  | invalidConfig
  | invalidMode
  | timedOut
  deriving DecidableEq, Repr

/-- What `msection_wait` does when it is called: it begins to wait, or refuses to in the
current mode, or finds that the caller is to be stopped. -/
inductive WaitStart where
  | begins
  | mode
  | cancelled
  deriving DecidableEq, Repr

namespace WaitQueue

/-- The loop of `arinc_process_queue_add_common` -/
def queuePosition : Nat → WaitQueue → Nat → Option Nat → Option (Option Nat)
  | _, _, _, none => some none
  | 0, _, _, some _ => none
  | fuel + 1, w, priority, some prev =>
    if priority ≤ (w.threads prev).wqPriority then some (some prev)
    else queuePosition fuel w priority (w.threads prev).wqPrev

/-- `arinc_process_queue_add_common` -/
def arincProcessQueueAddCommon (w : WaitQueue) (t : Nat) (discipline : QueuingDiscipline) :
    Option WaitQueue :=
  match discipline with
  | .priority =>
    (queuePosition w.nthreadsUsed w (w.threads t).priority w.last).map fun prev =>
      (w.msectionWqAddAfter t prev).updateThread t fun th => { th with wqPriority := th.priority }
  | .fifo => some (w.msectionWqAdd t none)

/-- From the insertion into the queue to the wait, or to the end of the call if there is no
wait. -/
def queueAndWait (w : WaitQueue) (t : Nat) (discipline : QueuingDiscipline) (start : WaitStart) :
    Option (WaitQueue × Option ReturnCode) :=
  (w.arincProcessQueueAddCommon t discipline).map fun q =>
    match start with
    | .begins => (q.beginWait t, none)
    | .mode => (q.msectionWqDel t, some .invalidMode)
    | .cancelled => ((q.updateThread t fun th => { th with
        waitResult := .cancelled }).msectionWqDel t, some .invalidMode)

/-- From the end of the wait to the end of the call. -/
def waitReturn (w : WaitQueue) (t : Nat) : WaitQueue × ReturnCode :=
  match (w.threads t).waitResult with
  | .ok => (w.endWait t, .noError)
  | .cancelled => ((w.endWait t).msectionWqDel t, .invalidMode)
  | .timeout => ((w.endWait t).msectionWqDel t, .timedOut)

/-- The loop after a broadcast takes everybody out of the queue; `deliver` is what it does
for each process before. -/
def releaseQueue {M : Type} (deliver : M → Nat → M) :
    Nat → M → WaitQueue → Nat → Option (M × WaitQueue)
  | 0, _, _, _ => none
  | fuel + 1, m, w, t =>
    match (w.msectionWqDel t).first with
    | none => some (deliver m t, w.msectionWqDel t)
    | some next => releaseQueue deliver fuel (deliver m t) (w.msectionWqDel t) next

/-- A notification of all processes, with that loop if anybody waited. -/
def broadcast {M : Type} (w : WaitQueue) (deliver : M → Nat → M) (m : M) : Option (M × WaitQueue) :=
  (w.jetMsectionWqNotify true).bind fun r =>
    if r.2 then r.1.first.bind fun t => releaseQueue deliver r.1.nthreadsUsed m r.1 t
    else some (m, r.1)

/-- The wait of the process is over, by a notification. -/
def Released (w : WaitQueue) (t : Nat) : Prop :=
  (w.threads t).state ≠ .waiting ∧ (w.threads t).waitResult = .ok

instance (w : WaitQueue) : DecidablePred w.Released :=
  fun _ => inferInstanceAs (Decidable (_ ∧ _))

end WaitQueue

/-- What happens to processes while none of them is inside a service of the object. -/
inductive ProcessInput where
  | timeOut (process : Nat)
  | stop (process : Nat)
  | setPriority (process priority : Nat)
  | elsewhere (process : Nat) (thread : WqThread)
  deriving DecidableEq, Repr

/-- Waits on the object end by timeout or by `STOP`; a process that is not blocked on it does
as it likes. -/
def WaitQueue.processStep (w : WaitQueue) (blocked : Finset Nat) :
    ProcessInput → Option WaitQueue
  | .timeOut t => if t ∈ blocked then w.threadWakeUp t else none
  | .stop t => if t ∈ blocked then w.cancelWait t else none
  | .setPriority t priority => some (w.updateThread t fun th => { th with priority := priority })
  | .elsewhere t thread => if t ∈ blocked then none else some (w.updateThread t fun _ => thread)

end Chpok
