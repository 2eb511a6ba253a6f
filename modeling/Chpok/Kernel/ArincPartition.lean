import Chpok.Kernel.Msection
import Chpok.Library.SignedWord
import Mathlib.Data.Finset.Erase
import Mathlib.Data.Finset.Insert
import Mathlib.Data.List.Sort

/-! An ARINC partition and the functions of `kernel/core/thread_internal.c` that change the
state of its threads. Of `pok_thread_t`, the fields about sections are those of
`SectionThread`; the other fields are here. Times are in nanoseconds. -/

namespace Chpok

/-- `MAX_NAME_LENGTH` -/
def maxNameLength : Nat := 30

/-- `tolower` -/
def tolower (c : UInt8) : UInt8 := if 65 ≤ c ∧ c ≤ 90 then c + 32 else c

/-- `strncasecmp(s1, s2, n) == 0`, of the kernel, which compares capital letters, and of libpok,
which compares small ones; what is behind the end of a string is never looked at. -/
def sameName : Nat → List UInt8 → List UInt8 → Bool
  | 0, _, _ => true
  | n + 1, s, t =>
    if s.headD 0 = 0 ∧ t.headD 0 = 0 then true
    else tolower (s.headD 0) = tolower (t.headD 0) && sameName n s.tail t.tail

/-- `pok_compare_names(name1, name2) == 0` -/
def pokCompareNames (name1 name2 : List UInt8) : Bool := sameName maxNameLength name1 name2

example : pokCompareNames [65, 66] [97, 98, 0, 7] = true := by decide

/-- How times are added and how one is stored in a `uint64_t` -/
structure TimeArith where
  add : Int → Int → Int
  unsigned : Int → Int

namespace TimeArith

/-- `pok_time_t` is an `int64_t`, and a sum that is out of range wraps. -/
def kernel : TimeArith := ⟨SignedWord.add, fun time => time % 2 ^ 64⟩

/-- The sums as they are meant -/
def unbounded : TimeArith := ⟨fun a b => a + b, id⟩

@[simp] theorem kernel_add {a b : Int} : kernel.add a b = SignedWord.add a b := rfl

@[simp] theorem kernel_unsigned {a : Int} : kernel.unsigned a = a % 2 ^ 64 := rfl

@[simp] theorem unbounded_add {a b : Int} : unbounded.add a b = a + b := rfl

@[simp] theorem unbounded_unsigned {a : Int} : unbounded.unsigned a = a := rfl

end TimeArith

/-- `thread_delayed_func` -/
inductive DelayedFunc where
  | wakeUp
  | resumeWaited
  deriving DecidableEq, Repr

/-- `thread_delayed_event` or `thread_deadline_event` -/
inductive DelayedKind where
  | delayed
  | deadline
  deriving DecidableEq, Repr

structure DelayedEvent where
  thread : Nat
  kind : DelayedKind
  timepoint : Int
  deriving DecidableEq, Repr

/-- `pok_partition_mode_t` -/
inductive PartitionMode where
  | initCold
  | initWarm
  | idle
  | normal
  deriving DecidableEq, Repr

/-- `POK_ERROR_ID_*` -/
inductive ErrorId where
  | modpostproceventElist
  | illegalRequest
  | applicationError
  | partloadError
  | numericError
  | memoryViolation
  | deadlineMissed
  | hardwareFault
  | powerFail
  | stackOverflow
  | procinitError
  | nomemoryProcdata
  | assert
  | configError
  | checkPool
  | unhandledInt
  deriving DecidableEq, Repr

/-- The `POK_THREAD_ERROR_BIT_*` -/
inductive ErrorBit where
  | sync
  | deadline
  | deadlineOor
  deriving DecidableEq, Repr

/-- What scheduling uses of `pok_thread_t`. `waitElem` is the port in whose list of waiters
the thread is linked. `nextActivation` is a `uint64_t`, the other times are values of
`pok_time_t`. -/
structure SchedThread where
  name : List UInt8
  basePriority : Nat
  priority : Nat
  period : Int
  timeCapacity : Int
  delayedTime : Int
  nextActivation : Int
  suspended : Bool
  delayedFunc : DelayedFunc
  waitElem : Option Nat
  waitPriority : Nat
  deriving DecidableEq, Repr

/-- What error handling uses of `pok_thread_t`. -/
structure ErrorThread where
  errorBits : Finset ErrorBit
  isUnrecoverable : Bool
  deriving DecidableEq

/-- The errors of processes: those raised, those that `pok_error_get` has returned, and the
synchronous ones that are ignored when the error handler stops. -/
structure ErrorLog where
  raised : List (Nat × ErrorBit)
  fetched : List (Nat × ErrorBit)
  cancelled : List (Nat × ErrorBit)
  deriving DecidableEq

/-- `pok_partition_arinc_t`. The lists of the source are those of the threads linked in them.
`arrivals` counts the insertions into the list of eligible threads, and `arrivedAt` is the
number of a thread's last one; no function reads them, nor `errorLog`. -/
structure ArincPartition extends SectionSystem where
  mode : PartitionMode
  nthreads : Nat
  sched : Nat → SchedThread
  errors : Nat → ErrorThread
  eligibleThreads : List Nat
  delayedEvents : List DelayedEvent
  waiters : Nat → List Nat
  lockLevel : Nat
  threadLocked : Nat
  errorList : List Nat
  syncError : ErrorId
  syncErrorFailedAddr : Nat
  isErrorHandler : Bool
  nthreadsUnrecoverable : Nat
  halted : Bool
  arrivals : Nat
  arrivedAt : Nat → Nat
  errorLog : ErrorLog

/-- The function whose assertion fails. -/
inductive Assertion where
  | threadSetEligible
  | threadStop
  | threadIsWaitingAllowed
  | threadWait
  | threadWakeUp
  | threadWaitTimed
  | threadWaitCommon
  | threadResumeWaited
  | threadAddErrorBit
  | threadClearErrorBit
  | takeFixedAction
  | partitionReset
  | raiseError
  | errorGet
  | schedArinc
  | selectThread
  | jetResched
  | threadDelayedStart
  | pokThreadStop
  | msectionWait
  | msectionNotify
  | waitQueue
  deriving DecidableEq, Repr

/-- The ways in which kernel code does not come back to its caller. An input that does not
apply is refused. -/
inductive PartitionExit where
  | failed (assertion : Assertion)
  | reset (p : ArincPartition)
  | idle (p : ArincPartition)
  | forever (p : ArincPartition)
  | refused

/-- `pok_time_is_infinity` -/
def timeIsInfinity (t : Int) : Bool := t < 0

/-- A thread is inserted before the first one of lower priority. -/
def insertByPriority (priority : Nat → Nat) (t : Nat) (threads : List Nat) : List Nat :=
  threads.orderedInsert (fun t other => priority other < priority t) t

/-- `delayed_event_add` inserts an event before the first one that is later. -/
def insertByTime (event : DelayedEvent) (events : List DelayedEvent) : List DelayedEvent :=
  events.orderedInsert (fun event other => event.timepoint < other.timepoint) event

namespace ArincPartition

def onSections (p : ArincPartition) (f : SectionSystem → SectionSystem) : ArincPartition :=
  { p with toSectionSystem := f p.toSectionSystem }

def updateThread (p : ArincPartition) (t : Nat) (f : SectionThread → SectionThread) :
    ArincPartition :=
  p.onSections (·.updateThread t f)

def updateSched (p : ArincPartition) (t : Nat) (f : SchedThread → SchedThread) :
    ArincPartition :=
  { p with sched := Function.update p.sched t (f (p.sched t)) }

def updateErrors (p : ArincPartition) (t : Nat) (f : ErrorThread → ErrorThread) :
    ArincPartition :=
  { p with errors := Function.update p.errors t (f (p.errors t)) }

def setState (p : ArincPartition) (t : Nat) (state : ThreadState) : ArincPartition :=
  p.updateThread t fun th => { th with state }

def setWaitResult (p : ArincPartition) (t : Nat) (waitResult : WaitResult) : ArincPartition :=
  p.updateThread t fun th => { th with waitResult }

def setSuspended (p : ArincPartition) (t : Nat) (suspended : Bool) : ArincPartition :=
  p.updateSched t fun th => { th with suspended }

/-- `pok_sched_local_invalidate` -/
def localInvalidate (p : ArincPartition) : ArincPartition := p.onSections (·.invalidate)

/-- Invalidates if `t` is the first of the eligible threads. -/
def invalidateIfFirst (p : ArincPartition) (t : Nat) : ArincPartition :=
  if p.eligibleThreads.head? = some t then p.localInvalidate else p

/-- `thread_create`. The stack is allocated by the caller. -/
def threadCreate (p : ArincPartition) (t : Nat) : ArincPartition :=
  (p.updateThread t fun th => { SectionSystem.resetContext th with
    msectionCount := 0
    sharedEntering := none
    state := .stopped
    donateTarget := none
    firstDonator := none
    nextDonator := none
    msectionEntering := none }).updateSched t fun th => { th with
      priority := th.basePriority, suspended := false, waitElem := none }

/-- `thread_set_eligible` -/
def threadSetEligible (p : ArincPartition) (t : Nat) : Except PartitionExit ArincPartition :=
  if p.mode = .normal ∧ t ∉ p.eligibleThreads then
    .ok ({ p with
      eligibleThreads := insertByPriority (fun u => (p.sched u).priority) t p.eligibleThreads
      arrivals := p.arrivals + 1
      arrivedAt := Function.update p.arrivedAt t p.arrivals }.invalidateIfFirst t)
  else .error (.failed .threadSetEligible)

/-- `thread_set_uneligible` -/
def threadSetUneligible (p : ArincPartition) (t : Nat) : ArincPartition :=
  { p.invalidateIfFirst t with eligibleThreads := p.eligibleThreads.erase t }

/-- `thread_yield` -/
def threadYield (p : ArincPartition) (t : Nat) : Except PartitionExit ArincPartition :=
  if t ∈ p.eligibleThreads then (p.threadSetUneligible t).threadSetEligible t else .ok p

/-- `delayed_event_remove` -/
def delayedEventRemove (p : ArincPartition) (t : Nat) (kind : DelayedKind) : ArincPartition :=
  { p with delayedEvents := p.delayedEvents.filter fun e => ¬ (e.thread = t ∧ e.kind = kind) }

/-- `delayed_event_add` -/
def delayedEventAdd (p : ArincPartition) (t : Nat) (kind : DelayedKind) (time : Int) :
    ArincPartition :=
  { p with delayedEvents := insertByTime ⟨t, kind, time⟩ (p.delayedEventRemove t kind).delayedEvents }

/-- `delayed_event_is_active` -/
def DelayedEventActive (p : ArincPartition) (t : Nat) (kind : DelayedKind) : Prop :=
  ∃ e ∈ p.delayedEvents, e.thread = t ∧ e.kind = kind

instance (p : ArincPartition) (t : Nat) (kind : DelayedKind) :
    Decidable (p.DelayedEventActive t kind) :=
  inferInstanceAs (Decidable (∃ e ∈ p.delayedEvents, e.thread = t ∧ e.kind = kind))

/-- `thread_delay_event` -/
def threadDelayEvent (p : ArincPartition) (t : Nat) (time : Int) (delayedFunc : DelayedFunc) :
    ArincPartition :=
  (p.updateSched t fun th => { th with delayedFunc }).delayedEventAdd t .delayed time

/-- `thread_set_deadline` -/
def threadSetDeadline (p : ArincPartition) (t : Nat) (time : Int) : ArincPartition :=
  p.delayedEventAdd t .deadline time

/-- `thread_delay_event_cancel` -/
def threadDelayEventCancel (p : ArincPartition) (t : Nat) : ArincPartition :=
  p.delayedEventRemove t .delayed

/-- `pok_thread_wq_remove` -/
def threadWqRemove (p : ArincPartition) (t : Nat) : ArincPartition :=
  match (p.sched t).waitElem with
  | none => p
  | some port =>
    { p.updateSched t (fun th => { th with waitElem := none }) with
      waiters := Function.update p.waiters port ((p.waiters port).erase t) }

/-- The preemption lock is dropped with the thread that holds it. -/
def dropLock (p : ArincPartition) (t : Nat) : ArincPartition :=
  if 0 < p.lockLevel ∧ p.threadLocked = t then { p with lockLevel := 0 }.localInvalidate else p

def dropUnrecoverable (p : ArincPartition) (t : Nat) : ArincPartition :=
  if (p.errors t).isUnrecoverable then
    { p.updateErrors t (fun th => { th with isUnrecoverable := false }) with
      nthreadsUnrecoverable := (p.nthreadsUnrecoverable + 4294967295) % 4294967296 }
  else p

/-- `thread_stop` -/
def threadStop (p : ArincPartition) (t : Nat) : Except PartitionExit ArincPartition :=
  if (p.threads t).state = .stopped then .error (.failed .threadStop)
  else
    .ok ((((((((p.setState t .stopped).threadSetUneligible t).threadDelayEventCancel
      t).delayedEventRemove t .deadline).threadWqRemove t).dropLock t).dropUnrecoverable
        t).updateThread t fun th => { th with msectionEntering := none })

/-- `thread_is_waiting_allowed` -/
def threadIsWaitingAllowed (p : ArincPartition) (t : Nat) : Except PartitionExit Bool :=
  if 0 < p.lockLevel ∨ p.threadError = some t then .ok false
  else if (p.threads t).msectionCount = 0 ∧ (p.threads t).firstDonator = none then .ok true
  else .error (.failed .threadIsWaitingAllowed)

/-- The end of `thread_start`, `thread_wake_up` and `thread_resume` -/
def setEligibleUnlessSuspended (p : ArincPartition) (t : Nat) :
    Except PartitionExit ArincPartition :=
  if (p.sched t).suspended then .ok p else p.threadSetEligible t

/-- `thread_start` -/
def threadStart (p : ArincPartition) (t : Nat) : Except PartitionExit ArincPartition :=
  (p.setState t .runnable).setEligibleUnlessSuspended t

/-- `thread_wait` -/
def threadWait (p : ArincPartition) (t : Nat) : Except PartitionExit ArincPartition :=
  if p.mode = .normal then .ok ((p.setState t .waiting).threadSetUneligible t)
  else .error (.failed .threadWait)

/-- A wait on a port or for a section ends with `POK_ERRNO_TIMEOUT`. -/
def cancelWait (p : ArincPartition) (t : Nat) : ArincPartition :=
  if (p.sched t).waitElem ≠ none then (p.threadWqRemove t).setWaitResult t .timeout
  else if (p.threads t).msectionEntering ≠ none then p.setWaitResult t .timeout
  else p

/-- `thread_wake_up` -/
def threadWakeUp (p : ArincPartition) (t : Nat) : Except PartitionExit ArincPartition :=
  if (p.threads t).state = .waiting then
    (((p.setState t .runnable).threadDelayEventCancel t).cancelWait t).setEligibleUnlessSuspended t
  else .error (.failed .threadWakeUp)

/-- `thread_wait_timed` -/
def threadWaitTimed (p : ArincPartition) (t : Nat) (time : Int) :
    Except PartitionExit ArincPartition :=
  if timeIsInfinity time then .error (.failed .threadWaitTimed)
  else (p.threadWait t).map (·.threadDelayEvent t time .wakeUp)

/-- `thread_wait_common`. Here and below times are added as the kernel does unless another
arithmetic is given. -/
def threadWaitCommon (p : ArincPartition) (t : Nat) (duration now : Int)
    (arith : TimeArith := .kernel) : Except PartitionExit ArincPartition :=
  if duration = 0 then .error (.failed .threadWaitCommon)
  else if timeIsInfinity duration then p.threadWait t
  else p.threadWaitTimed t (arith.add now duration)

/-- `thread_suspend` -/
def threadSuspend (p : ArincPartition) (t : Nat) : ArincPartition :=
  (p.setSuspended t true).threadSetUneligible t

/-- `thread_resume_waited` -/
def threadResumeWaited (p : ArincPartition) (t : Nat) : Except PartitionExit ArincPartition :=
  if (p.threads t).state = .waiting then
    (((p.setSuspended t false).setState t .runnable).setWaitResult t .timeout).threadSetEligible t
  else .error (.failed .threadResumeWaited)

/-- `thread_suspend_timed` -/
def threadSuspendTimed (p : ArincPartition) (t : Nat) (time now : Int)
    (arith : TimeArith := .kernel) : Except PartitionExit ArincPartition :=
  (((p.setSuspended t true).threadSetUneligible t).threadWait t).map
    (·.threadDelayEvent t (arith.add now time) .resumeWaited)

/-- `thread_resume` -/
def threadResume (p : ArincPartition) (t : Nat) : Except PartitionExit ArincPartition :=
  let resumed :=
    if p.DelayedEventActive t .delayed ∧ (p.sched t).delayedFunc = .resumeWaited then
      ((((p.setSuspended t false).setState t .runnable).threadDelayEventCancel t).setWaitResult t .ok)
    else p.setSuspended t false
  if (resumed.threads t).state = .runnable then resumed.threadSetEligible t else .ok resumed

end ArincPartition

end Chpok
