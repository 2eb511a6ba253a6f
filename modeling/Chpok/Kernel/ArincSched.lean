import Chpok.Kernel.ArincErrors

/-! The scheduler of an ARINC partition (`kernel/core/sched_arinc.c`). What happens between
partitions is given with each step: the events that `sched_arinc` drains, the time at which
it looks at a timer, and how many messages or free places a port has for those who wait. -/

namespace Chpok

/-- An event that `sched_arinc` drains. A port serves the first of those who wait. -/
inductive DrainedEvent where
  | timer (now : Int)
  | port (port served : Nat)
  deriving DecidableEq, Repr

namespace ArincPartition

def setWaiters (p : ArincPartition) (port t : Nat) (waiters : List Nat) : ArincPartition :=
  { p.updateSched t (fun th => { th with waitElem := some port }) with
    waiters := Function.update p.waiters port waiters }

/-- `pok_thread_wq_add` -/
def threadWqAdd (p : ArincPartition) (port t : Nat) : ArincPartition :=
  p.setWaiters port t (p.waiters port ++ [t])

/-- `pok_thread_wq_add_prio` -/
def threadWqAddPrio (p : ArincPartition) (port t : Nat) : ArincPartition :=
  let stamped := p.updateSched t fun th => { th with waitPriority := th.priority }
  stamped.setWaiters port t
    (insertByPriority (fun u => (stamped.sched u).waitPriority) t (p.waiters port))

/-- `pok_thread_wq_add_common`. A thread that is linked already would break the list. -/
def threadWqAddCommon (p : ArincPartition) (port t : Nat) (byPriority : Bool) :
    Except PartitionExit ArincPartition :=
  if (p.sched t).waitElem ≠ none then .error (.failed .waitQueue)
  else .ok (if byPriority then p.threadWqAddPrio port t else p.threadWqAdd port t)

/-- `pok_thread_wq_wake_up` for the first `served` waiters of a port -/
def portQueuingFired (port : Nat) : Nat → ArincPartition → Except PartitionExit ArincPartition
  | 0, p => .ok p
  | n + 1, p =>
    match p.waiters port with
    | [] => .ok p
    | t :: _ => ((p.threadWqRemove t).threadWakeUp t).bind fun p =>
        portQueuingFired port n (p.setWaitResult t .ok)

def processDrained (hm : PartitionHm) (p : ArincPartition) :
    DrainedEvent → Except PartitionExit ArincPartition
  | .timer now => delayedEventQueueCheck hm now p.delayedEvents.length p
  | .port port served => portQueuingFired port served p

/-- The loop of `sched_arinc` over the events of the partition -/
def drain (hm : PartitionHm) : List DrainedEvent → ArincPartition →
    Except PartitionExit ArincPartition
  | [], p => .ok p
  | event :: events, p => (p.processDrained hm event).bind fun p => drain hm events p

/-- The error handler is started by the scheduler. -/
def startErrorHandler (p : ArincPartition) (e : Nat) : ArincPartition :=
  { (p.updateSched e fun th => { th with priority := th.basePriority }).updateThread e
      fun th => { SectionSystem.resetContext th with state := .runnable } with
    isErrorHandler := true }

/-- The rule of `sched_arinc` without errors -/
def normalRule (p : ArincPartition) : Option Nat :=
  if 0 < p.lockLevel then some p.threadLocked else p.eligibleThreads.head?

/-- The rule of `sched_arinc`, with `is_error_handler` reset before it -/
def schedRule (p : ArincPartition) : Except PartitionExit (ArincPartition × Option Nat) :=
  match p.mode with
  | .idle => .error (.failed .schedArinc)
  | .initCold | .initWarm =>
    .ok ({ p with isErrorHandler := false },
      if (p.threads 0).state = .stopped then none else some 0)
  | .normal =>
    match p.threadError with
    | some e =>
      if (p.threads e).state ≠ .stopped then .ok ({ p with isErrorHandler := true }, some e)
      else if p.errorList ≠ [] then .ok (p.startErrorHandler e, some e)
      else .ok ({ p with isErrorHandler := false }, p.normalRule)
    | none =>
      if p.errorList ≠ [] then .error (.failed .schedArinc)
      else .ok ({ p with isErrorHandler := false }, p.normalRule)

/-- A function of the sections, whose failed assertions are those of `assertion` -/
def liftSections (p : ArincPartition) (assertion : Assertion)
    (r : Option SectionSystem) : Except PartitionExit ArincPartition :=
  match r with
  | none => .error (.failed assertion)
  | some s => .ok (p.onSections fun _ => s)

/-- `select_thread`, and the switch to the thread that it returns -/
def selectAndSwitch (p : ArincPartition) (selected : Option Nat) :
    Except PartitionExit ArincPartition :=
  p.liftSections .selectThread
    ((p.toSectionSystem.selectThread selected).bind fun r => r.1.switchTo r.2)

/-- The end of `sched_arinc` -/
def reschedule (p : ArincPartition) : Except PartitionExit ArincPartition :=
  if p.recheckNeeded then
    (schedRule (p.onSections fun s => { s with recheckNeeded := false })).bind fun r =>
      r.1.selectAndSwitch r.2
  else .ok p

/-- One pass of the loop of `jet_resched` -/
def resumeDonator (p : ArincPartition) (donator : Nat) : Except PartitionExit ArincPartition :=
  let freed := p.updateThread donator fun th => { th with donateTarget := none }
  let seen := if p.threadSelected = some donator then freed.localInvalidate else freed
  (if (p.threads donator).firstDonator = none then .ok seen
    else (seen.updateThread donator fun th => { th with firstDonator := none }).threadStop
      donator).map fun q => q.updateThread donator fun th => { th with nextDonator := none }

/-- The loop of `jet_resched`. A list of donators has at most as many as there are threads. -/
def resumeDonators : Nat → ArincPartition → Nat → Except PartitionExit ArincPartition
  | 0, _, _ => .error (.failed .jetResched)
  | fuel + 1, p, donator => (p.resumeDonator donator).bind fun q =>
    match (p.threads donator).nextDonator with
    | none => .ok q
    | some next => resumeDonators fuel q next

/-- `jet_resched`, called by `c` -/
def jetResched (p : ArincPartition) (c : Nat) : Except PartitionExit ArincPartition :=
  let checked := p.onSections (·.checkReleased)
  match (p.threads c).firstDonator with
  | none => .ok checked
  | some donator =>
    if (p.threads c).msectionCount = 0 then
      ((checked.updateThread c fun th => { th with firstDonator := none }).threadStop c).bind
        fun q => resumeDonators p.nthreadsUsed q donator
    else .ok checked

end ArincPartition

end Chpok
