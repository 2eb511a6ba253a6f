import Chpok.Kernel.ArincSched

/-! The system calls of an ARINC partition about its processes, its errors, its mode and its
preemption lock (`kernel/core/thread.c`, `kernel/core/partition_arinc.c`), up to the end of
the section with local preemption disabled. Pointers of the caller are valid. The result of
a wait is read when the thread runs again and is not part of the result here. -/

namespace Chpok

/-- `pok_thread_attr_t` and the name of the process -/
structure ThreadAttr where
  name : List UInt8
  priority : Nat
  period : Int
  timeCapacity : Int
  deriving DecidableEq, Repr

/-- A system call. `now` is the system time, `processingStart` is what
`get_next_periodic_processing_start` returns. -/
inductive ArincCall where
  | create (attr : ThreadAttr) (entryOk stackOk : Bool)
  | createError (entryOk stackOk : Bool)
  | delayedStart (id : Nat) (delay now processingStart : Int)
  | stopTarget (id : Nat)
  | stop
  | suspendTarget (id : Nat)
  | suspend (time now : Int)
  | resume (id : Nat)
  | setPriority (id priority : Nat)
  | yield
  | sleep (time now : Int)
  | endPeriod
  | replenish (budget now : Int)
  | portWait (port : Nat) (sending : Bool) (timeout now : Int) (byPriority : Bool)
  | incLockLevel
  | decLockLevel
  | setMode (mode : PartitionMode) (now processingStart : Int)
  | raiseApplicationError
  | raiseOsError
  | errorGet
  | enterHelper
  | checkFlags
  | msectionWait (sec : Nat) (timeout now : Int)
  | msectionNotify (sec : Nat) (targets : List Nat)
  deriving DecidableEq, Repr

namespace ArincPartition

def minPriorityValue : Nat := 1

def maxPriorityValue : Nat := 239

def maxLockLevel : Nat := 16

/-- `find_thread` -/
def findThread (p : ArincPartition) (name : List UInt8) : Option Nat :=
  (List.range p.nthreadsUsed).find? fun t =>
    t ≠ 0 ∧ p.threadError ≠ some t ∧ pokCompareNames (p.sched t).name name

/-- `get_thread_by_id`, and what is done with the thread -/
def withThread (p : ArincPartition) (id : Nat)
    (f : Nat → Except PartitionExit (ArincPartition × PokErrno)) :
    Except PartitionExit (ArincPartition × PokErrno) :=
  if p.HasThread id then f id else .ok (p, .param)

def returning (errno : PokErrno) (r : Except PartitionExit ArincPartition) :
    Except PartitionExit (ArincPartition × PokErrno) :=
  r.map (·, errno)

theorem ok_of_returning {q : ArincPartition} {errno errno' : PokErrno}
    {m : Except PartitionExit ArincPartition} (h : returning errno m = .ok (q, errno')) :
    m = .ok q := by
  cases m with
  | error e => cases h
  | ok r =>
    obtain ⟨rfl, -⟩ := Prod.mk.inj (Except.ok.inj h)
    rfl

/-- The checks that `pok_thread_create` makes on the attributes, in their order -/
def attrErrno (attr : ThreadAttr) : Option PokErrno :=
  if attr.priority > maxPriorityValue ∨ attr.priority < minPriorityValue then some .einval
  else if attr.period = 0 then some .param
  else if attr.timeCapacity = 0 then some .param
  else if ¬ timeIsInfinity attr.period ∧ timeIsInfinity attr.timeCapacity then some .param
  else if ¬ timeIsInfinity attr.period ∧ attr.period < attr.timeCapacity then some .param
  else none

/-- `pok_thread_create`, with the checks of memory that it makes -/
def pokThreadCreate (p : ArincPartition) (attr : ThreadAttr) (entryOk stackOk : Bool) :
    Except PartitionExit (ArincPartition × PokErrno) :=
  if p.mode = .normal then .ok (p, .partitionMode)
  else if p.nthreadsUsed = p.nthreads then .ok (p, .toomany)
  else
    let filled := p.updateSched p.nthreadsUsed fun th => { th with
      basePriority := attr.priority, period := attr.period, timeCapacity := attr.timeCapacity }
    match attrErrno attr with
    | some errno => .ok (filled, errno)
    | none =>
      if ¬ entryOk then .ok (filled, .param)
      else
        let named := filled.updateSched p.nthreadsUsed fun th => { th with name := attr.name }
        if (named.findThread attr.name).isSome then .ok (named, .exists)
        else if ¬ stackOk then .ok (named, .unavailable)
        else
          .ok ((named.threadCreate p.nthreadsUsed).onSections fun s => { s with
            nthreadsUsed := p.nthreadsUsed + 1 }, .ok)

/-- What `thread_delayed_start_internal` resets in a thread, the shared data included -/
def resetStarted (p : ArincPartition) (t : Nat) : ArincPartition :=
  (p.updateSched t fun th => { th with priority := th.basePriority }).updateThread t fun th =>
    { SectionSystem.resetContext th with
      msectionCount := 0, sharedEntering := none, killed := false }

/-- The release point of a periodic thread, the start of another one -/
def startTime (p : ArincPartition) (t : Nat) (delay now processingStart : Int)
    (arith : TimeArith := .kernel) : Int :=
  if timeIsInfinity (p.sched t).period then arith.add now delay
  else arith.add processingStart delay

/-- Only periodic threads have a next activation. -/
def setNextActivation (p : ArincPartition) (t : Nat) (nextActivation : Int) : ArincPartition :=
  if timeIsInfinity (p.sched t).period then p
  else p.updateSched t fun th => { th with nextActivation }

def setStartDeadline (p : ArincPartition) (t : Nat) (start : Int)
    (arith : TimeArith := .kernel) : ArincPartition :=
  if timeIsInfinity (p.sched t).timeCapacity then p
  else p.threadSetDeadline t (arith.add start (p.sched t).timeCapacity)

/-- `thread_delayed_start_internal` -/
def threadDelayedStartInternal (p : ArincPartition) (t : Nat) (delay now processingStart : Int)
    (arith : TimeArith := .kernel) : Except PartitionExit (ArincPartition × PokErrno) :=
  if timeIsInfinity delay then .error (.failed .threadDelayedStart)
  else if (p.threads t).state ≠ .stopped then .ok (p, .unavailable)
  else if ¬ timeIsInfinity (p.sched t).period ∧ (p.sched t).period ≤ delay then .ok (p, .einval)
  else if p.mode ≠ .normal then
    .ok (((p.resetStarted t).updateSched t fun th => { th with
      delayedTime := delay }).setState t .waiting, .ok)
  else
    let start := p.startTime t delay now processingStart arith
    let armed := ((p.resetStarted t).setNextActivation t
      (arith.unsigned (arith.add start (p.sched t).period))).setStartDeadline t start arith
    returning .ok
      (if delay = 0 ∧ timeIsInfinity (p.sched t).period then armed.threadStart t
      else armed.threadWaitTimed t start)

/-- `pok_thread_delayed_start`, or `pok_thread_start` with no delay -/
def pokThreadDelayedStart (p : ArincPartition) (id : Nat) (delay now processingStart : Int)
    (arith : TimeArith := .kernel) : Except PartitionExit (ArincPartition × PokErrno) :=
  p.withThread id fun t =>
    if timeIsInfinity delay then .ok (p, .einval)
    else p.threadDelayedStartInternal t delay now processingStart arith

/-- `pok_thread_set_priority` -/
def pokThreadSetPriority (p : ArincPartition) (id priority : Nat) :
    Except PartitionExit (ArincPartition × PokErrno) :=
  p.withThread id fun t =>
    if maxPriorityValue < priority ∨ priority < minPriorityValue then .ok (p, .param)
    else if (p.threads t).state = .stopped then .ok (p, .unavailable)
    else returning .ok ((p.updateSched t fun th => { th with priority }).threadYield t)

/-- `pok_thread_resume` -/
def pokThreadResume (p : ArincPartition) (c id : Nat) :
    Except PartitionExit (ArincPartition × PokErrno) :=
  p.withThread id fun t =>
    if t = c then .ok (p, .threadattr)
    else if ¬ timeIsInfinity (p.sched t).period then .ok (p, .mode)
    else if (p.threads t).state = .stopped then .ok (p, .mode)
    else if ¬ (p.sched t).suspended then .ok (p, .unavailable)
    else returning .ok (p.threadResume t)

/-- `pok_thread_suspend_target` -/
def pokThreadSuspendTarget (p : ArincPartition) (c id : Nat) :
    Except PartitionExit (ArincPartition × PokErrno) :=
  p.withThread id fun t =>
    if t = c then .ok (p, .threadattr)
    else if ¬ timeIsInfinity (p.sched t).period then .ok (p, .mode)
    else if (p.threads t).state = .stopped then .ok (p, .mode)
    else if 0 < p.lockLevel ∧ p.threadLocked = t then .ok (p, .mode)
    else if (p.sched t).suspended then .ok (p, .unavailable)
    else .ok (p.threadSuspend t, .ok)

/-- `pok_thread_suspend` -/
def pokThreadSuspend (p : ArincPartition) (c : Nat) (time now : Int)
    (arith : TimeArith := .kernel) : Except PartitionExit (ArincPartition × PokErrno) :=
  if ¬ timeIsInfinity (p.sched c).period then .ok (p, .mode)
  else
    (p.threadIsWaitingAllowed c).bind fun allowed =>
      if ¬ allowed then .ok (p, .mode)
      else if time = 0 then .ok (p, .ok)
      else if timeIsInfinity time then .ok (p.threadSuspend c, .ok)
      else returning .ok ((p.threadSuspend c).threadSuspendTimed c time now arith)

/-- `thread_current` becomes a donator of `target`, in front of `next`. -/
def donate (p : ArincPartition) (c target : Nat) (next : Option Nat) : ArincPartition :=
  p.onSections (·.donate c target next)

/-- The wait of a thread that is to be stopped inside its section is interrupted. -/
def interruptWait (p : ArincPartition) (t : Nat) : Except PartitionExit ArincPartition :=
  if (p.threads t).state = .waiting then
    (p.threadWakeUp t).map (·.setWaitResult t .cancelled)
  else .ok p

/-- `pok_thread_stop_target` -/
def pokThreadStopTarget (p : ArincPartition) (c id : Nat) :
    Except PartitionExit (ArincPartition × PokErrno) :=
  p.withThread id fun t =>
    if t = c then .ok (p, .threadattr)
    else if (p.threads t).state = .stopped then .ok (p, .unavailable)
    else
      match (p.threads t).donateTarget with
      | some target =>
        .ok (((p.updateThread t fun th => { th with
            firstDonator := if th.firstDonator = none then some c else th.firstDonator
            nextDonator := some c }).donate c target (p.threads t).nextDonator).localInvalidate,
          if (p.threads t).firstDonator = none then .ok else .unavailable)
      | none =>
        if (p.threads t).firstDonator ≠ none then
          .ok (((p.updateThread t fun th => { th with firstDonator := some c }).donate c t
            (p.threads t).firstDonator).localInvalidate, .unavailable)
        else if (p.threads t).msectionCount ≠ 0 then
          returning .ok ((p.interruptWait t).map fun p =>
            ((p.updateThread t fun th => { th with
              firstDonator := some c, killed := true }).donate c t none).localInvalidate)
        else returning .ok (p.threadStop t)

/-- `pok_thread_stop` -/
def pokThreadStop (hm : PartitionHm) (p : ArincPartition) (c : Nat) :
    Except PartitionExit (ArincPartition × PokErrno) :=
  if (p.threads c).donateTarget ≠ none ∨ (p.threads c).firstDonator ≠ none then
    .error (.failed .pokThreadStop)
  else
    returning .ok ((p.threadStop c).bind fun q =>
      (if p.threadError = some c then
        (q.errorCheckAfterHandler hm).bind fun q => q.errorIgnoreSync
      else .ok q).map (·.localInvalidate))

/-- `pok_thread_sleep` -/
def pokThreadSleep (p : ArincPartition) (c : Nat) (time now : Int)
    (arith : TimeArith := .kernel) : Except PartitionExit (ArincPartition × PokErrno) :=
  (p.threadIsWaitingAllowed c).bind fun allowed =>
    if ¬ allowed then .ok (p, .mode)
    else if time = 0 then returning .ok (p.threadYield c)
    else returning .ok (p.threadWaitCommon c time now arith)

/-- `pok_sched_end_period` -/
def pokSchedEndPeriod (p : ArincPartition) (c : Nat) (arith : TimeArith := .kernel) :
    Except PartitionExit (ArincPartition × PokErrno) :=
  if timeIsInfinity (p.sched c).period then .ok (p, .mode)
  else
    (p.threadIsWaitingAllowed c).bind fun allowed =>
      if ¬ allowed then .ok (p, .mode)
      else
        let next := arith.add (p.sched c).nextActivation (p.sched c).period
        returning .ok (((p.updateSched c fun th => { th with
          nextActivation := arith.unsigned next }).threadWaitTimed c next).map fun p =>
            p.threadSetDeadline c (arith.add next (p.sched c).timeCapacity))

/-- `pok_sched_replenish`. The deadline is compared with `next_activation` as a `uint64_t`. -/
def pokSchedReplenish (p : ArincPartition) (c : Nat) (budget now : Int)
    (arith : TimeArith := .kernel) : Except PartitionExit (ArincPartition × PokErrno) :=
  if p.threadError = some c then .ok (p, .unavailable)
  else if p.mode ≠ .normal then .ok (p, .unavailable)
  else if timeIsInfinity (p.sched c).timeCapacity then .ok (p, .ok)
  else if timeIsInfinity budget then
    if ¬ timeIsInfinity (p.sched c).period then .ok (p, .mode)
    else .ok (p.delayedEventRemove c .deadline, .ok)
  else if ¬ timeIsInfinity (p.sched c).period ∧
      (p.sched c).nextActivation ≤ arith.unsigned (arith.add now budget) then
    .ok (p, .mode)
  else .ok (p.threadSetDeadline c (arith.add now budget), .ok)

/-- `pok_port_queuing_receive` or `pok_port_queuing_send`, when the message or the place is
not there -/
def pokPortWait (p : ArincPartition) (c port : Nat) (sending : Bool) (timeout now : Int)
    (byPriority : Bool) (arith : TimeArith := .kernel) :
    Except PartitionExit (ArincPartition × PokErrno) :=
  if timeout = 0 then .ok (p, if sending then .full else .empty)
  else
    (p.threadIsWaitingAllowed c).bind fun allowed =>
      if ¬ allowed then .ok (p, .mode)
      else
        returning .ok ((p.threadWqAddCommon port c byPriority).bind fun p =>
          p.threadWaitCommon c timeout now arith)

/-- `is_lock_level_blocked` -/
def IsLockLevelBlocked (p : ArincPartition) (c : Nat) : Prop :=
  p.mode ≠ .normal ∨ p.threadError = some c

instance (p : ArincPartition) (c : Nat) : Decidable (p.IsLockLevelBlocked c) :=
  inferInstanceAs (Decidable (p.mode ≠ .normal ∨ p.threadError = some c))

/-- `pok_current_partition_inc_lock_level` -/
def incLockLevel (p : ArincPartition) (c : Nat) : ArincPartition × PokErrno :=
  if p.IsLockLevelBlocked c then (p, .partitionMode)
  else if p.lockLevel = maxLockLevel then (p, .einval)
  else ({ p with lockLevel := p.lockLevel + 1, threadLocked := c }, .ok)

/-- `pok_current_partition_dec_lock_level` -/
def decLockLevel (p : ArincPartition) (c : Nat) : ArincPartition × PokErrno :=
  if p.IsLockLevelBlocked c then (p, .partitionMode)
  else if p.lockLevel = 0 then (p, .einval)
  else if p.lockLevel - 1 = 0 ∧ p.eligibleThreads.head? ≠ some c then
    ({ p with lockLevel := p.lockLevel - 1 }.localInvalidate, .ok)
  else ({ p with lockLevel := p.lockLevel - 1 }, .ok)

/-- One pass of the loop of `partition_set_mode_normal` -/
def releaseThread (now processingStart : Int) (p : ArincPartition) (t : Nat)
    (arith : TimeArith := .kernel) : Except PartitionExit ArincPartition :=
  if (p.threads t).state = .stopped then .ok p
  else
    let start := p.startTime t (p.sched t).delayedTime now processingStart arith
    let activated := p.setNextActivation t (arith.unsigned start)
    (if start ≤ now then activated.threadWakeUp t
      else .ok (activated.threadDelayEvent t start .wakeUp)).map
        (·.setStartDeadline t start arith)

def releaseThreads (now processingStart : Int) : List Nat → ArincPartition →
    Except PartitionExit ArincPartition
  | [], p => .ok p
  | t :: ts, p => (p.releaseThread now processingStart t).bind fun p =>
      releaseThreads now processingStart ts p

/-- `partition_set_mode_normal` -/
def partitionSetModeNormal (p : ArincPartition) (now processingStart : Int) :
    Except PartitionExit ArincPartition :=
  releaseThreads now processingStart (List.range' 1 (p.nthreadsUsed - 1))
    { p with mode := .normal, lockLevel := 0 }.localInvalidate

/-- `partition_set_mode_internal` -/
def partitionSetMode (p : ArincPartition) (mode : PartitionMode) (now processingStart : Int) :
    Except PartitionExit (ArincPartition × PokErrno) :=
  match mode with
  | .initWarm =>
    if p.mode = .initCold then .ok (p, .partitionMode) else returning .ok (p.partitionReset mode)
  | .initCold => returning .ok (p.partitionReset mode)
  | .idle => .error (.idle { p with halted := true })
  | .normal =>
    if p.mode = .normal then .ok (p, .unavailable)
    else returning .ok (p.partitionSetModeNormal now processingStart)

/-- `jet_msection_enter_helper`, called by `msection_enter` -/
def msectionEnterHelper (p : ArincPartition) (c : Nat) :
    Except PartitionExit (ArincPartition × PokErrno) :=
  match (p.threads c).point with
  | .readOther sec =>
    .ok (p.onSections fun s =>
      (s.updateThread c fun th => { th with point := .acquired sec }).msectionEnterHelper c sec, .ok)
  | _ => .error .refused

/-- Whether `msection_leave` calls `jet_resched` -/
def MustResched (p : ArincPartition) (c sec : Nat) : Prop :=
  (p.threads c).msectionCount = 0 ∧ (p.threads c).killed ∨ (p.sections sec).reschedAfterLeave

instance (p : ArincPartition) (c sec : Nat) : Decidable (p.MustResched c sec) :=
  inferInstanceAs (Decidable ((p.threads c).msectionCount = 0 ∧ (p.threads c).killed ∨
    (p.sections sec).reschedAfterLeave))

/-- The end of `msection_leave` that calls `jet_resched` -/
def leaveCheckFlags (p : ArincPartition) (c : Nat) :
    Except PartitionExit (ArincPartition × PokErrno) :=
  match (p.threads c).point with
  | .discounted sec =>
    if p.MustResched c sec then
      returning .ok ((p.jetResched c).map (·.updateThread c fun th => { th with point := .running }))
    else .error .refused
  | _ => .error .refused

/-- `jet_msection_wait` -/
def msectionWait (p : ArincPartition) (c sec : Nat) (timeout now : Int)
    (arith : TimeArith := .kernel) : Except PartitionExit (ArincPartition × PokErrno) :=
  if ¬ ((p.sections sec).owner = some c ∧ (p.threads c).msectionCount = 1) then
    .error (.failed .msectionWait)
  else if 0 < p.lockLevel ∨ p.threadError = some c then .ok (p, .mode)
  else if (p.threads c).firstDonator ≠ none then
    .ok (p.updateThread c fun th => { th with waitResult := .cancelled, point := .waiting sec }, .ok)
  else
    returning .ok (((((p.updateThread c fun th => { th with
      msectionEntering := some sec, point := .waiting sec }).onSections fun s =>
        s.updateSection sec fun m => { m with owner := none }).threadWaitCommon c timeout now
          arith)).map (·.localInvalidate))

/-- The threads that `jet_msection_notify` or `jet_msection_wq_notify` finds. Those that do not
wait any more are skipped. -/
def msectionNotifyAll (sec : Nat) : List Nat → ArincPartition →
    Except PartitionExit ArincPartition
  | [], p => .ok p
  | t :: ts, p =>
    if ¬ t < p.nthreadsUsed then .error (.failed .msectionNotify)
    else if (p.threads t).state ≠ .waiting then msectionNotifyAll sec ts p
    else if (p.threads t).msectionEntering ≠ some sec then .error (.failed .msectionNotify)
    else (p.threadWakeUp t).bind fun p => msectionNotifyAll sec ts (p.setWaitResult t .ok)

/-- `jet_msection_notify` and `jet_msection_wq_notify` -/
def msectionNotify (p : ArincPartition) (c sec : Nat) (targets : List Nat) :
    Except PartitionExit (ArincPartition × PokErrno) :=
  if (p.sections sec).owner = some c then returning .ok (msectionNotifyAll sec targets p)
  else .error (.failed .msectionNotify)

/-- A call of the current thread `c`. Those that `msection_enter` and `msection_leave` make
themselves are made there only. -/
def call (hm : PartitionHm) (p : ArincPartition) (c : Nat) :
    ArincCall → Except PartitionExit (ArincPartition × PokErrno)
  | .enterHelper => p.msectionEnterHelper c
  | .checkFlags => p.leaveCheckFlags c
  | call =>
    if (p.threads c).point ≠ .running then .error .refused
    else
      match call with
      | .create attr entryOk stackOk => p.pokThreadCreate attr entryOk stackOk
      | .createError entryOk stackOk => p.errorThreadCreate entryOk stackOk
      | .delayedStart id delay now start => p.pokThreadDelayedStart id delay now start
      | .stopTarget id => p.pokThreadStopTarget c id
      | .stop => p.pokThreadStop hm c
      | .suspendTarget id => p.pokThreadSuspendTarget c id
      | .suspend time now => p.pokThreadSuspend c time now
      | .resume id => p.pokThreadResume c id
      | .setPriority id priority => p.pokThreadSetPriority id priority
      | .yield => returning .ok (p.threadYield c)
      | .sleep time now => p.pokThreadSleep c time now
      | .endPeriod => p.pokSchedEndPeriod c
      | .replenish budget now => p.pokSchedReplenish c budget now
      | .portWait port sending timeout now byPriority =>
        p.pokPortWait c port sending timeout now byPriority
      | .incLockLevel => .ok (p.incLockLevel c)
      | .decLockLevel => .ok (p.decLockLevel c)
      | .setMode mode now start => p.partitionSetMode mode now start
      | .raiseApplicationError => p.raiseApplicationError hm c
      | .raiseOsError => p.raiseOsError hm
      | .errorGet => (p.errorGet c).map fun r => (r.1, r.2.1)
      | .msectionWait sec timeout now => p.msectionWait c sec timeout now
      | .msectionNotify sec targets => p.msectionNotify c sec targets
      | .enterHelper | .checkFlags => .error .refused

end ArincPartition

end Chpok
