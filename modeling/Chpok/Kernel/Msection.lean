import Chpok.Library.Run
import Mathlib.Data.List.Basic
import Mathlib.Logic.Function.Basic

/-! Mutual sections of one partition: the user code of `libpok/core/msection.c`, one step
for each of its accesses to memory, and the kernel code that it meets
(`kernel/core/thread.c`, `kernel/core/sched_arinc.c`), one step for each section with
local preemption disabled. A failed assertion has no result. The run queue is not part
of the state: the thread that heads it, and the wake-ups and invalidations that other
parts of the kernel contribute to a step, are given with the step. -/

namespace Chpok

/-- `pok_state_t` -/
inductive ThreadState where
  | stopped
  | runnable
  | waiting
  deriving DecidableEq, Repr

inductive WaitResult where
  | ok
  | timeout
  | cancelled
  deriving DecidableEq, Repr

/-- Where the program of a thread stands: in its own code, between two accesses of
`msection_enter` or `msection_leave`, or in `jet_msection_wait`. -/
inductive SectionPoint where
  | running
  | counted (sec : Nat)
  | announced (sec : Nat)
  | readFree (sec : Nat)
  | readOther (sec : Nat)
  | acquired (sec : Nat)
  | left (sec : Nat)
  | discounted (sec : Nat)
  | waiting (sec : Nat)
  deriving DecidableEq, Repr

/-- `pok_thread_t` with its `jet_thread_shared_data` (`msectionCount`, `sharedEntering`,
`killed`) and its program: `inside` are the sections that it has entered. -/
structure SectionThread where
  state : ThreadState
  hasContext : Bool
  waitResult : WaitResult
  msectionEntering : Option Nat
  donateTarget : Option Nat
  firstDonator : Option Nat
  nextDonator : Option Nat
  msectionCount : Nat
  sharedEntering : Option Nat
  killed : Bool
  point : SectionPoint
  inside : List Nat
  deriving DecidableEq, Repr

/-- `struct msection` -/
structure Msection where
  owner : Option Nat
  reschedAfterLeave : Bool
  deriving DecidableEq, Repr

structure SectionSystem where
  threads : Nat → SectionThread
  nthreadsUsed : Nat
  sections : Nat → Msection
  threadCurrent : Option Nat
  threadSelected : Option Nat
  waitingSection : Option Nat
  recheckNeeded : Bool
  threadError : Option Nat

/-- Which thread the rule of `sched_arinc` comes to: none, the first of those that it may
continue, or the error handler that has to be started. -/
inductive SchedChoice where
  | idle
  | continue (thread : Nat)
  | startError
  deriving DecidableEq, Repr

/-- What `pok_preemption_local_enable` finds: the threads that timers and ports wake up,
whether the run queue asks for a recheck, and the choice of the rule. -/
structure KernelExit where
  woken : List Nat
  invalidate : Bool
  choice : SchedChoice
  deriving DecidableEq, Repr

/-- `section` stands for the section's address; the other fields say what the code around
the call comes to. -/
inductive SectionInput where
  | onEvent (exit : KernelExit)
  | enter (sec : Nat)
  | announce
  | readOwner
  | storeOwner
  | enterHelper (exit : KernelExit)
  | finish
  | leave (sec : Nat)
  | discount
  | checkFlags (exit : KernelExit)
  | wait (sec : Nat) (refused : Bool) (exit : KernelExit)
  | waitReturn
  | notify (sec : Nat) (targets : List Nat) (exit : KernelExit)
  | stopTarget (target : Nat) (exit : KernelExit)
  | stop (exit : KernelExit)
  | start (target : Nat) (delayed : Bool) (exit : KernelExit)
  | block (exit : KernelExit)
  | call (exit : KernelExit)
  deriving DecidableEq, Repr

namespace SectionSystem

def updateThread (s : SectionSystem) (t : Nat) (f : SectionThread → SectionThread) :
    SectionSystem :=
  { s with threads := Function.update s.threads t (f (s.threads t)) }

def updateSection (s : SectionSystem) (sec : Nat) (f : Msection → Msection) : SectionSystem :=
  { s with sections := Function.update s.sections sec (f (s.sections sec)) }

/-- `pok_sched_local_invalidate` -/
def invalidate (s : SectionSystem) : SectionSystem := { s with recheckNeeded := true }

/-- `thread_wake_up` -/
def threadWakeUp (s : SectionSystem) (t : Nat) : Option SectionSystem :=
  if (s.threads t).state = .waiting then
    some (s.updateThread t fun th => { th with
      state := .runnable
      waitResult := if th.msectionEntering.isSome then .timeout else th.waitResult })
  else none

/-- `thread_stop` -/
def threadStop (s : SectionSystem) (t : Nat) : Option SectionSystem :=
  if (s.threads t).state = .stopped then none
  else some (s.updateThread t fun th => { th with state := .stopped, msectionEntering := none })

/-- The loop of `select_thread`, which follows the owners of sections. -/
def selectOwner : Nat → SectionSystem → Nat → Nat → Option (SectionSystem × Nat)
  | attempts, s, new, sec =>
    if (s.sections sec).owner = none ∨ (s.sections sec).owner = some new then
      some ((s.updateSection sec fun m => { m with owner := some new }).updateThread new
        fun th => { th with msectionEntering := none }, new)
    else
      match (s.sections sec).owner with
      | none => none
      | some owner =>
        if owner < s.nthreadsUsed ∧ 0 < owner ∧ (s.threads owner).state = .runnable then
          match attempts with
          | 0 => none
          | attempts + 1 =>
            match (s.threads owner).msectionEntering with
            | none => some ({ s with waitingSection := some sec }, owner)
            | some next => selectOwner attempts { s with waitingSection := some sec } owner next
        else none

/-- `select_thread` clears the flag of the section that was waited for ... -/
def clearWaiting (s : SectionSystem) : SectionSystem :=
  match s.waitingSection with
  | none => s
  | some sec =>
    { s.updateSection sec fun m => { m with reschedAfterLeave := false } with
      waitingSection := none }

/-- ... and sets that of the section that is waited for now. -/
def markWaiting (s : SectionSystem) : SectionSystem :=
  match s.waitingSection with
  | none => s
  | some sec => s.updateSection sec fun m => { m with reschedAfterLeave := true }

/-- `select_thread` -/
def selectThread (s : SectionSystem) (selected : Option Nat) :
    Option (SectionSystem × Option Nat) :=
  match selected with
  | none => some ({ s.clearWaiting with threadSelected := none }, none)
  | some t =>
    match (s.threads ((s.threads t).donateTarget.getD t)).msectionEntering with
    | none => some ({ s.clearWaiting with threadSelected := selected },
        some ((s.threads t).donateTarget.getD t))
    | some sec =>
      (selectOwner 5 { s.clearWaiting with threadSelected := selected }
        ((s.threads t).donateTarget.getD t) sec).map fun r => (r.1.markWaiting, some r.2)

/-- The context of a thread is lost, and with it the program's place. -/
def resetContext (th : SectionThread) : SectionThread :=
  { th with hasContext := false, point := .running, inside := [] }

/-- The rule of `sched_arinc`. It continues runnable threads only. -/
def schedRule (s : SectionSystem) : SchedChoice → Option (SectionSystem × Option Nat)
  | .idle => some (s, none)
  | .continue t => if (s.threads t).state = .runnable then some (s, some t) else none
  | .startError =>
    match s.threadError with
    | none => none
    | some t =>
      if (s.threads t).state = .stopped then
        some (s.updateThread t fun th => { resetContext th with state := .runnable }, some t)
      else none

/-- The end of `sched_arinc`. Only the error handler may restart itself. -/
def switchTo (s : SectionSystem) (new : Option Nat) : Option SectionSystem :=
  match new with
  | none => some { s with threadCurrent := none }
  | some t =>
    if s.threadCurrent = some t ∧ (s.threads t).hasContext = false ∧ s.threadError ≠ some t then
      none
    else
      some { s.updateThread t (fun th => { th with hasContext := true }) with
        threadCurrent := some t }

/-- `sched_arinc` after the events have been processed. -/
def schedArinc (s : SectionSystem) (choice : SchedChoice) : Option SectionSystem :=
  if s.recheckNeeded then
    (schedRule { s with recheckNeeded := false } choice).bind fun r =>
      (r.1.selectThread r.2).bind fun n => n.1.switchTo n.2
  else some s

def wakeAll : SectionSystem → List Nat → Option SectionSystem
  | s, [] => some s
  | s, t :: ts => (s.threadWakeUp t).bind fun s => wakeAll s ts

/-- `pok_preemption_local_enable`, or the end of `pok_sched_arinc_on_event`. -/
def exitKernel (s : SectionSystem) (e : KernelExit) : Option SectionSystem :=
  (s.wakeAll e.woken).bind fun s =>
    schedArinc { s with recheckNeeded := s.recheckNeeded || e.invalidate } e.choice

/-- `pok_sched_arinc_on_event`, up to `sched_arinc`. -/
def recordEntering (s : SectionSystem) : SectionSystem :=
  match s.threadCurrent with
  | none => s
  | some t =>
    match (s.threads t).sharedEntering with
    | none => s
    | some sec => s.updateThread t fun th => { th with msectionEntering := some sec }

/-- `jet_msection_enter_helper` -/
def msectionEnterHelper (s : SectionSystem) (t sec : Nat) : SectionSystem :=
  if (s.sections sec).owner ≠ none ∧ (s.sections sec).owner ≠ some t then
    (s.updateThread t fun th => { th with msectionEntering := some sec }).invalidate
  else s

/-- `jet_msection_wait` between the two ends of its section. -/
def msectionWait (s : SectionSystem) (t sec : Nat) : SectionSystem :=
  if (s.threads t).firstDonator ≠ none then
    s.updateThread t fun th => { th with waitResult := .cancelled, point := .waiting sec }
  else
    ((s.updateThread t fun th => { th with
      msectionEntering := some sec, state := .waiting, point := .waiting sec }).updateSection sec
        fun m => { m with owner := none }).invalidate

/-- `jet_msection_notify` and `jet_msection_wq_notify`, for the waiting threads they find. -/
def msectionNotify (sec : Nat) : SectionSystem → List Nat → Option SectionSystem
  | s, [] => some s
  | s, t :: ts =>
    if (s.threads t).msectionEntering = some sec then
      (s.threadWakeUp t).bind fun s =>
        msectionNotify sec (s.updateThread t fun th => { th with waitResult := .ok }) ts
    else none

/-- `thread_current` becomes a donator of `target` in front of `next`. -/
def donate (s : SectionSystem) (c target : Nat) (next : Option Nat) : SectionSystem :=
  s.updateThread c fun th => { th with donateTarget := some target, nextDonator := next }

/-- The wait of a thread that is to be stopped inside its section is interrupted. -/
def interruptWait (s : SectionSystem) (t : Nat) : Option SectionSystem :=
  if (s.threads t).state = .waiting then
    (s.threadWakeUp t).map (·.updateThread t fun th => { th with waitResult := .cancelled })
  else some s

/-- `pok_thread_stop_target` for a target that exists and is not the caller. -/
def threadStopTarget (s : SectionSystem) (c t : Nat) : Option SectionSystem :=
  if (s.threads t).state = .stopped then some s
  else
    match (s.threads t).donateTarget with
    | some target =>
      -- The target is a donator itself; it is to stop when its own target has.
      some (((s.updateThread t fun th => { th with
          firstDonator := if th.firstDonator = none then some c else th.firstDonator
          nextDonator := some c }).donate c target (s.threads t).nextDonator).invalidate)
    | none =>
      if (s.threads t).firstDonator ≠ none then
        some (((s.updateThread t fun th => { th with firstDonator := some c }).donate c t
          (s.threads t).firstDonator).invalidate)
      else if (s.threads t).msectionCount ≠ 0 then
        (s.interruptWait t).map fun s =>
          ((s.updateThread t fun th => { th with
            firstDonator := some c, killed := true }).donate c t none).invalidate
      else s.threadStop t

/-- One pass of the loop of `jet_resched`. A donator that is a target itself stops. -/
def resumeDonator (s : SectionSystem) (donator : Nat) : Option SectionSystem :=
  (if (s.threads donator).firstDonator = none then some s
    else (s.updateThread donator fun th => { th with firstDonator := none }).threadStop
      donator).map fun r =>
    { r.updateThread donator (fun th => { th with donateTarget := none, nextDonator := none }) with
      recheckNeeded := r.recheckNeeded || s.threadSelected == some donator }

/-- The loop of `jet_resched`. A list of donators has at most as many as there are threads. -/
def resumeDonators : Nat → SectionSystem → Nat → Option SectionSystem
  | 0, _, _ => none
  | fuel + 1, s, donator => (s.resumeDonator donator).bind fun r =>
    match (s.threads donator).nextDonator with
    | none => some r
    | some next => resumeDonators fuel r next

/-- `jet_resched` first sees whether the section that is waited for has been released. -/
def checkReleased (s : SectionSystem) : SectionSystem :=
  match s.waitingSection with
  | none => s
  | some sec => if (s.sections sec).owner = none then s.invalidate else s

/-- `jet_resched` -/
def resched (s : SectionSystem) (t : Nat) : Option SectionSystem :=
  match (s.threads t).firstDonator with
  | none => some s.checkReleased
  | some donator =>
    if (s.threads t).msectionCount = 0 then
      ((s.checkReleased.updateThread t fun th => { th with firstDonator := none }).threadStop
        t).bind fun r => resumeDonators s.nthreadsUsed r donator
    else some s.checkReleased

/-- `thread_delayed_start_internal` -/
def threadStart (s : SectionSystem) (t : Nat) (delayed : Bool) : SectionSystem :=
  if (s.threads t).state = .stopped then
    s.updateThread t fun th => { resetContext th with
      state := if delayed then .waiting else .runnable
      msectionCount := 0
      sharedEntering := none
      killed := false }
  else s

/-- `get_thread_by_id` -/
def HasThread (s : SectionSystem) (t : Nat) : Prop :=
  0 < t ∧ t < s.nthreadsUsed ∧ s.threadError ≠ some t

instance (s : SectionSystem) (t : Nat) : Decidable (s.HasThread t) :=
  inferInstanceAs (Decidable (0 < t ∧ t < s.nthreadsUsed ∧ s.threadError ≠ some t))

/-- What thread `t` does in user space, or in the kernel on its own behalf. -/
def threadStep (s : SectionSystem) (t : Nat) (th : SectionThread) :
    SectionInput → Option SectionSystem
  | .onEvent _ => none
  -- msection_enter
  | .enter sec =>
    if th.point = .running ∧ sec ∉ th.inside then
      some (s.updateThread t fun th => { th with
        msectionCount := th.msectionCount + 1, point := .counted sec })
    else none
  | .announce =>
    match th.point with
    | .counted sec => some (s.updateThread t fun th => { th with
        sharedEntering := some sec, point := .announced sec })
    | _ => none
  | .readOwner =>
    match th.point with
    | .announced sec => some (s.updateThread t fun th => { th with
        point := if (s.sections sec).owner = none then .readFree sec
          else if (s.sections sec).owner = some t then .acquired sec
          else .readOther sec })
    | _ => none
  | .storeOwner =>
    match th.point with
    | .readFree sec => some ((s.updateSection sec fun m => { m with owner := some t }).updateThread
        t fun th => { th with point := .acquired sec })
    | _ => none
  | .enterHelper exit =>
    match th.point with
    | .readOther sec => ((s.updateThread t fun th => { th with
        point := .acquired sec }).msectionEnterHelper t sec).exitKernel exit
    | _ => none
  | .finish =>
    match th.point with
    | .acquired sec => some (s.updateThread t fun th => { th with
        sharedEntering := none, point := .running, inside := sec :: th.inside })
    | _ => none
  -- msection_leave
  | .leave sec =>
    if th.point = .running ∧ sec ∈ th.inside then
      some ((s.updateSection sec fun m => { m with owner := none }).updateThread t fun th =>
        { th with point := .left sec, inside := th.inside.filter (· ≠ sec) })
    else none
  | .discount =>
    match th.point with
    | .left sec => some (s.updateThread t fun th => { th with
        msectionCount := th.msectionCount - 1, point := .discounted sec })
    | _ => none
  | .checkFlags exit =>
    match th.point with
    | .discounted sec =>
      if th.msectionCount = 0 ∧ th.killed ∨ (s.sections sec).reschedAfterLeave then
        (s.resched t).bind fun r =>
          (r.updateThread t fun th => { th with point := .running }).exitKernel exit
      else some (s.updateThread t fun th => { th with point := .running })
    | _ => none
  -- msection_wait and msection_notify
  | .wait sec refused exit =>
    if th.point = .running ∧ (s.sections sec).owner = some t ∧ th.msectionCount = 1 then
      -- Refused while preemption is locked, and to the error handler.
      if refused then some s else (s.msectionWait t sec).exitKernel exit
    else none
  | .waitReturn =>
    match th.point with
    | .waiting _ => some (s.updateThread t fun th => { th with point := .running })
    | _ => none
  | .notify sec targets exit =>
    if th.point = .running ∧ (s.sections sec).owner = some t then
      (msectionNotify sec s targets).bind (·.exitKernel exit)
    else none
  -- other system calls
  | .stopTarget target exit =>
    if th.point = .running then
      if s.HasThread target ∧ target ≠ t then
        (s.threadStopTarget t target).bind (·.exitKernel exit)
      else some s
    else none
  | .stop exit =>
    if th.point = .running ∧ th.donateTarget = none ∧ th.firstDonator = none then
      (s.threadStop t).bind (·.invalidate.exitKernel exit)
    else none
  | .start target delayed exit =>
    if th.point = .running then
      if s.HasThread target then (s.threadStart target delayed).exitKernel exit else some s
    else none
  | .block exit =>
    if th.point = .running ∧ th.msectionCount = 0 ∧ th.firstDonator = none then
      (s.updateThread t fun th => { th with state := .waiting }).exitKernel exit
    else none
  | .call exit => if th.point = .running then s.exitKernel exit else none

/-- What thread `t` does in a system call up to `pok_preemption_local_enable`, and what that
call finds. -/
def threadKernel (s : SectionSystem) (t : Nat) (th : SectionThread) :
    SectionInput → Option (SectionSystem × KernelExit)
  | .enterHelper exit =>
    match th.point with
    | .readOther sec => some ((s.updateThread t fun th => { th with
        point := .acquired sec }).msectionEnterHelper t sec, exit)
    | _ => none
  | .checkFlags exit =>
    match th.point with
    | .discounted sec =>
      if th.msectionCount = 0 ∧ th.killed ∨ (s.sections sec).reschedAfterLeave then
        (s.resched t).map fun r => (r.updateThread t fun th => { th with point := .running }, exit)
      else none
    | _ => none
  | .wait sec refused exit =>
    if th.point = .running ∧ (s.sections sec).owner = some t ∧ th.msectionCount = 1 then
      if refused then none else some (s.msectionWait t sec, exit)
    else none
  | .notify sec targets exit =>
    if th.point = .running ∧ (s.sections sec).owner = some t then
      (msectionNotify sec s targets).map fun r => (r, exit)
    else none
  | .stopTarget target exit =>
    if th.point = .running then
      if s.HasThread target ∧ target ≠ t then
        (s.threadStopTarget t target).map fun r => (r, exit)
      else none
    else none
  | .stop exit =>
    if th.point = .running ∧ th.donateTarget = none ∧ th.firstDonator = none then
      (s.threadStop t).map fun r => (r.invalidate, exit)
    else none
  | .start target delayed exit =>
    if th.point = .running then
      if s.HasThread target then some (s.threadStart target delayed, exit) else none
    else none
  | .block exit =>
    if th.point = .running ∧ th.msectionCount = 0 ∧ th.firstDonator = none then
      some (s.updateThread t fun th => { th with state := .waiting }, exit)
    else none
  | .call exit => if th.point = .running then some (s, exit) else none
  | .onEvent _ | .enter _ | .announce | .readOwner | .storeOwner | .finish | .leave _ | .discount
  | .waitReturn => none

/-- One step of the thread that is executed, whatever its state. -/
def stepAnyone (s : SectionSystem) (e : SectionInput) : Option SectionSystem :=
  match e with
  | .onEvent exit => s.recordEntering.exitKernel exit
  | e => s.threadCurrent.bind fun t => s.threadStep t (s.threads t) e

/-- One step where only runnable threads are executed. The code does not check that; it is so as
long as no thread stops another one from inside a section and no owner is stale. -/
def step (s : SectionSystem) (e : SectionInput) : Option SectionSystem :=
  match e with
  | .onEvent exit => s.recordEntering.exitKernel exit
  | e =>
    s.threadCurrent.bind fun t =>
      if (s.threads t).state = .runnable then s.threadStep t (s.threads t) e else none

end SectionSystem

end Chpok
