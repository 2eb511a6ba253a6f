import Chpok.Kernel.ArincExits
import Chpok.Kernel.ThreadSelect

/-! Between two choices of the scheduler, no function of the kernel touches the thread that has
been selected, the section that is waited for or whether the error handler runs. -/

namespace Chpok

namespace ArincPartition

open Outcome

variable {p q : ArincPartition} {t c port : Nat} {hm : PartitionHm} {time duration now : Int}
  {s : Nat × Option Nat × Option Nat × Bool}

/-- What the scheduler has chosen, and how many threads there are to choose from. -/
def choiceState (p : ArincPartition) : Nat × Option Nat × Option Nat × Bool :=
  (p.nthreads, p.threadSelected, p.waitingSection, p.isErrorHandler)

/-- A partition that stops early meets `inv`. -/
def ExitWith (inv : ArincPartition → Prop) : PartitionExit → Prop
  | .reset p | .idle p | .forever p => inv p
  | .failed _ | .refused => True

/-- The choice is `s` in the end, and where a function stops early. -/
def Leaves (s : Nat × Option Nat × Option Nat × Bool) (m : Except PartitionExit ArincPartition) :
    Prop :=
  Sat (ExitWith fun p => p.choiceState = s) (fun p => p.choiceState = s) m

def LeavesCall (s : Nat × Option Nat × Option Nat × Bool)
    (m : Except PartitionExit (ArincPartition × PokErrno)) : Prop :=
  Sat (ExitWith fun p => p.choiceState = s) (fun r => r.1.choiceState = s) m

theorem Leaves.returning {m : Except PartitionExit ArincPartition} {errno : PokErrno}
    (h : Leaves s m) : LeavesCall s (returning errno m) :=
  Sat.map h fun _ hq => hq

theorem Leaves.map {m : Except PartitionExit ArincPartition} {f : ArincPartition → ArincPartition}
    (h : Leaves s m) (hf : ∀ q, (f q).choiceState = q.choiceState) : Leaves s (m.map f) :=
  Sat.map h fun q hq => (hf q).trans hq

theorem Leaves.bind {m : Except PartitionExit ArincPartition}
    {f : ArincPartition → Except PartitionExit ArincPartition} (h : Leaves s m)
    (hf : ∀ q, q.choiceState = s → Leaves s (f q)) : Leaves s (m.bind f) :=
  Sat.bind h hf

/-! Functions that change one thread. Most of the equations hold by definition; `simp` needs them. -/

@[simp]
theorem choiceState_updateThread {f : SectionThread → SectionThread} :
    (p.updateThread t f).choiceState = p.choiceState := rfl

@[simp]
theorem choiceState_updateSched {f : SchedThread → SchedThread} :
    (p.updateSched t f).choiceState = p.choiceState := rfl

@[simp]
theorem choiceState_setState {state : ThreadState} :
    (p.setState t state).choiceState = p.choiceState := rfl

@[simp]
theorem choiceState_setWaitResult {waitResult : WaitResult} :
    (p.setWaitResult t waitResult).choiceState = p.choiceState := rfl

@[simp]
theorem choiceState_setSuspended {suspended : Bool} :
    (p.setSuspended t suspended).choiceState = p.choiceState := rfl

@[simp]
theorem choiceState_localInvalidate : p.localInvalidate.choiceState = p.choiceState := rfl

@[simp]
theorem choiceState_delayedEventRemove {kind : DelayedKind} :
    (p.delayedEventRemove t kind).choiceState = p.choiceState := rfl

@[simp]
theorem choiceState_threadSetDeadline :
    (p.threadSetDeadline t time).choiceState = p.choiceState := rfl

@[simp]
theorem choiceState_threadDelayEventCancel :
    (p.threadDelayEventCancel t).choiceState = p.choiceState := rfl

@[simp]
theorem choiceState_invalidateIfFirst : (p.invalidateIfFirst t).choiceState = p.choiceState := by
  unfold invalidateIfFirst
  split_ifs <;> rfl

@[simp]
theorem choiceState_threadSetUneligible :
    (p.threadSetUneligible t).choiceState = p.choiceState :=
  choiceState_invalidateIfFirst

@[simp]
theorem choiceState_threadWqRemove : (p.threadWqRemove t).choiceState = p.choiceState := by
  unfold threadWqRemove
  cases (p.sched t).waitElem <;> rfl

@[simp]
theorem choiceState_dropLock : (p.dropLock t).choiceState = p.choiceState := by
  unfold dropLock
  split_ifs <;> rfl

@[simp]
theorem choiceState_dropUnrecoverable : (p.dropUnrecoverable t).choiceState = p.choiceState := by
  unfold dropUnrecoverable
  split_ifs <;> rfl

@[simp]
theorem choiceState_cancelWait : (p.cancelWait t).choiceState = p.choiceState := by
  unfold cancelWait
  split_ifs <;> simp

@[simp]
theorem choiceState_threadSuspend : (p.threadSuspend t).choiceState = p.choiceState := by
  simp [threadSuspend]

@[simp]
theorem choiceState_setNextActivation :
    (p.setNextActivation t time).choiceState = p.choiceState := by
  unfold setNextActivation
  split_ifs <;> simp

@[simp]
theorem choiceState_setStartDeadline :
    (p.setStartDeadline t time).choiceState = p.choiceState := by
  unfold setStartDeadline
  split_ifs <;> simp

@[simp]
theorem choiceState_resetStarted : (p.resetStarted t).choiceState = p.choiceState := rfl

theorem choiceState_checkReleased :
    (p.onSections (·.checkReleased)).choiceState = p.choiceState := by
  rcases onSections_checkReleased (p := p) with he | he
  · rw [he]
  · rw [he, choiceState_localInvalidate]

theorem choiceState_recordEntering :
    (p.onSections (·.recordEntering)).choiceState = p.choiceState := by
  unfold onSections SectionSystem.recordEntering
  dsimp only
  split
  · rfl
  · split <;> rfl

/-! `kernel/core/thread_internal.c` -/

theorem threadSetEligible_leaves (h : p.choiceState = s) : Leaves s (p.threadSetEligible t) := by
  apply Sat.ite
  · intro _
    exact choiceState_invalidateIfFirst.trans h
  · exact fun _ => trivial

theorem setEligibleUnlessSuspended_leaves (h : p.choiceState = s) :
    Leaves s (p.setEligibleUnlessSuspended t) :=
  Sat.ite (fun _ => h) fun _ => threadSetEligible_leaves h

theorem threadYield_leaves (h : p.choiceState = s) : Leaves s (p.threadYield t) :=
  Sat.ite (fun _ => threadSetEligible_leaves (by simpa using h)) fun _ => h

theorem threadStop_leaves (h : p.choiceState = s) : Leaves s (p.threadStop t) := by
  apply Sat.ite
  · exact fun _ => trivial
  · intro _
    simpa [sat_ok] using h

theorem threadStart_leaves (h : p.choiceState = s) : Leaves s (p.threadStart t) :=
  setEligibleUnlessSuspended_leaves h

theorem threadWait_leaves (h : p.choiceState = s) : Leaves s (p.threadWait t) := by
  apply Sat.ite
  · intro _
    simpa [sat_ok] using h
  · exact fun _ => trivial

theorem threadWakeUp_leaves (h : p.choiceState = s) : Leaves s (p.threadWakeUp t) :=
  Sat.ite (fun _ => setEligibleUnlessSuspended_leaves (by simpa using h)) fun _ => trivial

theorem threadWaitTimed_leaves (h : p.choiceState = s) : Leaves s (p.threadWaitTimed t time) :=
  Sat.ite (fun _ => trivial) fun _ => (threadWait_leaves h).map fun _ => rfl

theorem threadWaitCommon_leaves (h : p.choiceState = s) :
    Leaves s (p.threadWaitCommon t duration now) :=
  Sat.ite (fun _ => trivial) fun _ => Sat.ite (fun _ => threadWait_leaves h) fun _ =>
    threadWaitTimed_leaves h

theorem threadResumeWaited_leaves (h : p.choiceState = s) : Leaves s (p.threadResumeWaited t) :=
  Sat.ite (fun _ => threadSetEligible_leaves h) fun _ => trivial

theorem threadSuspendTimed_leaves (h : p.choiceState = s) :
    Leaves s (p.threadSuspendTimed t time now) :=
  Leaves.map (threadWait_leaves (by simpa using h)) fun _ => rfl

theorem threadResume_leaves (h : p.choiceState = s) : Leaves s (p.threadResume t) := by
  have hresumed : (if p.DelayedEventActive t .delayed ∧ (p.sched t).delayedFunc = .resumeWaited then
      (((p.setSuspended t false).setState t .runnable).threadDelayEventCancel t).setWaitResult t .ok
    else p.setSuspended t false).choiceState = s := by
    split_ifs <;> exact h
  exact Sat.ite (fun _ => threadSetEligible_leaves hresumed) fun _ => hresumed

/-! Errors -/

theorem partitionReset_leaves {mode : PartitionMode} (h : p.choiceState = s) :
    Leaves s (p.partitionReset mode) :=
  Sat.ite (fun _ => h) fun _ => trivial

theorem takeFixedAction_leaves {action : ErrorAction} (h : p.choiceState = s) :
    Leaves s (p.takeFixedAction action) := by
  cases action with
  | ignore => exact h
  | idle => exact h
  | coldStart => exact partitionReset_leaves h
  | warmStart => exact Sat.ite (fun _ => trivial) fun _ => partitionReset_leaves h

theorem processErrorPartition_leaves {state : SystemState} {errorId : ErrorId}
    (h : p.choiceState = s) : Sat (ExitWith fun p => p.choiceState = s) (fun _ => True)
      (processErrorPartition hm p state errorId) := by
  apply Sat.ite
  · exact fun _ => trivial
  · intro _
    apply Sat.bind (takeFixedAction_leaves h)
    intro q hq
    apply Sat.ite
    · exact fun _ => trivial
    · intro _
      have hzero : { q with nthreadsUnrecoverable := 0 }.choiceState = s := hq
      exact Sat.bind (takeFixedAction_leaves hzero) fun r hr => hr

theorem threadAddErrorBit_leaves {bit : ErrorBit} (h : p.choiceState = s) :
    Leaves s (p.threadAddErrorBit t bit) :=
  Sat.ite (fun _ => trivial) fun _ => Sat.ite (fun _ => h) fun _ => h

theorem threadClearErrorBit_leaves {bit : ErrorBit} (h : p.choiceState = s) :
    Leaves s (p.threadClearErrorBit t bit) :=
  Sat.ite (fun _ => Sat.ite (fun _ => h) fun _ => h) fun _ => trivial

theorem choiceState_threadSetUnrecoverable :
    (p.threadSetUnrecoverable t).choiceState = p.choiceState := by
  unfold threadSetUnrecoverable
  split_ifs <;> rfl

theorem processError_leaves {errorId : ErrorId} {failedAddr : Nat} (h : p.choiceState = s) :
    Leaves s (p.processError hm c errorId failedAddr) :=
  Sat.bind (processErrorPartition_leaves h) fun _ _ => Sat.ite (fun _ => h) fun _ =>
    Sat.ite (fun _ => trivial) fun _ => threadAddErrorBit_leaves h

theorem emitDeadlineMissed_leaves (h : p.choiceState = s) :
    Leaves s (p.emitDeadlineMissed hm t) :=
  Sat.bind (processErrorPartition_leaves h) fun _ _ => Sat.ite (fun _ => h) fun _ =>
    threadAddErrorBit_leaves h

theorem emitDeadlineOor_leaves (h : p.choiceState = s) : Leaves s (p.emitDeadlineOor hm t) := by
  have hset : (p.threadSetUnrecoverable t).choiceState = s :=
    choiceState_threadSetUnrecoverable.trans h
  exact Sat.bind (processErrorPartition_leaves hset) fun _ _ => Sat.ite (fun _ => hset) fun _ =>
    threadAddErrorBit_leaves hset

theorem errorIgnoreSync_leaves (h : p.choiceState = s) : Leaves s p.errorIgnoreSync := by
  unfold errorIgnoreSync
  cases p.errorList with
  | nil => exact h
  | cons t rest => exact Sat.ite (fun _ => (threadClearErrorBit_leaves h).map fun _ => rfl) fun _ => h

theorem errorGet_leaves (h : p.choiceState = s) :
    Sat (ExitWith fun p => p.choiceState = s) (fun r => r.1.choiceState = s) (p.errorGet c) := by
  apply Sat.ite
  · exact fun _ => h
  · intro _
    cases p.errorList with
    | nil => exact h
    | cons t rest =>
      dsimp only
      cases p.pendingError t with
      | none => trivial
      | some report => exact Sat.map (threadClearErrorBit_leaves h) fun q hq => hq

/-! Events -/

theorem processEvent_leaves {event : DelayedEvent} (h : p.choiceState = s) :
    Leaves s (processEvent hm p event) := by
  unfold processEvent
  cases event.kind with
  | deadline => exact emitDeadlineMissed_leaves h
  | delayed =>
    dsimp only
    cases (p.sched event.thread).delayedFunc with
    | wakeUp => exact threadWakeUp_leaves h
    | resumeWaited => exact threadResumeWaited_leaves h

theorem delayedEventQueueCheck_leaves {n : Nat} (h : p.choiceState = s) :
    Leaves s (delayedEventQueueCheck hm now n p) := by
  induction n generalizing p with
  | zero => exact h
  | succ n ih =>
    rw [delayedEventQueueCheck]
    split
    · exact h
    · rename_i event rest _
      have hrest : { p with delayedEvents := rest }.choiceState = s := h
      exact Sat.ite (fun _ => h) fun _ => (processEvent_leaves hrest).bind fun q hq => ih hq

theorem portQueuingFired_leaves {served : Nat} (h : p.choiceState = s) :
    Leaves s (portQueuingFired port served p) := by
  induction served generalizing p with
  | zero => exact h
  | succ served ih =>
    rw [portQueuingFired]
    split
    · exact h
    · exact (threadWakeUp_leaves (by simpa using h)).bind fun q hq => ih hq

theorem drain_leaves {events : List DrainedEvent} (h : p.choiceState = s) :
    Leaves s (drain hm events p) := by
  induction events generalizing p with
  | nil => exact h
  | cons event events ih =>
    apply Leaves.bind _ fun q hq => ih hq
    cases event with
    | timer => exact delayedEventQueueCheck_leaves h
    | port => exact portQueuingFired_leaves h

/-! System calls -/

theorem resumeDonator_leaves (h : p.choiceState = s) : Leaves s (p.resumeDonator t) := by
  have hseen : (if p.threadSelected = some t then
      (p.updateThread t fun th => { th with donateTarget := none }).localInvalidate
    else p.updateThread t fun th => { th with donateTarget := none }).choiceState = s := by
    split_ifs <;> exact h
  refine Leaves.map ?_ fun _ => rfl
  exact Sat.ite (fun _ => hseen) fun _ => threadStop_leaves hseen

theorem resumeDonators_leaves {fuel : Nat} (h : p.choiceState = s) :
    Leaves s (resumeDonators fuel p t) := by
  induction fuel generalizing p t with
  | zero => trivial
  | succ fuel ih =>
    apply (resumeDonator_leaves h).bind
    intro q hq
    cases (p.threads t).nextDonator with
    | none => exact hq
    | some next => exact ih hq

theorem jetResched_leaves (h : p.choiceState = s) : Leaves s (p.jetResched c) := by
  have hchecked := choiceState_checkReleased.trans h
  unfold jetResched
  cases (p.threads c).firstDonator with
  | none => exact hchecked
  | some donator =>
    apply Sat.ite
    · intro _
      apply Leaves.bind (threadStop_leaves _) fun q hq => resumeDonators_leaves hq
      exact hchecked
    · exact fun _ => hchecked

theorem pokThreadCreate_leaves {attr : ThreadAttr} {entryOk stackOk : Bool}
    (h : p.choiceState = s) : LeavesCall s (p.pokThreadCreate attr entryOk stackOk) := by
  refine Sat.ite (fun _ => h) fun _ => Sat.ite (fun _ => h) fun _ => ?_
  cases attrErrno attr with
  | some errno => exact h
  | none =>
    exact Sat.ite (fun _ => h) fun _ => Sat.ite (fun _ => h) fun _ => Sat.ite (fun _ => h) fun _ => h

theorem errorThreadCreate_leaves {entryOk stackOk : Bool} (h : p.choiceState = s) :
    LeavesCall s (p.errorThreadCreate entryOk stackOk) :=
  Sat.ite (fun _ => h) fun _ => Sat.ite (fun _ => h) fun _ => Sat.ite (fun _ => h) fun _ =>
    Sat.ite (fun _ => h) fun _ => Sat.ite (fun _ => h) fun _ => h

theorem withThread_leaves {id : Nat} {f : Nat → Except PartitionExit (ArincPartition × PokErrno)}
    (h : p.choiceState = s) (hf : LeavesCall s (f id)) : LeavesCall s (p.withThread id f) :=
  Sat.ite (fun _ => hf) fun _ => h

theorem threadDelayedStartInternal_leaves {delay start : Int} (h : p.choiceState = s) :
    LeavesCall s (p.threadDelayedStartInternal t delay now start) := by
  have harmed : ∀ activation begin, (((p.resetStarted t).setNextActivation t
      activation).setStartDeadline t begin).choiceState = s := by
    intro activation begin
    simpa using h
  refine Sat.ite (fun _ => trivial) fun _ => Sat.ite (fun _ => h) fun _ => Sat.ite (fun _ => h)
    fun _ => Sat.ite (fun _ => h) fun _ => Leaves.returning ?_
  exact Sat.ite (fun _ => threadStart_leaves (harmed _ _)) fun _ => threadWaitTimed_leaves (harmed _ _)

theorem sat_waitingAllowed {f : Bool → Except PartitionExit (ArincPartition × PokErrno)}
    (hf : ∀ allowed, LeavesCall s (f allowed)) :
    LeavesCall s ((p.threadIsWaitingAllowed c).bind f) := by
  unfold threadIsWaitingAllowed
  split_ifs
  · exact hf _
  · exact hf _
  · trivial

theorem pokThreadSuspend_leaves (h : p.choiceState = s) :
    LeavesCall s (p.pokThreadSuspend c time now) := by
  have hsuspended : (p.threadSuspend c).choiceState = s := choiceState_threadSuspend.trans h
  refine Sat.ite (fun _ => h) fun _ => sat_waitingAllowed fun allowed => Sat.ite (fun _ => h) fun _ =>
    Sat.ite (fun _ => h) fun _ => Sat.ite (fun _ => hsuspended) fun _ => ?_
  exact (threadSuspendTimed_leaves hsuspended).returning

theorem pokThreadStopTarget_leaves {id : Nat} (h : p.choiceState = s) :
    LeavesCall s (p.pokThreadStopTarget c id) := by
  refine withThread_leaves h (Sat.ite (fun _ => h) fun _ => Sat.ite (fun _ => h) fun _ => ?_)
  cases (p.threads id).donateTarget with
  | some target => exact h
  | none =>
    refine Sat.ite (fun _ => h) fun _ => Sat.ite (fun _ => Leaves.returning ?_) fun _ =>
      (threadStop_leaves h).returning
    have hinterrupted : Leaves s (p.interruptWait id) :=
      Sat.ite (fun _ => (threadWakeUp_leaves h).map fun _ => rfl) fun _ => h
    exact hinterrupted.map fun _ => rfl

theorem pokThreadStop_leaves (h : p.choiceState = s) : LeavesCall s (p.pokThreadStop hm c) := by
  refine Sat.ite (fun _ => trivial) fun _ => Leaves.returning ((threadStop_leaves h).bind
    fun q hq => Leaves.map ?_ fun _ => rfl)
  apply Sat.ite
  · intro _
    apply Leaves.bind _ fun r hr => errorIgnoreSync_leaves hr
    exact Sat.ite (fun _ => hq) fun _ => Sat.map (processErrorPartition_leaves hq) fun _ _ => hq
  · exact fun _ => hq

theorem pokThreadSleep_leaves (h : p.choiceState = s) :
    LeavesCall s (p.pokThreadSleep c time now) :=
  sat_waitingAllowed fun _ => Sat.ite (fun _ => h) fun _ =>
    Sat.ite (fun _ => (threadYield_leaves h).returning) fun _ => (threadWaitCommon_leaves h).returning

theorem pokSchedEndPeriod_leaves (h : p.choiceState = s) : LeavesCall s (p.pokSchedEndPeriod c) := by
  refine Sat.ite (fun _ => h) fun _ => sat_waitingAllowed fun _ => Sat.ite (fun _ => h) fun _ =>
    Leaves.returning (Leaves.map (threadWaitTimed_leaves ?_) fun _ => rfl)
  exact h

theorem pokSchedReplenish_leaves {budget : Int} (h : p.choiceState = s) :
    LeavesCall s (p.pokSchedReplenish c budget now) :=
  Sat.ite (fun _ => h) fun _ => Sat.ite (fun _ => h) fun _ => Sat.ite (fun _ => h) fun _ =>
    Sat.ite (fun _ => Sat.ite (fun _ => h) fun _ => h) fun _ => Sat.ite (fun _ => h) fun _ => h

theorem pokPortWait_leaves {sending byPriority : Bool} (h : p.choiceState = s) :
    LeavesCall s (p.pokPortWait c port sending duration now byPriority) := by
  refine Sat.ite (fun _ => h) fun _ => sat_waitingAllowed fun _ => Sat.ite (fun _ => h) fun _ =>
    Leaves.returning (Leaves.bind ?_ fun q hq => threadWaitCommon_leaves hq)
  apply Sat.ite
  · exact fun _ => trivial
  · intro _
    cases byPriority <;> exact h

theorem releaseThreads_leaves {start : Int} {ts : List Nat} (h : p.choiceState = s) :
    Leaves s (releaseThreads now start ts p) := by
  induction ts generalizing p with
  | nil => exact h
  | cons t ts ih =>
    have hactivated : ∀ time, (p.setNextActivation t time).choiceState = s := by
      intro time
      simpa using h
    apply Leaves.bind _ fun q hq => ih hq
    refine Sat.ite (fun _ => h) fun _ => Leaves.map ?_ fun q => choiceState_setStartDeadline
    exact Sat.ite (fun _ => threadWakeUp_leaves (hactivated _)) fun _ => hactivated _

theorem partitionSetMode_leaves {mode : PartitionMode} {start : Int} (h : p.choiceState = s) :
    LeavesCall s (p.partitionSetMode mode now start) := by
  cases mode with
  | initWarm => exact Sat.ite (fun _ => h) fun _ => (partitionReset_leaves h).returning
  | initCold => exact (partitionReset_leaves h).returning
  | idle => exact h
  | normal =>
    have hentered : { p with mode := .normal, lockLevel := 0 }.localInvalidate.choiceState = s := h
    exact Sat.ite (fun _ => h) fun _ => (releaseThreads_leaves hentered).returning

theorem raiseApplicationError_leaves (h : p.choiceState = s) :
    LeavesCall s (p.raiseApplicationError hm c) := by
  apply Sat.bind (processErrorPartition_leaves h)
  intro processed _
  have hsync : { p with
      syncError := .applicationError, syncErrorFailedAddr := 0 }.choiceState = s := h
  exact Sat.ite (fun _ => h) fun _ => Sat.map (threadAddErrorBit_leaves hsync) fun _ hq => hq

theorem leaveCheckFlags_leaves (h : p.choiceState = s) : LeavesCall s (p.leaveCheckFlags c) := by
  unfold leaveCheckFlags
  split
  · apply Sat.ite
    · intro _
      apply Leaves.returning
      exact Leaves.map (jetResched_leaves h) fun _ => rfl
    · exact fun _ => trivial
  · trivial

theorem msectionEnterHelper_leaves (h : p.choiceState = s) :
    LeavesCall s (p.msectionEnterHelper c) := by
  unfold msectionEnterHelper
  split
  · unfold onSections SectionSystem.msectionEnterHelper
    dsimp only
    split_ifs <;> exact h
  · trivial

theorem msectionWait_leaves {sec : Nat} (h : p.choiceState = s) :
    LeavesCall s (p.msectionWait c sec duration now) := by
  refine Sat.ite (fun _ => trivial) fun _ => Sat.ite (fun _ => h) fun _ => Sat.ite (fun _ => h)
    fun _ => Leaves.returning (Leaves.map (threadWaitCommon_leaves ?_) fun _ => rfl)
  exact h

theorem msectionNotifyAll_leaves {sec : Nat} {targets : List Nat} (h : p.choiceState = s) :
    Leaves s (msectionNotifyAll sec targets p) := by
  induction targets generalizing p with
  | nil => exact h
  | cons t targets ih =>
    exact Sat.ite (fun _ => trivial) fun _ => Sat.ite (fun _ => ih h) fun _ =>
      Sat.ite (fun _ => trivial) fun _ => (threadWakeUp_leaves h).bind fun q hq => ih hq

theorem call_leaves {call : ArincCall} (h : p.choiceState = s) : LeavesCall s (p.call hm c call) := by
  cases call with
  | enterHelper => exact msectionEnterHelper_leaves h
  | checkFlags => exact leaveCheckFlags_leaves h
  | create => exact Sat.ite (fun _ => trivial) fun _ => pokThreadCreate_leaves h
  | createError => exact Sat.ite (fun _ => trivial) fun _ => errorThreadCreate_leaves h
  | delayedStart =>
    exact Sat.ite (fun _ => trivial) fun _ => withThread_leaves h
      (Sat.ite (fun _ => h) fun _ => threadDelayedStartInternal_leaves h)
  | stopTarget => exact Sat.ite (fun _ => trivial) fun _ => pokThreadStopTarget_leaves h
  | stop => exact Sat.ite (fun _ => trivial) fun _ => pokThreadStop_leaves h
  | suspendTarget id =>
    have hsuspended : (p.threadSuspend id).choiceState = s := choiceState_threadSuspend.trans h
    refine Sat.ite (fun _ => trivial) fun _ => withThread_leaves h ?_
    exact Sat.ite (fun _ => h) fun _ => Sat.ite (fun _ => h) fun _ => Sat.ite (fun _ => h) fun _ =>
      Sat.ite (fun _ => h) fun _ => Sat.ite (fun _ => h) fun _ => hsuspended
  | suspend => exact Sat.ite (fun _ => trivial) fun _ => pokThreadSuspend_leaves h
  | resume =>
    refine Sat.ite (fun _ => trivial) fun _ => withThread_leaves h ?_
    exact Sat.ite (fun _ => h) fun _ => Sat.ite (fun _ => h) fun _ => Sat.ite (fun _ => h) fun _ =>
      Sat.ite (fun _ => h) fun _ => (threadResume_leaves h).returning
  | setPriority =>
    refine Sat.ite (fun _ => trivial) fun _ => withThread_leaves h ?_
    refine Sat.ite (fun _ => h) fun _ => Sat.ite (fun _ => h) fun _ => Leaves.returning ?_
    exact threadYield_leaves h
  | yield => exact Sat.ite (fun _ => trivial) fun _ => (threadYield_leaves h).returning
  | sleep => exact Sat.ite (fun _ => trivial) fun _ => pokThreadSleep_leaves h
  | endPeriod => exact Sat.ite (fun _ => trivial) fun _ => pokSchedEndPeriod_leaves h
  | replenish => exact Sat.ite (fun _ => trivial) fun _ => pokSchedReplenish_leaves h
  | portWait => exact Sat.ite (fun _ => trivial) fun _ => pokPortWait_leaves h
  | incLockLevel =>
    refine Sat.ite (fun _ => trivial) fun _ => ?_
    unfold incLockLevel
    split_ifs <;> exact h
  | decLockLevel =>
    refine Sat.ite (fun _ => trivial) fun _ => ?_
    unfold decLockLevel
    split_ifs <;> exact h
  | setMode => exact Sat.ite (fun _ => trivial) fun _ => partitionSetMode_leaves h
  | raiseApplicationError => exact Sat.ite (fun _ => trivial) fun _ => raiseApplicationError_leaves h
  | raiseOsError =>
    exact Sat.ite (fun _ => trivial) fun _ => Sat.map (processErrorPartition_leaves h) fun _ _ => h
  | errorGet => exact Sat.ite (fun _ => trivial) fun _ => Sat.map (errorGet_leaves h) fun _ hr => hr
  | msectionWait => exact Sat.ite (fun _ => trivial) fun _ => msectionWait_leaves h
  | msectionNotify =>
    exact Sat.ite (fun _ => trivial) fun _ => Sat.ite (fun _ => (msectionNotifyAll_leaves h).returning)
      fun _ => trivial

theorem withCurrent_leaves {f : Nat → Except PartitionExit ArincPartition}
    (hf : ∀ c, Leaves s (f c)) : Leaves s (p.withCurrent f) := by
  unfold withCurrent
  cases p.threadCurrent with
  | none => trivial
  | some c => exact hf c

theorem beforeRecheck_leaves {e : ArincInput} (h : p.choiceState = s) :
    Leaves s (p.beforeRecheck hm e) := by
  cases e with
  | onEvent => exact drain_leaves (choiceState_recordEntering.trans h)
  | recheck => exact drain_leaves h
  | user | restart => trivial
  | fault => exact withCurrent_leaves fun _ => (processError_leaves h).bind fun _ hq => drain_leaves hq
  | deadlineOor => exact (emitDeadlineOor_leaves h).bind fun _ hq => drain_leaves hq
  | call => exact withCurrent_leaves fun _ => Sat.bind (call_leaves h) fun _ hr => drain_leaves hr

/-! The choice itself -/

/-- While nothing is selected, no section is waited for and no error is handled. -/
structure ChoiceSound (nthreads : Nat) (p : ArincPartition) : Prop where
  nthreads : p.nthreads = nthreads
  idle : p.threadSelected = none → p.waitingSection = none ∧ p.isErrorHandler = false

theorem ChoiceSound.of_eq {n : Nat} (h : ChoiceSound n p) (hq : q.choiceState = p.choiceState) :
    ChoiceSound n q := by
  simp only [choiceState, Prod.mk.injEq] at hq
  obtain ⟨hn, hselected, hwaiting, hhandler⟩ := hq
  constructor
  · rw [hn, h.nthreads]
  · rw [hselected, hwaiting, hhandler]
    exact h.idle

theorem Leaves.choiceSound {n : Nat} {m : Except PartitionExit ArincPartition}
    (hm : Leaves p.choiceState m) (h : ChoiceSound n p) :
    Sat (ExitWith (ChoiceSound n)) (ChoiceSound n) m := by
  apply Sat.mono hm
  · intro e he
    cases e with
    | reset | idle | forever => exact h.of_eq he
    | failed | refused => trivial
  · exact fun q hq => h.of_eq hq

theorem clearWaiting_waitingSection (s : SectionSystem) : s.clearWaiting.waitingSection = none := by
  unfold SectionSystem.clearWaiting
  cases hs : s.waitingSection with
  | none => exact hs
  | some sec => rfl

theorem Ruled.none_selected {n : ArincPartition × Option Nat} (h : Ruled p n) (hn : n.2 = none) :
    n.1.isErrorHandler = false := by
  cases h with
  | init | normal => rfl
  | handler | start => cases hn

theorem Ruled.nthreads {n : ArincPartition × Option Nat} (h : Ruled p n) :
    n.1.nthreads = p.nthreads := by
  cases h <;> rfl

theorem selectAndSwitch_none :
    p.selectAndSwitch none = .ok (p.onSections fun s => { s.clearWaiting with
      threadSelected := none, threadCurrent := none }) := rfl

theorem reschedule_choiceSound {n : Nat} (h : ChoiceSound n p) :
    Sat (ExitWith (ChoiceSound n)) (ChoiceSound n) p.reschedule := by
  refine Sat.ite (fun _ => ?_) fun _ => h
  have hfailed : ∀ assertion e, e = .failed assertion → ExitWith (ChoiceSound n) e := by
    rintro assertion e rfl
    trivial
  apply Sat.bind (Sat.mono schedRule_ruled (hfailed _) fun _ hr => hr)
  intro r hr
  have hn : r.1.nthreads = n := hr.nthreads.trans h.nthreads
  cases hchoice : r.2 with
  | none =>
    rw [selectAndSwitch_none]
    exact ⟨hn, fun _ => ⟨clearWaiting_waitingSection _, hr.none_selected hchoice⟩⟩
  | some t =>
    apply Sat.mono selectAndSwitch_switched (hfailed _)
    intro q hq
    constructor
    · rw [hq.rest]
      exact hn
    · intro hnone
      cases hq.selected.symm.trans hnone

theorem userStep_choiceState {e : SectionInput} {s : SectionSystem} (h : p.userStep c e = some s) :
    (p.onSections fun _ => s).choiceState = p.choiceState := by
  unfold userStep SectionSystem.threadStep at h
  cases e with
  | onEvent | enterHelper | wait | notify | stopTarget | stop | start | block | call => cases h
  | enter | leave =>
    dsimp only at h
    split_ifs at h
    obtain rfl := Option.some.inj h
    rfl
  | announce | readOwner | storeOwner | finish | discount | waitReturn =>
    dsimp only at h
    split at h
    · obtain rfl := Option.some.inj h
      rfl
    · cases h
  | checkFlags =>
    dsimp only at h
    split at h
    · split_ifs at h
      obtain rfl := Option.some.inj h
      rfl
    · cases h

theorem run_choiceSound {n : Nat} {e : ArincInput} (h : ChoiceSound n p) :
    Sat (ExitWith (ChoiceSound n)) (ChoiceSound n) (p.run hm e) := by
  cases e with
  | restart =>
    have hcold : ChoiceSound n { p with mode := .initCold } := h.of_eq rfl
    exact hcold
  | user e =>
    refine Sat.ite (fun _ => trivial) fun _ => Leaves.choiceSound (withCurrent_leaves fun c => ?_) h
    unfold liftSections
    cases hs : p.userStep c e with
    | none => trivial
    | some s => exact userStep_choiceState hs
  | onEvent | recheck | fault | deadlineOor | call =>
    exact Sat.ite (fun _ => trivial) fun _ =>
      Sat.bind ((beforeRecheck_leaves rfl).choiceSound h) fun _ hq => reschedule_choiceSound hq

end ArincPartition

end Chpok
