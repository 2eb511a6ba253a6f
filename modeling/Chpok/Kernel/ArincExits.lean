import Chpok.Kernel.ArincSystem
import Chpok.Library.Outcome

/-! How a step of a partition may end early: a partition is reset to a mode of its start, and
is halted where it is idle. The functions of `thread_internal.c` end early by their
assertions only. -/

namespace Chpok

namespace ArincPartition

open Outcome

variable {p : ArincPartition} {t c : Nat} {hm : PartitionHm}

def StepExit : PartitionExit → Prop
  | .reset p => p.mode ≠ .normal
  | .idle p | .forever p => p.halted = true
  | .failed _ | .refused => True

def Ends {α : Type} (m : Except PartitionExit α) : Prop := Sat StepExit (fun _ => True) m

theorem ends_ok {α : Type} (a : α) : Ends (.ok a) := trivial

theorem ends_failed {α : Type} (assertion : Assertion) :
    Ends (.error (.failed assertion) : Except PartitionExit α) := trivial

theorem ends_refused {α : Type} : Ends (.error .refused : Except PartitionExit α) := trivial

theorem Ends.bind {α β : Type} {m : Except PartitionExit α} {f : α → Except PartitionExit β}
    (hm : Ends m) (hf : ∀ a, Ends (f a)) : Ends (m.bind f) :=
  Sat.bind hm fun a _ => hf a

theorem Ends.map {α β : Type} {m : Except PartitionExit α} {f : α → β} (hm : Ends m) :
    Ends (m.map f) :=
  Sat.map hm fun _ _ => trivial

theorem Ends.returning {errno : PokErrno} {m : Except PartitionExit ArincPartition} (hm : Ends m) :
    Ends (returning errno m) :=
  hm.map

/-- The assertions about the list of errors. -/
def errorAssertions : List Assertion := [.threadAddErrorBit, .threadClearErrorBit, .errorGet]

/-- A function without errors fails at most in other assertions. -/
def QuietExit : PartitionExit → Prop
  | .failed assertion => assertion ∉ errorAssertions
  | .refused => True
  | _ => False

def Quiet {α : Type} (m : Except PartitionExit α) : Prop := Sat QuietExit (fun _ => True) m

theorem quiet_ok {α : Type} (a : α) : Quiet (.ok a) := trivial

theorem quiet_failed {α : Type} {assertion : Assertion} (h : assertion ∉ errorAssertions) :
    Quiet (.error (.failed assertion) : Except PartitionExit α) := h

theorem quiet_refused {α : Type} : Quiet (.error .refused : Except PartitionExit α) := trivial

theorem Quiet.bind {α β : Type} {m : Except PartitionExit α} {f : α → Except PartitionExit β}
    (hm : Quiet m) (hf : ∀ a, Quiet (f a)) : Quiet (m.bind f) :=
  Sat.bind hm fun a _ => hf a

theorem Quiet.map {α β : Type} {m : Except PartitionExit α} {f : α → β} (hm : Quiet m) :
    Quiet (m.map f) :=
  Sat.map hm fun _ _ => trivial

theorem Quiet.returning {errno : PokErrno} {m : Except PartitionExit ArincPartition}
    (hm : Quiet m) : Quiet (returning errno m) :=
  hm.map

theorem Quiet.ends {α : Type} {m : Except PartitionExit α} (hm : Quiet m) : Ends m := by
  apply Sat.mono hm _ fun _ h => h
  intro e he
  cases e with
  | failed | refused => trivial
  | reset | idle | forever => exact he.elim

/-! Threads -/

theorem threadSetEligible_quiet : Quiet (p.threadSetEligible t) :=
  Sat.ite (fun _ => quiet_ok _) fun _ => quiet_failed (by decide)

theorem setEligibleUnlessSuspended_quiet : Quiet (p.setEligibleUnlessSuspended t) :=
  Sat.ite (fun _ => quiet_ok _) fun _ => threadSetEligible_quiet

theorem threadYield_quiet : Quiet (p.threadYield t) :=
  Sat.ite (fun _ => threadSetEligible_quiet) fun _ => quiet_ok _

theorem threadStop_quiet : Quiet (p.threadStop t) :=
  Sat.ite (fun _ => quiet_failed (by decide)) fun _ => quiet_ok _

theorem threadIsWaitingAllowed_quiet : Quiet (p.threadIsWaitingAllowed t) :=
  Sat.ite (fun _ => quiet_ok _) fun _ => Sat.ite (fun _ => quiet_ok _) fun _ => quiet_failed (by decide)

theorem threadWait_quiet : Quiet (p.threadWait t) :=
  Sat.ite (fun _ => quiet_ok _) fun _ => quiet_failed (by decide)

theorem threadWakeUp_quiet : Quiet (p.threadWakeUp t) :=
  Sat.ite (fun _ => setEligibleUnlessSuspended_quiet) fun _ => quiet_failed (by decide)

theorem threadWaitTimed_quiet {time : Int} : Quiet (p.threadWaitTimed t time) :=
  Sat.ite (fun _ => quiet_failed (by decide)) fun _ => threadWait_quiet.map

theorem threadWaitCommon_quiet {duration now : Int} : Quiet (p.threadWaitCommon t duration now) :=
  Sat.ite (fun _ => quiet_failed (by decide)) fun _ => Sat.ite (fun _ => threadWait_quiet) fun _ =>
    threadWaitTimed_quiet

theorem threadResumeWaited_quiet : Quiet (p.threadResumeWaited t) :=
  Sat.ite (fun _ => threadSetEligible_quiet) fun _ => quiet_failed (by decide)

theorem threadResume_quiet : Quiet (p.threadResume t) :=
  Sat.ite (fun _ => threadSetEligible_quiet) fun _ => quiet_ok _

/-! Errors -/

theorem partitionReset_ends {mode : PartitionMode} : Ends (p.partitionReset mode) := by
  refine Sat.ite (fun hmode => ?_) fun _ => ends_failed _
  change mode ≠ .normal
  rintro rfl
  simp at hmode

theorem takeFixedAction_ends {action : ErrorAction} : Ends (p.takeFixedAction action) := by
  cases action with
  | ignore => exact ends_ok _
  | idle => exact (rfl : { p with halted := true }.halted = true)
  | coldStart => exact partitionReset_ends
  | warmStart => exact Sat.ite (fun _ => ends_failed _) fun _ => partitionReset_ends

theorem processErrorPartition_ends {state : SystemState} {errorId : ErrorId} :
    Ends (processErrorPartition hm p state errorId) := by
  refine Sat.ite (fun _ => ends_ok _) fun _ => takeFixedAction_ends.bind fun q => ?_
  refine Sat.ite (fun _ => ends_ok _) fun _ => takeFixedAction_ends.bind fun r => ?_
  exact (rfl : { r with halted := true }.halted = true)

theorem threadAddErrorBit_ends {bit : ErrorBit} : Ends (p.threadAddErrorBit t bit) :=
  Sat.ite (fun _ => ends_failed _) fun _ => Sat.ite (fun _ => ends_ok _) fun _ => ends_ok _

theorem threadClearErrorBit_ends {bit : ErrorBit} : Ends (p.threadClearErrorBit t bit) :=
  Sat.ite (fun _ => Sat.ite (fun _ => ends_ok _) fun _ => ends_ok _) fun _ => ends_failed _

theorem processError_ends {errorId : ErrorId} {failedAddr : Nat} :
    Ends (p.processError hm c errorId failedAddr) :=
  processErrorPartition_ends.bind fun _ => Sat.ite (fun _ => ends_ok _) fun _ =>
    Sat.ite (fun _ => ends_failed _) fun _ => threadAddErrorBit_ends

theorem emitDeadlineMissed_ends : Ends (p.emitDeadlineMissed hm t) :=
  processErrorPartition_ends.bind fun _ => Sat.ite (fun _ => ends_ok _) fun _ =>
    threadAddErrorBit_ends

theorem emitDeadlineOor_ends : Ends (p.emitDeadlineOor hm t) :=
  processErrorPartition_ends.bind fun _ => Sat.ite (fun _ => ends_ok _) fun _ =>
    threadAddErrorBit_ends

theorem errorIgnoreSync_ends : Ends p.errorIgnoreSync := by
  unfold errorIgnoreSync
  split
  · exact ends_ok _
  · exact Sat.ite (fun _ => threadClearErrorBit_ends.map) fun _ => ends_ok _

theorem errorGet_ends : Ends (p.errorGet c) := by
  refine Sat.ite (fun _ => ends_ok _) fun _ => ?_
  split
  · exact ends_ok _
  · split
    · exact ends_failed _
    · exact threadClearErrorBit_ends.map

/-! Events -/

theorem processEvent_ends {event : DelayedEvent} : Ends (processEvent hm p event) := by
  unfold processEvent
  split
  · exact emitDeadlineMissed_ends
  · split
    · exact threadWakeUp_quiet.ends
    · exact threadResumeWaited_quiet.ends

theorem delayedEventQueueCheck_ends {now : Int} {n : Nat} :
    Ends (delayedEventQueueCheck hm now n p) := by
  induction n generalizing p with
  | zero => exact ends_ok _
  | succ n ih =>
    rw [delayedEventQueueCheck]
    split
    · exact ends_ok _
    · exact Sat.ite (fun _ => ends_ok _) fun _ => processEvent_ends.bind fun _ => ih

theorem portQueuingFired_quiet {port served : Nat} : Quiet (portQueuingFired port served p) := by
  induction served generalizing p with
  | zero => exact quiet_ok _
  | succ served ih =>
    rw [portQueuingFired]
    split
    · exact quiet_ok _
    · exact threadWakeUp_quiet.bind fun _ => ih

theorem drain_ends {events : List DrainedEvent} : Ends (drain hm events p) := by
  induction events generalizing p with
  | nil => exact ends_ok _
  | cons event events ih =>
    refine Ends.bind ?_ fun _ => ih
    cases event with
    | timer => exact delayedEventQueueCheck_ends
    | port => exact portQueuingFired_quiet.ends

/-! The scheduler -/

theorem schedRule_quiet : Quiet p.schedRule := by
  unfold schedRule
  split
  · exact quiet_failed (by decide)
  · exact quiet_ok _
  · exact quiet_ok _
  · split
    · exact Sat.ite (fun _ => quiet_ok _) fun _ => Sat.ite (fun _ => quiet_ok _) fun _ => quiet_ok _
    · exact Sat.ite (fun _ => quiet_failed (by decide)) fun _ => quiet_ok _

theorem liftSections_quiet {assertion : Assertion} {r : Option SectionSystem}
    (h : assertion ∉ errorAssertions) : Quiet (p.liftSections assertion r) := by
  unfold liftSections
  split
  · exact quiet_failed h
  · exact quiet_ok _

theorem reschedule_quiet : Quiet p.reschedule :=
  Sat.ite (fun _ => schedRule_quiet.bind fun _ => liftSections_quiet (by decide)) fun _ => quiet_ok _

theorem resumeDonator_quiet : Quiet (p.resumeDonator t) := by
  refine Quiet.map ?_
  exact Sat.ite (fun _ => quiet_ok _) fun _ => threadStop_quiet

theorem resumeDonators_quiet {fuel donator : Nat} : Quiet (resumeDonators fuel p donator) := by
  induction fuel generalizing p donator with
  | zero => exact quiet_failed (by decide)
  | succ fuel ih =>
    rw [resumeDonators]
    refine resumeDonator_quiet.bind fun q => ?_
    split
    · exact quiet_ok _
    · exact ih

theorem jetResched_quiet : Quiet (p.jetResched c) := by
  unfold jetResched
  dsimp only
  split
  · exact quiet_ok _
  · exact Sat.ite (fun _ => threadStop_quiet.bind fun _ => resumeDonators_quiet) fun _ => quiet_ok _

/-! System calls -/

theorem withThread_quiet {id : Nat} {f : Nat → Except PartitionExit (ArincPartition × PokErrno)}
    (hf : Quiet (f id)) : Quiet (p.withThread id f) :=
  Sat.ite (fun _ => hf) fun _ => quiet_ok _

theorem pokThreadCreate_quiet {attr : ThreadAttr} {entryOk stackOk : Bool} :
    Quiet (p.pokThreadCreate attr entryOk stackOk) := by
  refine Sat.ite (fun _ => quiet_ok _) fun _ => Sat.ite (fun _ => quiet_ok _) fun _ => ?_
  split
  · exact quiet_ok _
  · exact Sat.ite (fun _ => quiet_ok _) fun _ => Sat.ite (fun _ => quiet_ok _) fun _ =>
      Sat.ite (fun _ => quiet_ok _) fun _ => quiet_ok _

theorem errorThreadCreate_quiet {entryOk stackOk : Bool} :
    Quiet (p.errorThreadCreate entryOk stackOk) :=
  Sat.ite (fun _ => quiet_ok _) fun _ => Sat.ite (fun _ => quiet_ok _) fun _ =>
    Sat.ite (fun _ => quiet_ok _) fun _ => Sat.ite (fun _ => quiet_ok _) fun _ =>
      Sat.ite (fun _ => quiet_ok _) fun _ => quiet_ok _

theorem threadDelayedStartInternal_quiet {delay now start : Int} :
    Quiet (p.threadDelayedStartInternal t delay now start) := by
  refine Sat.ite (fun _ => quiet_failed (by decide)) fun _ => Sat.ite (fun _ => quiet_ok _) fun _ =>
    Sat.ite (fun _ => quiet_ok _) fun _ => Sat.ite (fun _ => quiet_ok _) fun _ => Quiet.returning ?_
  exact Sat.ite (fun _ => setEligibleUnlessSuspended_quiet) fun _ => threadWaitTimed_quiet

theorem pokThreadSuspend_quiet {time now : Int} : Quiet (p.pokThreadSuspend c time now) := by
  refine Sat.ite (fun _ => quiet_ok _) fun _ => threadIsWaitingAllowed_quiet.bind fun _ => ?_
  refine Sat.ite (fun _ => quiet_ok _) fun _ => Sat.ite (fun _ => quiet_ok _) fun _ =>
    Sat.ite (fun _ => quiet_ok _) fun _ => Quiet.returning ?_
  exact threadWait_quiet.map

theorem pokThreadStopTarget_quiet {id : Nat} : Quiet (p.pokThreadStopTarget c id) := by
  apply withThread_quiet
  refine Sat.ite (fun _ => quiet_ok _) fun _ => Sat.ite (fun _ => quiet_ok _) fun _ => ?_
  split
  · exact quiet_ok _
  · refine Sat.ite (fun _ => quiet_ok _) fun _ => Sat.ite (fun _ => ?_) fun _ => ?_
    · refine Quiet.returning (Quiet.map ?_)
      exact Sat.ite (fun _ => threadWakeUp_quiet.map) fun _ => quiet_ok _
    · exact threadStop_quiet.returning

theorem pokThreadStop_ends : Ends (p.pokThreadStop hm c) := by
  refine Sat.ite (fun _ => ends_failed _) fun _ => Ends.returning (threadStop_quiet.ends.bind fun q => ?_)
  refine Ends.map (Sat.ite (fun _ => ?_) fun _ => ends_ok _)
  have hchecked : Ends (q.errorCheckAfterHandler hm) :=
    Sat.ite (fun _ => ends_ok _) fun _ => processErrorPartition_ends.map
  exact hchecked.bind fun _ => errorIgnoreSync_ends

theorem pokThreadSleep_quiet {time now : Int} : Quiet (p.pokThreadSleep c time now) :=
  threadIsWaitingAllowed_quiet.bind fun _ => Sat.ite (fun _ => quiet_ok _) fun _ =>
    Sat.ite (fun _ => threadYield_quiet.returning) fun _ => threadWaitCommon_quiet.returning

theorem pokSchedEndPeriod_quiet : Quiet (p.pokSchedEndPeriod c) :=
  Sat.ite (fun _ => quiet_ok _) fun _ => threadIsWaitingAllowed_quiet.bind fun _ =>
    Sat.ite (fun _ => quiet_ok _) fun _ => threadWaitTimed_quiet.map.returning

theorem pokSchedReplenish_quiet {budget now : Int} : Quiet (p.pokSchedReplenish c budget now) :=
  Sat.ite (fun _ => quiet_ok _) fun _ => Sat.ite (fun _ => quiet_ok _) fun _ =>
    Sat.ite (fun _ => quiet_ok _) fun _ =>
      Sat.ite (fun _ => Sat.ite (fun _ => quiet_ok _) fun _ => quiet_ok _) fun _ =>
        Sat.ite (fun _ => quiet_ok _) fun _ => quiet_ok _

theorem pokPortWait_quiet {port : Nat} {sending byPriority : Bool} {timeout now : Int} :
    Quiet (p.pokPortWait c port sending timeout now byPriority) := by
  refine Sat.ite (fun _ => quiet_ok _) fun _ => threadIsWaitingAllowed_quiet.bind fun _ =>
    Sat.ite (fun _ => quiet_ok _) fun _ => Quiet.returning (Quiet.bind ?_ fun _ => threadWaitCommon_quiet)
  exact Sat.ite (fun _ => quiet_failed (by decide)) fun _ => quiet_ok _

theorem releaseThreads_quiet {now start : Int} {ts : List Nat} :
    Quiet (releaseThreads now start ts p) := by
  induction ts generalizing p with
  | nil => exact quiet_ok _
  | cons t ts ih =>
    refine Quiet.bind (Sat.ite (fun _ => quiet_ok _) fun _ => Quiet.map ?_) fun _ => ih
    exact Sat.ite (fun _ => threadWakeUp_quiet) fun _ => quiet_ok _

theorem partitionSetMode_ends {mode : PartitionMode} {now start : Int} :
    Ends (p.partitionSetMode mode now start) := by
  cases mode with
  | initWarm => exact Sat.ite (fun _ => ends_ok _) fun _ => partitionReset_ends.returning
  | initCold => exact partitionReset_ends.returning
  | idle => exact (rfl : { p with halted := true }.halted = true)
  | normal => exact Sat.ite (fun _ => ends_ok _) fun _ => releaseThreads_quiet.ends.returning

theorem msectionNotifyAll_quiet {sec : Nat} {targets : List Nat} :
    Quiet (msectionNotifyAll sec targets p) := by
  induction targets generalizing p with
  | nil => exact quiet_ok _
  | cons t targets ih =>
    exact Sat.ite (fun _ => quiet_failed (by decide)) fun _ => Sat.ite (fun _ => ih) fun _ =>
      Sat.ite (fun _ => quiet_failed (by decide)) fun _ => threadWakeUp_quiet.bind fun _ => ih

/-- The calls that raise or end errors, or change the mode -/
def MayEnd : ArincCall → Prop
  | .stop | .setMode _ _ _ | .raiseApplicationError | .raiseOsError | .errorGet => True
  | _ => False

theorem call_quiet {call : ArincCall} (h : ¬ MayEnd call) : Quiet (p.call hm c call) := by
  cases call with
  | stop | setMode | raiseApplicationError | raiseOsError | errorGet => exact absurd trivial h
  | enterHelper =>
    change Quiet (p.msectionEnterHelper c)
    unfold msectionEnterHelper
    split
    · exact quiet_ok _
    · exact quiet_refused
  | checkFlags =>
    change Quiet (p.leaveCheckFlags c)
    unfold leaveCheckFlags
    split
    · exact Sat.ite (fun _ => jetResched_quiet.map.returning) fun _ => quiet_refused
    · exact quiet_refused
  | create => exact Sat.ite (fun _ => quiet_refused) fun _ => pokThreadCreate_quiet
  | createError => exact Sat.ite (fun _ => quiet_refused) fun _ => errorThreadCreate_quiet
  | delayedStart =>
    exact Sat.ite (fun _ => quiet_refused) fun _ => withThread_quiet
      (Sat.ite (fun _ => quiet_ok _) fun _ => threadDelayedStartInternal_quiet)
  | stopTarget => exact Sat.ite (fun _ => quiet_refused) fun _ => pokThreadStopTarget_quiet
  | suspendTarget =>
    refine Sat.ite (fun _ => quiet_refused) fun _ => withThread_quiet ?_
    exact Sat.ite (fun _ => quiet_ok _) fun _ => Sat.ite (fun _ => quiet_ok _) fun _ =>
      Sat.ite (fun _ => quiet_ok _) fun _ => Sat.ite (fun _ => quiet_ok _) fun _ =>
        Sat.ite (fun _ => quiet_ok _) fun _ => quiet_ok _
  | suspend => exact Sat.ite (fun _ => quiet_refused) fun _ => pokThreadSuspend_quiet
  | resume =>
    refine Sat.ite (fun _ => quiet_refused) fun _ => withThread_quiet ?_
    exact Sat.ite (fun _ => quiet_ok _) fun _ => Sat.ite (fun _ => quiet_ok _) fun _ =>
      Sat.ite (fun _ => quiet_ok _) fun _ => Sat.ite (fun _ => quiet_ok _) fun _ =>
        threadResume_quiet.returning
  | setPriority =>
    refine Sat.ite (fun _ => quiet_refused) fun _ => withThread_quiet ?_
    exact Sat.ite (fun _ => quiet_ok _) fun _ => Sat.ite (fun _ => quiet_ok _) fun _ =>
      threadYield_quiet.returning
  | yield => exact Sat.ite (fun _ => quiet_refused) fun _ => threadYield_quiet.returning
  | sleep => exact Sat.ite (fun _ => quiet_refused) fun _ => pokThreadSleep_quiet
  | endPeriod => exact Sat.ite (fun _ => quiet_refused) fun _ => pokSchedEndPeriod_quiet
  | replenish => exact Sat.ite (fun _ => quiet_refused) fun _ => pokSchedReplenish_quiet
  | portWait => exact Sat.ite (fun _ => quiet_refused) fun _ => pokPortWait_quiet
  | incLockLevel => exact Sat.ite (fun _ => quiet_refused) fun _ => quiet_ok _
  | decLockLevel => exact Sat.ite (fun _ => quiet_refused) fun _ => quiet_ok _
  | msectionWait =>
    refine Sat.ite (fun _ => quiet_refused) fun _ => Sat.ite (fun _ => quiet_failed (by decide)) fun _ => ?_
    refine Sat.ite (fun _ => quiet_ok _) fun _ => Sat.ite (fun _ => quiet_ok _) fun _ => ?_
    exact threadWaitCommon_quiet.map.returning
  | msectionNotify =>
    refine Sat.ite (fun _ => quiet_refused) fun _ => Sat.ite (fun _ => ?_) fun _ => quiet_failed (by decide)
    exact msectionNotifyAll_quiet.returning

theorem call_ends {call : ArincCall} : Ends (p.call hm c call) := by
  cases call with
  | stop => exact Sat.ite (fun _ => ends_refused) fun _ => pokThreadStop_ends
  | setMode => exact Sat.ite (fun _ => ends_refused) fun _ => partitionSetMode_ends
  | raiseApplicationError =>
    refine Sat.ite (fun _ => ends_refused) fun _ => processErrorPartition_ends.bind fun _ => ?_
    exact Sat.ite (fun _ => ends_ok _) fun _ => threadAddErrorBit_ends.map
  | raiseOsError => exact Sat.ite (fun _ => ends_refused) fun _ => processErrorPartition_ends.map
  | errorGet => exact Sat.ite (fun _ => ends_refused) fun _ => errorGet_ends.map
  | _ => exact (call_quiet id).ends

theorem withCurrent_ends {f : Nat → Except PartitionExit ArincPartition} (hf : ∀ c, Ends (f c)) :
    Ends (p.withCurrent f) := by
  unfold withCurrent
  split
  · exact ends_refused
  · exact hf _

theorem beforeRecheck_ends {e : ArincInput} : Ends (p.beforeRecheck hm e) := by
  cases e with
  | onEvent => exact drain_ends
  | recheck => exact drain_ends
  | user | restart => exact ends_refused
  | fault => exact withCurrent_ends fun _ => processError_ends.bind fun _ => drain_ends
  | deadlineOor => exact emitDeadlineOor_ends.bind fun _ => drain_ends
  | call => exact withCurrent_ends fun _ => call_ends.bind fun _ => drain_ends

theorem run_ends {e : ArincInput} : Ends (p.run hm e) := by
  cases e with
  | restart => exact PartitionMode.noConfusion
  | user => exact Sat.ite (fun _ => ends_refused) fun _ => withCurrent_ends fun _ => (liftSections_quiet (by decide)).ends
  | onEvent | recheck | fault | deadlineOor | call =>
    exact Sat.ite (fun _ => ends_refused) fun _ => beforeRecheck_ends.bind fun _ => reschedule_quiet.ends

theorem running_of_ok {q : ArincPartition} {e : ArincInput} (h : p.run hm e = .ok q) :
    p.halted = false := by
  by_contra hhalted
  have hhalted' : p.halted = true := by simpa using hhalted
  cases e with
  | restart => cases h
  | user | onEvent | recheck | fault | deadlineOor | call =>
    simp only [run, hhalted', if_true] at h
    cases h

/-- Induction over the steps of a partition: what a step keeps while the partition is not
halted, and what every start establishes. -/
theorem step_rule {inv : ArincPartition → Prop} {q : ArincPartition} {e : ArincInput}
    (hrun : p.halted = false → Sat (fun _ => True) inv (p.run hm e))
    (hstart : ∀ r : ArincPartition, r.mode ≠ .normal → inv r.partitionArincStart)
    (h : p.step hm e = some q) : q.halted = false → inv q := by
  have hends : Ends (p.run hm e) := run_ends
  intro hq
  unfold step at h
  split at h
  · rename_i r he
    obtain rfl := Option.some.inj h
    exact (hrun (running_of_ok he)).of_ok he
  · rename_i r he
    obtain rfl := Option.some.inj h
    have hexit : StepExit (.reset r) := Sat.of_error hends he
    exact hstart r hexit
  · rename_i r he
    obtain rfl := Option.some.inj h
    have hexit : StepExit (.idle r) := Sat.of_error hends he
    rw [show r.halted = true from hexit] at hq
    cases hq
  · rename_i r he
    obtain rfl := Option.some.inj h
    have hexit : StepExit (.forever r) := Sat.of_error hends he
    rw [show r.halted = true from hexit] at hq
    cases hq
  · cases h
  · cases h

end ArincPartition

end Chpok
