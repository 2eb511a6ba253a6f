import Chpok.Kernel.ChoiceKept

/-! The system calls about processes and sections keep the choice. Only threads other than
the error handler are stopped or started by them, and only such threads wait. -/

namespace Chpok

namespace ArincPartition

open Outcome

variable {p q : ArincPartition} {t u c : Nat} {hm : PartitionHm} {armed : Nat → Prop}

theorem threadWaitTimed_keeps {time : Int} (hne : p.threadError ≠ some t) :
    Keeping armed p (p.threadWaitTimed t time) :=
  Keeping.of_moves (fun _ hq => threadWaitTimed_moves hq) hne

theorem threadWaitCommon_keeps {duration now : Int} (hne : p.threadError ≠ some t) :
    Keeping armed p (p.threadWaitCommon t duration now) :=
  Keeping.of_moves (fun _ hq => threadWaitCommon_moves hq) hne

theorem withThread_keeps {id : Nat} {f : Nat → Except PartitionExit (ArincPartition × PokErrno)}
    (hf : p.HasThread id → KeepingCall armed p (f id)) : KeepingCall armed p (p.withThread id f) :=
  Sat.ite hf fun _ => Keeps.refl p

theorem waiting_allowed_keeps {f : Bool → Except PartitionExit (ArincPartition × PokErrno)}
    (hrefused : KeepingCall armed p (f false))
    (hallowed : p.threadError ≠ some c → KeepingCall armed p (f true)) :
    KeepingCall armed p ((p.threadIsWaitingAllowed c).bind f) := by
  unfold threadIsWaitingAllowed
  by_cases hlock : 0 < p.lockLevel ∨ p.threadError = some c
  · rw [if_pos hlock]
    exact hrefused
  · rw [if_neg hlock]
    by_cases hcount : (p.threads c).msectionCount = 0 ∧ (p.threads c).firstDonator = none
    · rw [if_pos hcount]
      exact hallowed fun he => hlock (Or.inr he)
    · rw [if_neg hcount]
      trivial

/-! START, SET_PRIORITY, RESUME and SUSPEND -/

theorem setNextActivation_keeps {next : Int} (ht : armed t) :
    Keeps armed p (p.setNextActivation t next) := by
  unfold setNextActivation
  split_ifs
  · exact Keeps.refl p
  · exact keeps_updateSched rfl fun hnot => absurd ht hnot

theorem setStartDeadline_keeps {start : Int} (ht : armed t) :
    Keeps armed p (p.setStartDeadline t start) := by
  unfold setStartDeadline
  split_ifs
  · exact Keeps.refl p
  · exact keeps_threadSetDeadline ht

theorem resetStarted_keeps : Keeps armed p (p.resetStarted t) :=
  (keeps_updateSched rfl fun _ => rfl).trans (keeps_updateThread rfl fun _ h => h)

theorem threadDelayedStartInternal_keeps {delay now start : Int} (hne : p.threadError ≠ some t)
    (ht : (p.threads t).state = .stopped → armed t) :
    KeepingCall armed p (p.threadDelayedStartInternal t delay now start) := by
  refine Sat.ite (fun _ => trivial) fun _ => Sat.ite (fun _ => Keeps.refl p) fun hstopped =>
    Sat.ite (fun _ => Keeps.refl p) fun _ => ?_
  have ht' : armed t := ht (not_not.mp hstopped)
  refine Sat.ite (fun _ => ?_) fun _ => ?_
  · have hdelayed : Keeps armed p ((p.resetStarted t).updateSched t fun th => { th with
        delayedTime := delay }) :=
      resetStarted_keeps.trans (keeps_updateSched rfl fun hnot => absurd ht' hnot)
    exact hdelayed.trans (moves_setState.keeps_of_ne hne)
  · dsimp only
    generalize TimeArith.kernel.unsigned _ = next
    have harmed : Keeps armed p (((p.resetStarted t).setNextActivation t next).setStartDeadline t
        (p.startTime t delay now start)) :=
      (resetStarted_keeps.trans (setNextActivation_keeps ht')).trans (setStartDeadline_keeps ht')
    have hne' := fun he => hne (harmed.choice.error ▸ he)
    apply KeepingCall.returning
    apply Keeping.after harmed
    refine Sat.ite (fun _ => ?_) fun _ => ?_
    · exact Keeping.of_moves (fun _ hq => threadStart_moves hq) hne'
    · exact threadWaitTimed_keeps hne'

theorem pokThreadDelayedStart_keeps {id : Nat} {delay now start : Int}
    (hid : (p.threads id).state = .stopped → armed id) :
    KeepingCall armed p (p.pokThreadDelayedStart id delay now start) :=
  withThread_keeps fun hhas => Sat.ite (fun _ => Keeps.refl p) fun _ =>
    threadDelayedStartInternal_keeps hhas.2.2 hid

theorem pokThreadSetPriority_keeps {id priority : Nat} :
    KeepingCall armed p (p.pokThreadSetPriority id priority) :=
  withThread_keeps fun _ => Sat.ite (fun _ => Keeps.refl p) fun _ =>
    Sat.ite (fun _ => Keeps.refl p) fun _ =>
      KeepingCall.returning (Keeping.after (keeps_updateSched rfl fun _ => rfl) threadYield_keeps)

theorem pokThreadResume_keeps {id : Nat} : KeepingCall armed p (p.pokThreadResume c id) := by
  apply withThread_keeps
  intro hid
  refine Sat.ite (fun _ => Keeps.refl p) fun _ => Sat.ite (fun _ => Keeps.refl p) fun _ =>
    Sat.ite (fun _ => Keeps.refl p) fun _ => Sat.ite (fun _ => Keeps.refl p) fun _ => ?_
  exact KeepingCall.returning (Keeping.of_moves (fun _ hq => threadResume_moves hq) hid.2.2)

theorem pokThreadSuspendTarget_keeps {id : Nat} : KeepingCall armed p (p.pokThreadSuspendTarget c id) := by
  apply withThread_keeps
  intro hid
  refine Sat.ite (fun _ => Keeps.refl p) fun _ => Sat.ite (fun _ => Keeps.refl p) fun _ =>
    Sat.ite (fun _ => Keeps.refl p) fun _ => Sat.ite (fun _ => Keeps.refl p) fun _ =>
      Sat.ite (fun _ => Keeps.refl p) fun _ => ?_
  exact threadSuspend_moves.keeps_of_ne hid.2.2

theorem pokThreadSuspend_keeps {time now : Int} : KeepingCall armed p (p.pokThreadSuspend c time now) := by
  refine Sat.ite (fun _ => Keeps.refl p) fun _ => ?_
  apply waiting_allowed_keeps
  · exact Keeps.refl p
  · intro hne
    have hsuspended : Keeps armed p (p.threadSuspend c) := threadSuspend_moves.keeps_of_ne hne
    refine Sat.ite (fun _ => Keeps.refl p) fun _ => Sat.ite (fun _ => Keeps.refl p) fun _ =>
      Sat.ite (fun _ => hsuspended) fun _ => ?_
    apply KeepingCall.returning
    apply Keeping.after hsuspended
    exact Keeping.of_moves (fun _ hq => threadSuspendTimed_moves hq) fun he =>
      hne (hsuspended.choice.error ▸ he)

/-! The calls that wait -/

theorem pokThreadSleep_keeps {time now : Int} : KeepingCall armed p (p.pokThreadSleep c time now) := by
  apply waiting_allowed_keeps
  · exact Keeps.refl p
  · intro hne
    refine Sat.ite (fun _ => Keeps.refl p) fun _ => Sat.ite (fun _ => ?_) fun _ => ?_
    · exact KeepingCall.returning threadYield_keeps
    · exact KeepingCall.returning (threadWaitCommon_keeps hne)

theorem pokSchedEndPeriod_keeps (hc : timeIsInfinity (p.sched c).period = false → armed c) :
    KeepingCall armed p (p.pokSchedEndPeriod c) := by
  refine Sat.ite (fun _ => Keeps.refl p) fun hperiod => ?_
  apply waiting_allowed_keeps
  · exact Keeps.refl p
  · intro hne
    have hc' : armed c := hc (Bool.not_eq_true _ ▸ hperiod)
    refine Sat.ite (fun _ => Keeps.refl p) fun _ => KeepingCall.returning (Keeping.map ?_ ?_)
    · exact Keeping.after (keeps_updateSched rfl fun hnot => absurd hc' hnot) (threadWaitTimed_keeps hne)
    · exact fun q _ => keeps_threadSetDeadline hc'

theorem pokSchedReplenish_keeps {budget now : Int} (hc : timeIsInfinity budget = false → armed c) :
    KeepingCall armed p (p.pokSchedReplenish c budget now) := by
  refine Sat.ite (fun _ => Keeps.refl p) fun _ => Sat.ite (fun _ => Keeps.refl p) fun _ =>
    Sat.ite (fun _ => Keeps.refl p) fun _ => Sat.ite (fun _ => ?_) fun hbudget => ?_
  · refine Sat.ite (fun _ => Keeps.refl p) fun _ => ?_
    exact keeps_delayedEventRemove
  · refine Sat.ite (fun _ => Keeps.refl p) fun _ => ?_
    exact keeps_threadSetDeadline (hc (Bool.not_eq_true _ ▸ hbudget))

theorem setWaiters_keeps {port : Nat} {waiters : List Nat} :
    Keeps armed p (p.setWaiters port t waiters) where
  choice := keepsChoice_of_eq rfl rfl rfl rfl rfl rfl
    (fun u _ => updateSched_times (g := fun th => { th with waitElem := some port }) rfl u)
    (fun u => SchedThread.attrTimes_of_times
      (updateSched_times (g := fun th => { th with waitElem := some port }) rfl u))
    fun h => h
  errors := keepsErrors_of_eq rfl rfl rfl rfl rfl rfl rfl

theorem threadWqAddCommon_keeps {port : Nat} {byPriority : Bool} :
    Keeping armed p (p.threadWqAddCommon port c byPriority) := by
  refine Sat.ite (fun _ => trivial) fun _ => ?_
  cases byPriority with
  | true => exact (keeps_updateSched rfl fun _ => rfl).trans setWaiters_keeps
  | false => exact setWaiters_keeps

theorem pokPortWait_keeps {port : Nat} {sending byPriority : Bool} {timeout now : Int} :
    KeepingCall armed p (p.pokPortWait c port sending timeout now byPriority) := by
  refine Sat.ite (fun _ => Keeps.refl p) fun _ => ?_
  apply waiting_allowed_keeps
  · exact Keeps.refl p
  · intro hne
    refine Sat.ite (fun _ => Keeps.refl p) fun _ => KeepingCall.returning ?_
    apply threadWqAddCommon_keeps.bind
    intro q hq
    exact threadWaitCommon_keeps fun he => hne (hq.choice.error ▸ he)

/-! STOP -/

theorem donate_keeps {target : Nat} {next : Option Nat} : Keeps armed p (p.donate c target next) :=
  keeps_updateThread (p := p) (t := c)
    (f := fun th => { th with donateTarget := some target, nextDonator := next }) rfl fun _ h => h

theorem interruptWait_keeps : Keeping armed p (p.interruptWait t) :=
  Sat.ite (fun _ => threadWakeUp_keeps.map fun _ _ => setWaitResult_keeps) fun _ =>
    Keeps.refl p

theorem pokThreadStopTarget_keeps {id : Nat} : KeepingCall armed p (p.pokThreadStopTarget c id) := by
  apply withThread_keeps
  intro hid
  refine Sat.ite (fun _ => Keeps.refl p) fun _ => Sat.ite (fun _ => Keeps.refl p) fun _ => ?_
  have hdonator : ∀ {r : ArincPartition} {f : SectionThread → SectionThread},
      Keeps armed p r → (f (r.threads id)).state = (r.threads id).state →
        Keeps armed p (r.updateThread id f) := by
    intro r f hr hstate
    apply hr.trans (keeps_updateThread hstate _)
    intro he
    exact absurd (hr.choice.error ▸ he) hid.2.2
  have hdonates : ∀ {r : ArincPartition} {target : Nat} {next : Option Nat}, Keeps armed p r →
      Keeps armed p (r.donate c target next).localInvalidate := by
    intro r target next hr
    exact (hr.trans donate_keeps).trans keeps_localInvalidate
  split
  · apply hdonates
    exact hdonator (Keeps.refl p) rfl
  · refine Sat.ite (fun _ => ?_) fun _ => Sat.ite (fun _ => ?_) fun _ => ?_
    · apply hdonates
      exact hdonator (Keeps.refl p) rfl
    · apply KeepingCall.returning
      apply Sat.map interruptWait_keeps
      intro q hq
      apply hdonates
      exact hdonator hq rfl
    · exact KeepingCall.returning (threadStop_keeps hid.2.2)

/-! Sections -/

theorem checkReleased_keeps : Keeps armed p (p.onSections (·.checkReleased)) := by
  rcases onSections_checkReleased (p := p) with he | he
  · rw [he]
    exact Keeps.refl p
  · rw [he]
    exact keeps_localInvalidate

theorem resumeDonator_keeps (hfree : HandlerFree p) : Keeping armed p (p.resumeDonator t) := by
  have hfreed : Keeps armed p (p.updateThread t fun th => { th with donateTarget := none }) :=
    keeps_updateThread rfl fun _ h => h
  have hseen : Keeps armed p (if p.threadSelected = some t then
      (p.updateThread t fun th => { th with donateTarget := none }).localInvalidate
      else p.updateThread t fun th => { th with donateTarget := none }) := by
    split_ifs
    · exact hfreed.trans keeps_localInvalidate
    · exact hfreed
  unfold resumeDonator
  dsimp only
  refine Keeping.map (Keeping.after hseen ?_) fun q _ => keeps_updateThread rfl fun _ h => h
  refine Sat.ite (fun _ => Keeps.refl _) fun hfirst => ?_
  have hne : p.threadError ≠ some t := fun he => hfirst (hfree t he)
  refine Keeping.after (keeps_updateThread rfl fun _ _ => rfl) (threadStop_keeps ?_)
  exact fun he => hne (hseen.choice.error ▸ he)

theorem resumeDonators_keeps {fuel donator : Nat} (hfree : HandlerFree p) :
    Keeping armed p (resumeDonators fuel p donator) := by
  induction fuel generalizing p donator with
  | zero => trivial
  | succ fuel ih =>
    rw [resumeDonators]
    apply (resumeDonator_keeps hfree).bind
    intro q hq
    split
    · exact Keeps.refl q
    · exact ih (hq.choice.handler hfree)

theorem jetResched_keeps (hfree : HandlerFree p) : Keeping armed p (p.jetResched c) := by
  have hchecked : Keeps armed p (p.onSections (·.checkReleased)) := checkReleased_keeps
  unfold jetResched
  dsimp only
  split
  · exact hchecked
  · rename_i donator hfirst
    refine Sat.ite (fun _ => ?_) fun _ => hchecked
    have hne : p.threadError ≠ some c := by
      intro he
      have := (hfree c he).symm.trans hfirst
      cases this
    have hcut := hchecked.trans (keeps_updateThread (t := c)
      (f := fun th => { th with firstDonator := none }) rfl fun _ _ => rfl)
    apply Keeping.bind (Keeping.after hcut (threadStop_keeps fun he => hne (hcut.choice.error ▸ he)))
    intro q hq
    exact resumeDonators_keeps (hq.choice.handler hfree)

theorem leaveCheckFlags_keeps (hfree : HandlerFree p) : KeepingCall armed p (p.leaveCheckFlags c) := by
  unfold leaveCheckFlags
  split
  · refine Sat.ite (fun _ => KeepingCall.returning ?_) fun _ => trivial
    exact (jetResched_keeps hfree).map fun q _ => keeps_updateThread rfl fun _ h => h
  · trivial

theorem msectionEnterHelper_keeps : KeepingCall armed p (p.msectionEnterHelper c) := by
  unfold msectionEnterHelper
  split
  · rename_i sec _
    have hpoint : Keeps armed p (p.updateThread c fun th => { th with point := .acquired sec }) :=
      keeps_updateThread rfl fun _ h => h
    rw [KeepingCall, sat_ok]
    change Keeps armed p ((p.updateThread c fun th => { th with point := .acquired sec }).onSections
      (·.msectionEnterHelper c sec))
    generalize p.updateThread c (fun th => { th with point := .acquired sec }) = r at *
    apply hpoint.trans
    rcases onSections_msectionEnterHelper (p := r) with he | he
    · rw [he]
      exact Keeps.refl r
    · rw [he]
      apply Keeps.trans _ keeps_localInvalidate
      exact keeps_updateThread rfl fun _ h => h
  · trivial

theorem msectionWait_keeps {sec : Nat} {timeout now : Int} :
    KeepingCall armed p (p.msectionWait c sec timeout now) := by
  refine Sat.ite (fun _ => trivial) fun _ => Sat.ite (fun _ => Keeps.refl p) fun hfree =>
    Sat.ite (fun _ => ?_) fun _ => KeepingCall.returning ?_
  · exact keeps_updateThread rfl fun _ h => h
  · rw [not_or] at hfree
    refine Keeping.map ?_ fun q _ => keeps_localInvalidate
    have hreleased : Keeps armed p ((p.updateThread c fun th => { th with
        msectionEntering := some sec, point := .waiting sec }).onSections fun s =>
          s.updateSection sec fun m => { m with owner := none }) := by
      have hentering : Keeps armed p (p.updateThread c fun th => { th with
          msectionEntering := some sec, point := .waiting sec }) :=
        keeps_updateThread rfl fun _ h => h
      apply hentering.trans
      exact keeps_sections rfl rfl rfl (fun h => h) (fun _ => rfl) fun _ _ h => h
    exact Keeping.after hreleased (threadWaitCommon_keeps hfree.2)

theorem msectionNotifyAll_keeps {sec : Nat} {targets : List Nat} :
    Keeping armed p (msectionNotifyAll sec targets p) := by
  induction targets generalizing p with
  | nil => exact Keeps.refl p
  | cons t targets ih =>
    refine Sat.ite (fun _ => trivial) fun _ => Sat.ite (fun _ => ih) fun _ =>
      Sat.ite (fun _ => trivial) fun _ => ?_
    apply threadWakeUp_keeps.bind
    intro q _
    exact Keeping.after setWaitResult_keeps ih

theorem msectionNotify_keeps {sec : Nat} {targets : List Nat} :
    KeepingCall armed p (p.msectionNotify c sec targets) :=
  Sat.ite (fun _ => KeepingCall.returning msectionNotifyAll_keeps) fun _ => trivial

/-! The release of the threads, the steps of the current thread, and all calls together -/

theorem releaseThread_keeps {now start : Int} (ht : armed t) : Keeping armed p (p.releaseThread now start t) := by
  refine Sat.ite (fun _ => Keeps.refl p) fun _ => ?_
  dsimp only
  generalize p.startTime t (p.sched t).delayedTime now start = time
  have hactivated : Keeps armed p (p.setNextActivation t (TimeArith.kernel.unsigned time)) :=
    setNextActivation_keeps ht
  refine Keeping.map (Keeping.after hactivated ?_) fun _ _ => setStartDeadline_keeps ht
  refine Sat.ite (fun _ => threadWakeUp_keeps) fun _ => ?_
  exact moves_threadDelayEvent.keeps fun _ => Iff.rfl

theorem releaseThreads_keeps {now start : Int} {ts : List Nat} (hall : ∀ t, armed t) :
    Keeping armed p (releaseThreads now start ts p) := by
  induction ts generalizing p with
  | nil => exact Keeps.refl p
  | cons t ts ih => exact (releaseThread_keeps (hall t)).bind fun _ _ => ih

theorem recordEntering_keeps : Keeps armed p (p.onSections (·.recordEntering)) := by
  unfold onSections SectionSystem.recordEntering
  dsimp only
  split
  · exact Keeps.refl p
  · split
    · exact Keeps.refl p
    · exact keeps_updateThread rfl fun _ h => h

theorem userStep_keeps {e : SectionInput} {s : SectionSystem} (hs : p.userStep c e = some s) :
    Keeps armed p (p.onSections fun _ => s) := by
  have hgoes := userStep_goesOn hs
  apply keeps_sections hgoes.used hgoes.error hgoes.selected fun hr => hgoes.recheck.trans hr
  · intro u
    by_cases hu : u = c
    · subst hu
      exact hgoes.state
    · rw [hgoes.others u hu]
  · intro e _ hnone
    by_cases he : e = c
    · subst he
      exact hgoes.firstDonator.trans hnone
    · rw [hgoes.others e he]
      exact hnone

/-- The calls that neither change the mode, the lock or the threads that exist, nor come to
errors. -/
def Plain : ArincCall → Prop
  | .create _ _ _ | .createError _ _ | .incLockLevel | .decLockLevel => False
  | .stop | .setMode _ _ _ | .raiseApplicationError | .raiseOsError | .errorGet => False
  | _ => True

/-- The thread whose deadline a call sets -/
def setsDeadline (p : ArincPartition) (c : Nat) : ArincCall → Option Nat
  | .delayedStart id _ _ _ =>
    if p.mode = .normal ∧ (p.threads id).state = .stopped then some id else none
  | .endPeriod => if timeIsInfinity (p.sched c).period then none else some c
  | .replenish budget _ => if timeIsInfinity budget then none else some c
  | _ => none

/-- The thread whose times a call sets, or its deadline -/
def setsTimes (p : ArincPartition) (c : Nat) : ArincCall → Option Nat
  | .delayedStart id _ _ _ => if (p.threads id).state = .stopped then some id else none
  | call => p.setsDeadline c call

theorem call_keeps {call : ArincCall} (hplain : Plain call) (hfree : HandlerFree p)
    (harmed : ∀ t, p.setsTimes c call = some t → armed t) :
    KeepingCall armed p (p.call hm c call) := by
  cases call with
  | create | createError | incLockLevel | decLockLevel => exact hplain.elim
  | stop | setMode | raiseApplicationError | raiseOsError | errorGet => exact hplain.elim
  | enterHelper => exact msectionEnterHelper_keeps
  | checkFlags => exact leaveCheckFlags_keeps hfree
  | delayedStart id =>
    refine Sat.ite (fun _ => trivial) fun _ => pokThreadDelayedStart_keeps ?_
    exact fun hstopped => harmed id (if_pos hstopped)
  | stopTarget => exact Sat.ite (fun _ => trivial) fun _ => pokThreadStopTarget_keeps
  | suspendTarget => exact Sat.ite (fun _ => trivial) fun _ => pokThreadSuspendTarget_keeps
  | suspend => exact Sat.ite (fun _ => trivial) fun _ => pokThreadSuspend_keeps
  | resume => exact Sat.ite (fun _ => trivial) fun _ => pokThreadResume_keeps
  | setPriority => exact Sat.ite (fun _ => trivial) fun _ => pokThreadSetPriority_keeps
  | yield => exact Sat.ite (fun _ => trivial) fun _ => KeepingCall.returning threadYield_keeps
  | sleep => exact Sat.ite (fun _ => trivial) fun _ => pokThreadSleep_keeps
  | endPeriod =>
    exact Sat.ite (fun _ => trivial) fun _ =>
      pokSchedEndPeriod_keeps fun hperiod => harmed c (if_neg (by simp [hperiod]))
  | replenish =>
    exact Sat.ite (fun _ => trivial) fun _ =>
      pokSchedReplenish_keeps fun hbudget => harmed c (if_neg (by simp [hbudget]))
  | portWait => exact Sat.ite (fun _ => trivial) fun _ => pokPortWait_keeps
  | msectionWait => exact Sat.ite (fun _ => trivial) fun _ => msectionWait_keeps
  | msectionNotify => exact Sat.ite (fun _ => trivial) fun _ => msectionNotify_keeps

/-! The calls about errors -/

theorem threadClearErrorBit_frame {bit : ErrorBit} :
    Sat (fun _ => True) (fun q => KeepsFrame armed p q ∧ q.recheckNeeded = p.recheckNeeded ∧
      q.threads = p.threads) (p.threadClearErrorBit t bit) := by
  refine Sat.ite (fun _ => Sat.ite (fun _ => ?_) fun _ => ?_) fun _ => trivial
  · exact ⟨⟨rfl, rfl, fun _ _ => rfl, fun _ => rfl, fun h => h, rfl, rfl, fun h => h, fun h => h⟩, rfl, rfl⟩
  · exact ⟨⟨rfl, rfl, fun _ _ => rfl, fun _ => rfl, fun h => h, rfl, rfl, fun h => h, fun h => h⟩, rfl, rfl⟩

theorem errorIgnoreSync_frame : Sat (fun _ => True) (KeepsFrame armed p) p.errorIgnoreSync := by
  unfold errorIgnoreSync
  split
  · exact KeepsFrame.refl p
  · refine Sat.ite (fun _ => ?_) fun _ => KeepsFrame.refl p
    apply Sat.map threadClearErrorBit_frame
    intro q hq
    exact hq.1.trans ⟨rfl, rfl, fun _ _ => rfl, fun _ => rfl, fun h => h, rfl, rfl, fun h => h, fun h => h⟩

theorem pokThreadStop_keeps :
    Sat (fun _ => True) (fun r => KeepsChoice armed p r.1) (p.pokThreadStop hm c) := by
  refine Sat.ite (fun _ => trivial) fun _ => ?_
  have hstop : Sat (fun _ => True) (KeepsFrame armed p) (p.threadStop c) :=
    Sat.of_forall fun q hq => (threadStop_moves hq).keepsFrame
  have hrest : Choosing armed p ((p.threadStop c).bind fun q => (if p.threadError = some c then
      (q.errorCheckAfterHandler hm).bind fun q => q.errorIgnoreSync else .ok q).map
        (·.localInvalidate)) := by
    apply hstop.bind
    intro q hq
    refine Sat.map (Sat.ite (fun _ => ?_) fun _ => hq) fun r hr => hr.invalidate
    have hchecked : Sat (fun _ => True) (fun r => r = q) (q.errorCheckAfterHandler hm) :=
      Sat.ite (fun _ => rfl) fun _ => Sat.bind_of_forall (f := fun _ => .ok q) fun _ => rfl
    apply hchecked.bind
    rintro r rfl
    exact errorIgnoreSync_frame.weaken fun _ hr => hq.trans hr
  exact hrest.map fun _ hq => hq

theorem raiseApplicationError_keeps : Sat (fun _ => True) (fun r => KeepsChoice armed p r.1) (p.raiseApplicationError hm c) := by
  apply Sat.bind_of_forall
  intro processed
  refine Sat.ite (fun _ => KeepsChoice.refl p) fun _ => ?_
  exact Sat.map threadEmitSyncError_keeps fun _ hq => hq

theorem raiseOsError_keeps : Sat (fun _ => True) (fun r => KeepsChoice armed p r.1) (p.raiseOsError hm) := by
  apply Sat.of_forall
  intro r hr
  unfold raiseOsError at hr
  cases hp : processErrorPartition hm p .osPart .applicationError with
  | error e =>
    rw [hp] at hr
    cases hr
  | ok b =>
    rw [hp] at hr
    obtain rfl := Except.ok.inj hr
    exact KeepsChoice.refl p

/-! The error handler stays without donators -/

theorem pokThreadCreate_keeps {attr : ThreadAttr} {entryOk stackOk : Bool} (h : HandlerFree p) :
    Sat (fun _ => True) (fun r => HandlerFree r.1 ∧ KeepsErrors (fun _ => False) p r.1)
      (p.pokThreadCreate attr entryOk stackOk) := by
  have hsame : HandlerFree p ∧ KeepsErrors (fun _ => False) p p := ⟨h, KeepsErrors.refl p⟩
  have hfilled : ∀ {sched : Nat → SchedThread} {errno : PokErrno},
      Sat (fun _ : PartitionExit => True) (fun r : ArincPartition × PokErrno =>
        HandlerFree r.1 ∧ KeepsErrors (fun _ => False) p r.1) (.ok ({ p with sched }, errno)) :=
    ⟨h, keepsErrors_of_eq rfl rfl rfl rfl rfl rfl rfl⟩
  refine Sat.ite (fun _ => hsame) fun _ => Sat.ite (fun _ => hsame) fun _ => ?_
  split
  · exact hfilled
  · refine Sat.ite (fun _ => hfilled) fun _ => Sat.ite (fun _ => hfilled) fun _ =>
      Sat.ite (fun _ => hfilled) fun _ => ?_
    refine ⟨?_, rfl, fun h => h, rfl, fun _ => rfl, rfl, rfl, fun h => h, fun _ h => Or.inl h⟩
    intro e he
    simp only [onSections, threadCreate_threads]
    by_cases hn : e = p.nthreadsUsed
    · subst hn
      rw [Function.update_self]
    · rw [Function.update_of_ne hn]
      exact h e he

theorem errorThreadCreate_keeps {entryOk stackOk : Bool} (h : HandlerFree p) :
    Sat (fun _ => True) (fun r => HandlerFree r.1 ∧ KeepsErrors (fun _ => False) p r.1)
      (p.errorThreadCreate entryOk stackOk) := by
  have hsame : HandlerFree p ∧ KeepsErrors (fun _ => False) p p := ⟨h, KeepsErrors.refl p⟩
  refine Sat.ite (fun _ => hsame) fun _ => Sat.ite (fun _ => hsame) fun _ =>
    Sat.ite (fun _ => hsame) fun _ => Sat.ite (fun _ => hsame) fun _ => Sat.ite (fun _ => ?_) fun _ => ?_
  · exact ⟨h, rfl, fun h => h, rfl, fun _ => rfl, rfl, rfl, fun h => h, fun _ h => Or.inl h⟩
  · refine ⟨?_, rfl, fun h => h, rfl, fun _ => rfl, rfl, rfl, fun h => h, fun _ h => Or.inl h⟩
    intro e he
    obtain rfl := Option.some.inj he
    simp only [onSections, threadCreate_threads]
    rw [Function.update_self]

theorem Ruled.free {n : ArincPartition × Option Nat} (hn : Ruled p n)
    (hs : Switched n.2 n.1 q) (hfree : HandlerFree p) : HandlerFree q := by
  have hhandler : n.1.threadError = p.threadError ∧
      ∀ e, (n.1.threads e).firstDonator = (p.threads e).firstDonator := by
    cases hn with
    | init | handler | normal => exact ⟨rfl, fun _ => rfl⟩
    | start e =>
      refine ⟨rfl, fun u => ?_⟩
      change ((p.startErrorHandler e).threads u).firstDonator = _
      by_cases hu : u = e
      · rw [hu, startErrorHandler_self]
        rfl
      · rw [startErrorHandler_ne p hu]
  intro e he
  rw [hs.firstDonator, hhandler.2]
  exact hfree e (hhandler.1 ▸ hs.error ▸ he)

theorem withCurrent_of_forall {post : ArincPartition → Prop}
    {f : Nat → Except PartitionExit ArincPartition}
    (hf : ∀ c, p.threadCurrent = some c → Sat (fun _ => True) post (f c)) :
    Sat (fun _ => True) post (p.withCurrent f) := by
  unfold withCurrent
  split
  · trivial
  · rename_i c hc
    exact hf c hc

theorem errorGet_frame :
    Sat (fun _ => True) (fun r => KeepsFrame armed p r.1) (p.errorGet c) := by
  refine Sat.ite (fun _ => KeepsFrame.refl p) fun _ => ?_
  split
  · exact KeepsFrame.refl p
  · split
    · trivial
    · apply Sat.map threadClearErrorBit_frame
      intro q hq
      exact hq.1.trans ⟨rfl, rfl, fun _ _ => rfl, fun _ => rfl, fun h => h, rfl, rfl, fun h => h, fun h => h⟩

theorem call_free {call : ArincCall} (h : HandlerFree p) :
    Sat (fun _ => True) (fun r => HandlerFree r.1) (p.call hm c call) := by
  have hchoice : ∀ {m : Except PartitionExit (ArincPartition × PokErrno)},
      Sat (fun _ => True) (fun r => KeepsChoice (fun _ => True) p r.1) m →
        Sat (fun _ => True) (fun r => HandlerFree r.1) m :=
    fun hm => hm.weaken fun _ hk => hk.handler h
  cases call with
  | create =>
    exact Sat.ite (fun _ => trivial) fun _ => (pokThreadCreate_keeps h).weaken fun _ hr => hr.1
  | createError =>
    exact Sat.ite (fun _ => trivial) fun _ => (errorThreadCreate_keeps h).weaken fun _ hr => hr.1
  | stop => exact Sat.ite (fun _ => trivial) fun _ => hchoice pokThreadStop_keeps
  | incLockLevel =>
    refine Sat.ite (fun _ => trivial) fun _ => ?_
    unfold ArincPartition.incLockLevel
    split_ifs <;> exact h
  | decLockLevel =>
    refine Sat.ite (fun _ => trivial) fun _ => ?_
    unfold ArincPartition.decLockLevel
    split_ifs <;> exact h
  | setMode mode =>
    refine Sat.ite (fun _ => trivial) fun _ => ?_
    have hreset : ∀ {m : PartitionMode}, Sat (fun _ => True) (fun r : ArincPartition × PokErrno =>
        HandlerFree r.1) (returning .ok (p.partitionReset m)) :=
      Sat.map (Sat.ite (fun _ => trivial) fun _ => trivial) fun r (hr : HandlerFree r) => hr
    cases mode with
    | initWarm => exact Sat.ite (fun _ => h) fun _ => hreset
    | initCold => exact hreset
    | idle => trivial
    | normal =>
      refine Sat.ite (fun _ => h) fun _ => ?_
      have hentered : HandlerFree { p with mode := .normal, lockLevel := 0 }.localInvalidate := h
      apply Sat.map (releaseThreads_keeps fun _ => trivial)
      exact fun q (hk : Keeps (fun _ => True) _ q) => hk.choice.handler hentered
  | raiseApplicationError =>
    exact Sat.ite (fun _ => trivial) fun _ => hchoice raiseApplicationError_keeps
  | raiseOsError => exact Sat.ite (fun _ => trivial) fun _ => hchoice raiseOsError_keeps
  | errorGet =>
    refine Sat.ite (fun _ => trivial) fun _ => ?_
    have hframe : Sat (fun _ => True) (fun r => KeepsFrame (fun _ => True) p r.1) (p.errorGet c) :=
      errorGet_frame
    exact hframe.map fun _ hk => hk.handler h
  | _ =>
    apply hchoice
    apply Sat.weaken (call_keeps (by trivial) h fun _ _ => trivial)
    exact fun _ (hk : Keeps (fun _ => True) p _) => hk.choice

theorem run_free {e : ArincInput} (h : HandlerFree p) :
    Sat (fun _ => True) HandlerFree (p.run hm e) := by
  have hdrained : ∀ {q : ArincPartition} {events : List DrainedEvent}, HandlerFree q →
      Sat (fun _ => True) HandlerFree (drain hm events q) :=
    fun hq => drain_keeps.weaken fun _ (hk : KeepsChoice (fun _ => True) _ _) => hk.handler hq
  have hscheduled : ∀ {q : ArincPartition}, HandlerFree q →
      Sat (fun _ => True) HandlerFree q.reschedule := by
    intro q hq
    refine Sat.ite (fun _ => ?_) fun _ => hq
    apply (schedRule_ruled.mono (fun _ _ => trivial) fun _ hn => hn).bind
    intro n hn
    apply selectAndSwitch_switched.mono (fun _ _ => trivial)
    exact fun r hs => hn.free hs hq
  cases e with
  | restart => trivial
  | user e =>
    refine Sat.ite (fun _ => trivial) fun _ => withCurrent_of_forall fun c _ => ?_
    unfold liftSections
    split
    · trivial
    · rename_i s hs
      have hkeeps : Keeps (fun _ => True) p (p.onSections fun _ => s) := userStep_keeps hs
      exact hkeeps.choice.handler h
  | onEvent =>
    refine Sat.ite (fun _ => trivial) fun _ => Sat.bind ?_ fun _ => hscheduled
    have hrecorded : Keeps (fun _ => True) p (p.onSections (·.recordEntering)) := recordEntering_keeps
    exact hdrained (hrecorded.choice.handler h)
  | recheck => exact Sat.ite (fun _ => trivial) fun _ => (hdrained h).bind fun _ => hscheduled
  | fault =>
    refine Sat.ite (fun _ => trivial) fun _ => Sat.bind ?_ fun _ => hscheduled
    apply withCurrent_of_forall
    exact fun c _ => Sat.bind processError_keeps fun q (hk : KeepsChoice (fun _ => True) p q) =>
      hdrained (hk.handler h)
  | deadlineOor =>
    refine Sat.ite (fun _ => trivial) fun _ => Sat.bind ?_ fun _ => hscheduled
    exact Sat.bind emitDeadlineOor_keeps fun q (hk : KeepsChoice (fun _ => True) p q) =>
      hdrained (hk.handler h)
  | call =>
    refine Sat.ite (fun _ => trivial) fun _ => Sat.bind ?_ fun _ => hscheduled
    apply withCurrent_of_forall
    exact fun c _ => (call_free h).bind fun r hr => hdrained hr

end ArincPartition

end Chpok
