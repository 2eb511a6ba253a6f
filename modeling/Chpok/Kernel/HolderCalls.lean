import Chpok.Kernel.HolderKept
import Chpok.Kernel.EligibleCalls

/-! The system calls leave the holder of the preemption lock alone, or drop the lock. Those that
wait are refused while the lock is held, and the holder cannot be suspended. -/

namespace Chpok

namespace ArincPartition

open Outcome

variable {p q : ArincPartition} {t u c : Nat} {hm : PartitionHm}

theorem withThread_holds {id : Nat} {f : Nat → Except PartitionExit (ArincPartition × PokErrno)}
    (hf : p.HasThread id → HoldingCall p (f id)) : HoldingCall p (p.withThread id f) :=
  Sat.ite hf fun _ => holdingCall_same

theorem waiting_allowed_holds {f : Bool → Except PartitionExit (ArincPartition × PokErrno)}
    (hrefused : HoldingCall p (f false)) (hallowed : p.lockLevel = 0 → HoldingCall p (f true)) :
    HoldingCall p ((p.threadIsWaitingAllowed c).bind f) := by
  unfold threadIsWaitingAllowed
  by_cases hlock : 0 < p.lockLevel ∨ p.threadError = some c
  · rw [if_pos hlock]
    exact hrefused
  · rw [if_neg hlock]
    rw [not_or] at hlock
    by_cases hcount : (p.threads c).msectionCount = 0 ∧ (p.threads c).firstDonator = none
    · rw [if_pos hcount]
      exact hallowed (by omega)
    · rw [if_neg hcount]
      trivial

/-! START, SET_PRIORITY, RESUME and SUSPEND -/

theorem resetStarted_holds : HolderKept p (p.resetStarted t) :=
  (holderKept_updateSched rfl).trans (holderKept_updateThread rfl)

theorem setNextActivation_holds {next : Int} : HolderKept p (p.setNextActivation t next) := by
  unfold setNextActivation
  split_ifs
  · exact HolderKept.refl p
  · exact holderKept_updateSched rfl

theorem setStartDeadline_frame {start : Int} : HolderFrame p (p.setStartDeadline t start) := by
  unfold setStartDeadline
  split_ifs
  · exact (HolderKept.refl p).toHolderFrame
  · exact threadSetDeadline_frame

theorem setStartDeadline_holds {start : Int} (hlt : t < p.nthreadsUsed)
    (hstate : (p.threads t).state ≠ .stopped) : HolderKept p (p.setStartDeadline t start) := by
  unfold setStartDeadline
  split_ifs
  · exact HolderKept.refl p
  · exact threadSetDeadline_holds hlt hstate

theorem resetStarted_state : ((p.resetStarted t).threads u).state = (p.threads u).state := by
  rw [resetStarted_threads]
  by_cases hu : u = t
  · subst hu
    simp [SectionSystem.resetContext]
  · rw [Function.update_of_ne hu]

theorem setStartDeadline_used {start : Int} :
    (p.setStartDeadline t start).nthreadsUsed = p.nthreadsUsed := by
  unfold setStartDeadline
  split_ifs <;> rfl

theorem Moves.holderKept_of_armed {start : Int} (h : Moves t (p.setStartDeadline t start) q)
    (hlt : t < p.nthreadsUsed) (hstopped : (p.threads t).state = .stopped)
    (hstate : (q.threads t).state ≠ .stopped) : HolderKept p q where
  toHolderFrame := by
    refine setStartDeadline_frame.trans (h.holderFrame fun _ _ hb => absurd hb ?_)
    exact not_unblocked_of_state (by rw [setStartDeadline_threads, hstopped]) (by decide)
  deadlines hd u hu := by
    have hkept : u = t ∨ p.DelayedEventActive u .deadline := by
      have hactive := h.deadline u hu
      unfold setStartDeadline at hactive
      split_ifs at hactive
      · exact .inr hactive
      · exact (active_delayedEventAdd.mp hactive).imp_left And.left
    rw [h.used, setStartDeadline_used]
    by_cases ht : u = t
    · exact ht ▸ ⟨hlt, hstate⟩
    · rw [h.threads u ht, setStartDeadline_threads]
      exact hd u (hkept.resolve_left ht)

theorem threadStart_state (h : p.threadStart t = .ok q) : (q.threads t).state = .runnable := by
  rw [setEligibleUnlessSuspended_threads h]
  simp [setState]

theorem pokThreadDelayedStart_holds {id : Nat} {delay now start : Int} :
    HoldingCall p (p.pokThreadDelayedStart id delay now start) := by
  apply withThread_holds
  intro hid
  refine Sat.ite (fun _ => holdingCall_same) fun _ => ?_
  unfold threadDelayedStartInternal
  refine Sat.ite (fun _ => trivial) fun _ => Sat.ite (fun _ => holdingCall_same) fun hstopped =>
    Sat.ite (fun _ => holdingCall_same) fun _ => ?_
  rw [not_not] at hstopped
  refine Sat.ite (fun _ => ?_) fun _ => ?_
  · have hreset : HolderKept p ((p.resetStarted id).updateSched id fun th => { th with
        delayedTime := delay }) := resetStarted_holds.trans (holderKept_updateSched rfl)
    refine hreset.trans (moves_setState.holderKept_of_awake (fun _ _ => ?_) ?_)
    · exact not_unblocked_of_state (resetStarted_state.trans hstopped) (by decide)
    · simp [setState]
  · dsimp only
    generalize TimeArith.kernel.unsigned _ = next
    have hactivated : HolderKept p ((p.resetStarted id).setNextActivation id next) :=
      resetStarted_holds.trans setNextActivation_holds
    have hstate : (((p.resetStarted id).setNextActivation id next).threads id).state =
        .stopped := by
      rw [setNextActivation_threads, resetStarted_state, hstopped]
    have hlt : id < ((p.resetStarted id).setNextActivation id next).nthreadsUsed := by
      unfold setNextActivation
      split_ifs <;> exact hid.2.1
    apply HoldingCall.returning
    apply Holding.after hactivated
    refine Sat.ite (fun _ => ?_) fun _ => ?_
    · apply Sat.of_forall
      intro q hq
      refine (threadStart_moves hq).holderKept_of_armed hlt hstate ?_
      rw [threadStart_state hq]
      decide
    · apply Sat.of_forall
      intro q hq
      refine (threadWaitTimed_moves hq).holderKept_of_armed hlt hstate ?_
      rw [threadWaitTimed_state hq]
      decide

theorem pokThreadSetPriority_holds {id priority : Nat} :
    HoldingCall p (p.pokThreadSetPriority id priority) :=
  withThread_holds fun _ => Sat.ite (fun _ => holdingCall_same) fun _ =>
    Sat.ite (fun _ => holdingCall_same) fun _ =>
      HoldingCall.returning (Holding.after (holderKept_updateSched rfl) threadYield_holds)

theorem pokThreadResume_holds {id : Nat} : HoldingCall p (p.pokThreadResume c id) := by
  apply withThread_holds
  intro _
  refine Sat.ite (fun _ => holdingCall_same) fun _ => Sat.ite (fun _ => holdingCall_same) fun _ =>
    Sat.ite (fun _ => holdingCall_same) fun hstate =>
      Sat.ite (fun _ => holdingCall_same) fun hsuspended => ?_
  exact HoldingCall.returning (threadResume_holds (not_not.mp hsuspended) hstate)

theorem pokThreadSuspendTarget_holds {id : Nat} :
    HoldingCall p (p.pokThreadSuspendTarget c id) := by
  apply withThread_holds
  intro _
  refine Sat.ite (fun _ => holdingCall_same) fun _ => Sat.ite (fun _ => holdingCall_same) fun _ =>
    Sat.ite (fun _ => holdingCall_same) fun _ => Sat.ite (fun _ => holdingCall_same) fun hlock =>
      Sat.ite (fun _ => holdingCall_same) fun _ => ?_
  exact threadSuspend_holds fun hl ht => hlock ⟨hl, ht⟩

theorem threadSuspend_unlocked (hlock : p.lockLevel = 0) : (p.threadSuspend t).lockLevel = 0 :=
  (threadSuspend_holds fun hl => by omega).unlocked hlock

theorem pokThreadSuspend_holds {time now : Int} : HoldingCall p (p.pokThreadSuspend c time now) := by
  refine Sat.ite (fun _ => holdingCall_same) fun _ => ?_
  apply waiting_allowed_holds
  · exact holdingCall_same
  · intro hlock
    have hsuspended : HolderKept p (p.threadSuspend c) := threadSuspend_holds fun hl => by omega
    refine Sat.ite (fun _ => holdingCall_same) fun _ => Sat.ite (fun _ => holdingCall_same) fun _ =>
      Sat.ite (fun _ => hsuspended) fun _ => ?_
    apply HoldingCall.returning
    exact Holding.after hsuspended (threadSuspendTimed_holds (threadSuspend_unlocked hlock))

/-! The calls that wait -/

theorem pokThreadSleep_holds {time now : Int} : HoldingCall p (p.pokThreadSleep c time now) := by
  apply waiting_allowed_holds
  · exact holdingCall_same
  · intro hlock
    refine Sat.ite (fun _ => holdingCall_same) fun _ => Sat.ite (fun _ => ?_) fun _ => ?_
    · exact HoldingCall.returning threadYield_holds
    · exact HoldingCall.returning (threadWaitCommon_holds hlock)

theorem pokSchedEndPeriod_holds (hlt : c < p.nthreadsUsed) :
    HoldingCall p (p.pokSchedEndPeriod c) := by
  refine Sat.ite (fun _ => holdingCall_same) fun _ => ?_
  apply waiting_allowed_holds
  · exact holdingCall_same
  · intro hlock
    refine Sat.ite (fun _ => holdingCall_same) fun _ => HoldingCall.returning ?_
    generalize TimeArith.kernel.add _ (p.sched c).period = next
    have hnext : HolderKept p (p.updateSched c fun th => { th with
        nextActivation := TimeArith.kernel.unsigned next }) :=
      holderKept_updateSched rfl
    have hwaits : Sat (fun _ => True) (fun q => HolderKept p q ∧ q.nthreadsUsed = p.nthreadsUsed ∧
        (q.threads c).state = .waiting) ((p.updateSched c fun th => { th with
          nextActivation := TimeArith.kernel.unsigned next }).threadWaitTimed c next) := by
      apply Sat.of_forall
      intro q hq
      have hmoves := threadWaitTimed_moves hq
      have hstate := threadWaitTimed_state hq
      refine ⟨hnext.trans (hmoves.holderKept_of_awake (fun hl => ?_) ?_), hmoves.used, hstate⟩
      · exact absurd (hnext.unlocked hlock) (by omega)
      · rw [hstate]
        decide
    refine Sat.map hwaits fun q hq => hq.1.trans (threadSetDeadline_holds (hq.2.1 ▸ hlt) ?_)
    rw [hq.2.2]
    decide

theorem pokSchedReplenish_holds {budget now : Int} (hlt : c < p.nthreadsUsed)
    (hstate : (p.threads c).state ≠ .stopped) : HoldingCall p (p.pokSchedReplenish c budget now) := by
  refine Sat.ite (fun _ => holdingCall_same) fun _ => Sat.ite (fun _ => holdingCall_same) fun _ =>
    Sat.ite (fun _ => holdingCall_same) fun _ => Sat.ite (fun _ => ?_) fun _ => ?_
  · exact Sat.ite (fun _ => holdingCall_same) fun _ => delayedEventRemove_holds
  · exact Sat.ite (fun _ => holdingCall_same) fun _ => threadSetDeadline_holds hlt hstate

theorem setWaiters_holds {port : Nat} {waiters : List Nat} :
    HolderKept p (p.setWaiters port t waiters) := by
  refine holderKept_of_same rfl (fun h => h) rfl rfl rfl (fun _ => rfl) (fun u => ?_) fun _ h => h
  by_cases hu : u = t
  · subst hu
    simp [setWaiters]
  · simp [setWaiters, Function.update_of_ne hu]

theorem threadWqAddCommon_holds {port : Nat} {byPriority : Bool} :
    Holding p (p.threadWqAddCommon port c byPriority) := by
  refine Sat.ite (fun _ => trivial) fun _ => ?_
  cases byPriority with
  | true => exact (holderKept_updateSched rfl).trans setWaiters_holds
  | false => exact setWaiters_holds

theorem pokPortWait_holds {port : Nat} {sending byPriority : Bool} {timeout now : Int} :
    HoldingCall p (p.pokPortWait c port sending timeout now byPriority) := by
  refine Sat.ite (fun _ => holdingCall_same) fun _ => ?_
  apply waiting_allowed_holds
  · exact holdingCall_same
  · intro hlock
    refine Sat.ite (fun _ => holdingCall_same) fun _ => HoldingCall.returning ?_
    exact threadWqAddCommon_holds.bind fun q hq => threadWaitCommon_holds (hq.unlocked hlock)

/-! STOP -/

theorem donate_holds {target : Nat} {next : Option Nat} : HolderKept p (p.donate c target next) :=
  holderKept_updateThread (p := p) (t := c)
    (f := fun th => { th with donateTarget := some target, nextDonator := next }) rfl

theorem interruptWait_holds : Holding p (p.interruptWait t) :=
  Sat.ite (fun _ => threadWakeUp_holds.map fun _ _ => setWaitResult_holds) fun _ =>
    HolderKept.refl p

theorem pokThreadStopTarget_holds {id : Nat} : HoldingCall p (p.pokThreadStopTarget c id) := by
  apply withThread_holds
  intro _
  refine Sat.ite (fun _ => holdingCall_same) fun _ => Sat.ite (fun _ => holdingCall_same) fun _ => ?_
  have hdonates {r : ArincPartition} {target : Nat} {next : Option Nat} (hr : HolderKept p r) :
      HolderKept p (r.donate c target next).localInvalidate :=
    (hr.trans donate_holds).trans holderKept_localInvalidate
  split
  · exact hdonates (holderKept_updateThread rfl)
  · refine Sat.ite (fun _ => ?_) fun _ => Sat.ite (fun _ => ?_) fun _ => ?_
    · exact hdonates (holderKept_updateThread rfl)
    · apply HoldingCall.returning
      apply Sat.map interruptWait_holds
      exact fun q hq => hdonates (hq.trans (holderKept_updateThread rfl))
    · exact HoldingCall.returning threadStop_holds

theorem errorIgnoreSync_holds : Holding p p.errorIgnoreSync := by
  unfold errorIgnoreSync
  split
  · exact HolderKept.refl p
  · refine Sat.ite (fun _ => ?_) fun _ => HolderKept.refl p
    apply threadClearErrorBit_holds.map
    intro q _
    exact holderKept_of_same rfl (fun h => h) rfl rfl rfl (fun _ => rfl) (fun _ => rfl) fun _ h => h

theorem pokThreadStop_holds : HoldingCall p (p.pokThreadStop hm c) := by
  refine Sat.ite (fun _ => trivial) fun _ => HoldingCall.returning ?_
  apply threadStop_holds.bind
  intro q _
  refine Holding.map (Sat.ite (fun _ => ?_) fun _ => HolderKept.refl q) fun _ _ =>
    holderKept_localInvalidate
  have hchecked : Sat (fun _ => True) (fun r => r = q) (q.errorCheckAfterHandler hm) :=
    Sat.ite (fun _ => rfl) fun _ => Sat.bind_of_forall (f := fun _ => .ok q) fun _ => rfl
  apply hchecked.bind
  rintro r rfl
  exact errorIgnoreSync_holds

/-! Sections -/

theorem checkReleased_holds : HolderKept p (p.onSections (·.checkReleased)) := by
  rcases onSections_checkReleased (p := p) with he | he
  · rw [he]
    exact HolderKept.refl p
  · rw [he]
    exact holderKept_localInvalidate

theorem resumeDonator_holds : Holding p (p.resumeDonator t) := by
  have hfreed : HolderKept p (p.updateThread t fun th => { th with donateTarget := none }) :=
    holderKept_updateThread rfl
  have hseen : HolderKept p (if p.threadSelected = some t then
      (p.updateThread t fun th => { th with donateTarget := none }).localInvalidate
      else p.updateThread t fun th => { th with donateTarget := none }) := by
    split_ifs
    · exact hfreed.trans holderKept_localInvalidate
    · exact hfreed
  unfold resumeDonator
  dsimp only
  refine Holding.map (Holding.after hseen ?_) fun q _ => holderKept_updateThread rfl
  refine Sat.ite (fun _ => HolderKept.refl _) fun _ => ?_
  exact Holding.after (holderKept_updateThread rfl) threadStop_holds

theorem resumeDonators_holds {fuel donator : Nat} : Holding p (resumeDonators fuel p donator) := by
  induction fuel generalizing p donator with
  | zero => trivial
  | succ fuel ih =>
    rw [resumeDonators]
    apply resumeDonator_holds.bind
    intro q _
    split
    · exact HolderKept.refl q
    · exact ih

theorem jetResched_holds : Holding p (p.jetResched c) := by
  have hchecked : HolderKept p (p.onSections (·.checkReleased)) := checkReleased_holds
  unfold jetResched
  dsimp only
  split
  · exact hchecked
  · refine Sat.ite (fun _ => ?_) fun _ => hchecked
    have hcut := hchecked.trans (holderKept_updateThread (t := c)
      (f := fun th => { th with firstDonator := none }) rfl)
    exact Holding.bind (Holding.after hcut threadStop_holds) fun _ _ => resumeDonators_holds

theorem leaveCheckFlags_holds : HoldingCall p (p.leaveCheckFlags c) := by
  unfold leaveCheckFlags
  split
  · refine Sat.ite (fun _ => HoldingCall.returning ?_) fun _ => trivial
    exact jetResched_holds.map fun q _ => holderKept_updateThread rfl
  · trivial

theorem msectionEnterHelper_holds : HoldingCall p (p.msectionEnterHelper c) := by
  unfold msectionEnterHelper
  split
  · rename_i sec _
    have hpoint : HolderKept p (p.updateThread c fun th => { th with point := .acquired sec }) :=
      holderKept_updateThread rfl
    rw [HoldingCall, sat_ok]
    change HolderKept p ((p.updateThread c fun th => { th with
      point := .acquired sec }).onSections (·.msectionEnterHelper c sec))
    generalize p.updateThread c (fun th => { th with point := .acquired sec }) = r at *
    apply hpoint.trans
    rcases onSections_msectionEnterHelper (p := r) with he | he
    · rw [he]
      exact HolderKept.refl r
    · rw [he]
      exact HolderKept.trans (holderKept_updateThread rfl) holderKept_localInvalidate
  · trivial

theorem msectionWait_holds {sec : Nat} {timeout now : Int} :
    HoldingCall p (p.msectionWait c sec timeout now) := by
  refine Sat.ite (fun _ => trivial) fun _ => Sat.ite (fun _ => holdingCall_same) fun hfree =>
    Sat.ite (fun _ => holderKept_updateThread rfl) fun _ => HoldingCall.returning ?_
  rw [not_or] at hfree
  refine Holding.map ?_ fun q _ => holderKept_localInvalidate
  have hreleased : HolderKept p ((p.updateThread c fun th => { th with
      msectionEntering := some sec, point := .waiting sec }).onSections fun s =>
        s.updateSection sec fun m => { m with owner := none }) := by
    have hentering : HolderKept p (p.updateThread c fun th => { th with
        msectionEntering := some sec, point := .waiting sec }) := holderKept_updateThread rfl
    exact hentering.trans (holderKept_sections (fun h => h) rfl fun _ => rfl)
  exact Holding.after hreleased (threadWaitCommon_holds (hreleased.unlocked (by omega)))

theorem msectionNotifyAll_holds {sec : Nat} {targets : List Nat} :
    Holding p (msectionNotifyAll sec targets p) := by
  induction targets generalizing p with
  | nil => exact HolderKept.refl p
  | cons t targets ih =>
    refine Sat.ite (fun _ => trivial) fun _ => Sat.ite (fun _ => ih) fun _ =>
      Sat.ite (fun _ => trivial) fun _ => ?_
    apply threadWakeUp_holds.bind
    intro q _
    exact Holding.after setWaitResult_holds ih

theorem msectionNotify_holds {sec : Nat} {targets : List Nat} :
    HoldingCall p (p.msectionNotify c sec targets) :=
  Sat.ite (fun _ => HoldingCall.returning msectionNotifyAll_holds) fun _ => trivial

/-! SET_PARTITION_MODE -/

theorem releaseThread_holds {now start : Int} (hlt : t < p.nthreadsUsed) :
    Sat (fun _ => True) (fun q => HolderKept p q ∧ q.nthreadsUsed = p.nthreadsUsed)
      (p.releaseThread now start t) := by
  refine Sat.ite (fun _ => ⟨HolderKept.refl p, rfl⟩) fun hstate => ?_
  dsimp only
  generalize p.startTime t (p.sched t).delayedTime now start = time
  generalize TimeArith.kernel.unsigned time = next
  have hactivated : HolderKept p (p.setNextActivation t next) := setNextActivation_holds
  have hused : (p.setNextActivation t next).nthreadsUsed = p.nthreadsUsed := by
    unfold setNextActivation
    split_ifs <;> rfl
  have halive : ((p.setNextActivation t next).threads t).state ≠ .stopped := by
    rwa [setNextActivation_threads]
  have hreleased : Sat (fun _ => True) (fun q => HolderKept p q ∧ q.nthreadsUsed = p.nthreadsUsed ∧
      (q.threads t).state ≠ .stopped) (if time ≤ now then (p.setNextActivation t next).threadWakeUp t
        else .ok ((p.setNextActivation t next).threadDelayEvent t time .wakeUp)) := by
    refine Sat.ite (fun _ => ?_) fun _ => ?_
    · apply Sat.of_forall
      intro q hq
      refine ⟨hactivated.trans (threadWakeUp_holds.of_ok hq), (threadWakeUp_moves hq).used.trans hused,
        ?_⟩
      rw [threadWakeUp_state hq]
      decide
    · have hdelayed : HolderKept (p.setNextActivation t next)
          ((p.setNextActivation t next).threadDelayEvent t time .wakeUp) := by
        refine moves_threadDelayEvent.holderKept_of_same rfl ?_
        simp [threadDelayEvent, delayedEventAdd]
      exact ⟨hactivated.trans hdelayed, hused, halive⟩
  refine Sat.map hreleased fun q hq => ?_
  exact ⟨hq.1.trans (setStartDeadline_holds (hq.2.1 ▸ hlt) hq.2.2),
    setStartDeadline_used.trans hq.2.1⟩

theorem releaseThreads_holds {now start : Int} {ts : List Nat} (hts : ∀ t ∈ ts, t < p.nthreadsUsed) :
    Holding p (releaseThreads now start ts p) := by
  induction ts generalizing p with
  | nil => exact HolderKept.refl p
  | cons t ts ih =>
    apply (releaseThread_holds (hts t List.mem_cons_self)).bind
    intro q hq
    refine Holding.after hq.1 (ih fun u hu => ?_)
    rw [hq.2]
    exact hts u (List.mem_cons_of_mem t hu)

theorem partitionSetMode_holds {mode : PartitionMode} {now start : Int} :
    HoldingCall p (p.partitionSetMode mode now start) := by
  have hreset {m : PartitionMode} : HoldingCall p (returning .ok (p.partitionReset m)) :=
    HoldingCall.returning (Sat.ite (fun _ => trivial) fun _ => trivial)
  cases mode with
  | initWarm => exact Sat.ite (fun _ => holdingCall_same) fun _ => hreset
  | initCold => exact hreset
  | idle => trivial
  | normal =>
    refine Sat.ite (fun _ => holdingCall_same) fun _ => HoldingCall.returning ?_
    have hentered : HolderKept p { p with mode := .normal, lockLevel := 0 }.localInvalidate :=
      { mode := .inr rfl
        recheck := fun _ => rfl
        unlocked := fun _ => rfl
        holder := fun _ _ => .inl ⟨rfl, rfl⟩
        deadlines := fun h => h }
    apply Holding.after hentered
    apply releaseThreads_holds
    intro t ht
    have hrange := List.mem_range'_1.mp ht
    have hused : t < p.nthreadsUsed := by omega
    exact hused

/-! The creation of threads -/

theorem threadCreate_holds (hlocked : p.threadLocked < p.nthreadsUsed) {error : Option Nat} :
    HolderKept p ((p.threadCreate p.nthreadsUsed).onSections fun s => { s with
      nthreadsUsed := p.nthreadsUsed + 1, threadError := error }) where
  mode := .inl rfl
  recheck h := h
  unlocked h := h
  holder _ h := by
    refine .inr ⟨rfl, rfl, ?_⟩
    have hne : p.threadLocked ≠ p.nthreadsUsed := Nat.ne_of_lt hlocked
    have hthread : (p.threadCreate p.nthreadsUsed).Unblocked p.threadLocked := by
      rw [Unblocked, threadCreate_threads, threadCreate_sched, Function.update_of_ne hne,
        Function.update_of_ne hne]
      exact h
    exact hthread
  deadlines h u hu := by
    obtain ⟨hlt, hstate⟩ := h u hu
    have hne : u ≠ p.nthreadsUsed := Nat.ne_of_lt hlt
    refine ⟨Nat.lt_succ_of_lt hlt, ?_⟩
    have hthread : ((p.threadCreate p.nthreadsUsed).threads u).state ≠ .stopped := by
      rw [threadCreate_threads, Function.update_of_ne hne]
      exact hstate
    exact hthread

theorem pokThreadCreate_holds {attr : ThreadAttr} {entryOk stackOk : Bool}
    (hlocked : p.mode ≠ .normal → p.threadLocked < p.nthreadsUsed) :
    HoldingCall p (p.pokThreadCreate attr entryOk stackOk) := by
  refine Sat.ite (fun _ => holdingCall_same) fun hmode => Sat.ite (fun _ => holdingCall_same) fun _ => ?_
  have hfilled : HolderKept p (p.updateSched p.nthreadsUsed fun th => { th with
      basePriority := attr.priority, period := attr.period, timeCapacity := attr.timeCapacity }) :=
    holderKept_updateSched rfl
  split
  · exact hfilled
  · have hnamed := hfilled.trans (holderKept_updateSched (t := p.nthreadsUsed)
      (g := fun th => { th with name := attr.name }) rfl)
    refine Sat.ite (fun _ => hfilled) fun _ => Sat.ite (fun _ => hnamed) fun _ =>
      Sat.ite (fun _ => hnamed) fun _ => ?_
    apply hnamed.trans
    apply threadCreate_holds
    exact hlocked hmode

theorem errorThreadCreate_holds {entryOk stackOk : Bool}
    (hlocked : p.mode ≠ .normal → p.threadLocked < p.nthreadsUsed) :
    HoldingCall p (p.errorThreadCreate entryOk stackOk) := by
  refine Sat.ite (fun _ => holdingCall_same) fun hmode => Sat.ite (fun _ => holdingCall_same) fun _ =>
    Sat.ite (fun _ => holdingCall_same) fun _ => Sat.ite (fun _ => holdingCall_same) fun _ => ?_
  have hnamed : HolderKept p (p.updateSched p.nthreadsUsed fun th => { th with
      name := errorThreadName, basePriority := 254, period := -1, timeCapacity := -1 }) :=
    holderKept_updateSched rfl
  refine Sat.ite (fun _ => hnamed) fun _ => ?_
  apply hnamed.trans
  apply threadCreate_holds
  exact hlocked hmode

/-! All calls but those that move the lock -/

theorem raiseApplicationError_holds : HoldingCall p (p.raiseApplicationError hm c) := by
  apply Sat.bind_of_forall
  intro processed
  refine Sat.ite (fun _ => holdingCall_same) fun _ => ?_
  exact Sat.map threadEmitSyncError_holds fun _ hq => hq

theorem raiseOsError_holds : HoldingCall p (p.raiseOsError hm) := by
  apply Sat.of_forall
  intro r hr
  unfold raiseOsError at hr
  cases hp : processErrorPartition hm p .osPart .applicationError with
  | error e =>
    rw [hp] at hr
    cases hr
  | ok b =>
    rw [hp] at hr
    obtain rfl := Except.ok.inj hr
    exact HolderKept.refl p

theorem errorGet_holds : Sat (fun _ => True) (fun r => HolderKept p r.1) (p.errorGet c) := by
  refine Sat.ite (fun _ => HolderKept.refl p) fun _ => ?_
  split
  · exact HolderKept.refl p
  · split
    · trivial
    · apply Sat.map threadClearErrorBit_holds
      intro q hq
      exact hq.trans (holderKept_of_same rfl (fun h => h) rfl rfl rfl (fun _ => rfl) (fun _ => rfl)
        fun _ h => h)

theorem call_holds {call : ArincCall} (hlt : c < p.nthreadsUsed)
    (hstate : (p.threads c).state ≠ .stopped)
    (hlocked : p.mode ≠ .normal → p.threadLocked < p.nthreadsUsed)
    (hlock : call ≠ .incLockLevel ∧ call ≠ .decLockLevel) : HoldingCall p (p.call hm c call) := by
  cases call with
  | incLockLevel => exact absurd rfl hlock.1
  | decLockLevel => exact absurd rfl hlock.2
  | enterHelper => exact msectionEnterHelper_holds
  | checkFlags => exact leaveCheckFlags_holds
  | create => exact Sat.ite (fun _ => trivial) fun _ => pokThreadCreate_holds hlocked
  | createError => exact Sat.ite (fun _ => trivial) fun _ => errorThreadCreate_holds hlocked
  | delayedStart => exact Sat.ite (fun _ => trivial) fun _ => pokThreadDelayedStart_holds
  | stopTarget => exact Sat.ite (fun _ => trivial) fun _ => pokThreadStopTarget_holds
  | stop => exact Sat.ite (fun _ => trivial) fun _ => pokThreadStop_holds
  | suspendTarget => exact Sat.ite (fun _ => trivial) fun _ => pokThreadSuspendTarget_holds
  | suspend => exact Sat.ite (fun _ => trivial) fun _ => pokThreadSuspend_holds
  | resume => exact Sat.ite (fun _ => trivial) fun _ => pokThreadResume_holds
  | setPriority => exact Sat.ite (fun _ => trivial) fun _ => pokThreadSetPriority_holds
  | yield => exact Sat.ite (fun _ => trivial) fun _ => HoldingCall.returning threadYield_holds
  | sleep => exact Sat.ite (fun _ => trivial) fun _ => pokThreadSleep_holds
  | endPeriod => exact Sat.ite (fun _ => trivial) fun _ => pokSchedEndPeriod_holds hlt
  | replenish => exact Sat.ite (fun _ => trivial) fun _ => pokSchedReplenish_holds hlt hstate
  | portWait => exact Sat.ite (fun _ => trivial) fun _ => pokPortWait_holds
  | setMode => exact Sat.ite (fun _ => trivial) fun _ => partitionSetMode_holds
  | raiseApplicationError => exact Sat.ite (fun _ => trivial) fun _ => raiseApplicationError_holds
  | raiseOsError => exact Sat.ite (fun _ => trivial) fun _ => raiseOsError_holds
  | errorGet => exact Sat.ite (fun _ => trivial) fun _ => errorGet_holds.map fun _ hr => hr
  | msectionWait => exact Sat.ite (fun _ => trivial) fun _ => msectionWait_holds
  | msectionNotify => exact Sat.ite (fun _ => trivial) fun _ => msectionNotify_holds

/-! What is no call -/

theorem recordEntering_holds : HolderKept p (p.onSections (·.recordEntering)) := by
  unfold onSections SectionSystem.recordEntering
  dsimp only
  split
  · exact HolderKept.refl p
  · split
    · exact HolderKept.refl p
    · exact holderKept_updateThread rfl

theorem userStep_holds {e : SectionInput} {s : SectionSystem} (hs : p.userStep c e = some s) :
    HolderKept p (p.onSections fun _ => s) := by
  have hgoes := userStep_goesOn hs
  refine holderKept_sections (fun hr => hgoes.recheck.trans hr) hgoes.used fun u => ?_
  by_cases hu : u = c
  · subst hu
    exact hgoes.state
  · rw [hgoes.others u hu]

/-! `sched_arinc` -/

/-- `sched_arinc` leaves the lock alone, and stops nobody. -/
structure Rescheduled (p q : ArincPartition) : Prop where
  mode : q.mode = p.mode
  lockLevel : q.lockLevel = p.lockLevel
  threadLocked : q.threadLocked = p.threadLocked
  unblocked : ∀ u, p.Unblocked u → q.Unblocked u
  deadlines : p.DeadlinesLive → q.DeadlinesLive

theorem Rescheduled.trans (h : Rescheduled p q) (h' : Rescheduled q r) : Rescheduled p r where
  mode := h'.mode.trans h.mode
  lockLevel := h'.lockLevel.trans h.lockLevel
  threadLocked := h'.threadLocked.trans h.threadLocked
  unblocked u hu := h'.unblocked u (h.unblocked u hu)
  deadlines hd := h'.deadlines (h.deadlines hd)

theorem startErrorHandler_rescheduled {e : Nat} : Rescheduled p (p.startErrorHandler e) where
  mode := rfl
  lockLevel := rfl
  threadLocked := rfl
  unblocked u hu := by
    have hsched : ((p.startErrorHandler e).sched u).suspended = (p.sched u).suspended := by
      by_cases he : u = e
      · subst he
        simp [startErrorHandler, updateThread, onSections]
      · simp [startErrorHandler, updateThread, onSections, Function.update_of_ne he]
    refine ⟨?_, hsched.trans hu.2⟩
    by_cases he : u = e
    · subst he
      rw [startErrorHandler_self]
    · rw [startErrorHandler_ne p he]
      exact hu.1
  deadlines hd u hu := by
    obtain ⟨hlt, hstate⟩ := hd u hu
    refine ⟨hlt, ?_⟩
    by_cases he : u = e
    · subst he
      rw [startErrorHandler_self]
      simp
    · rwa [startErrorHandler_ne p he]

theorem Ruled.rescheduled {n : ArincPartition × Option Nat} (hn : Ruled p n) :
    Rescheduled p n.1 := by
  cases hn with
  | init | handler | normal => exact ⟨rfl, rfl, rfl, fun _ h => h, fun h => h⟩
  | start e => exact startErrorHandler_rescheduled

theorem Switched.rescheduled {choice : Option Nat} (hs : Switched choice p q) :
    Rescheduled p q := by
  have hrest := hs.rest
  have hsched : q.sched = p.sched := by rw [hrest]
  have hevents : q.delayedEvents = p.delayedEvents := by rw [hrest]
  refine ⟨by rw [hrest], by rw [hrest], by rw [hrest], fun u hu => ?_, fun hd u hu => ?_⟩
  · exact ⟨(hs.state u).trans hu.1, by rw [hsched]; exact hu.2⟩
  · rw [hs.used, hs.state]
    apply hd u
    simpa only [DelayedEventActive, hevents] using hu

theorem reschedule_rescheduled : Sat (fun _ => True) (Rescheduled p) p.reschedule := by
  refine Sat.ite (fun _ => ?_) fun _ => ⟨rfl, rfl, rfl, fun _ h => h, fun h => h⟩
  apply (schedRule_ruled.mono (fun _ _ => trivial) fun _ hn => hn).bind
  intro n hn
  apply selectAndSwitch_switched.mono (fun _ _ => trivial)
  intro q hs
  have hreset : Rescheduled p (p.onSections fun s => { s with recheckNeeded := false }) :=
    ⟨rfl, rfl, rfl, fun _ h => h, fun h => h⟩
  exact (hreset.trans hn.rescheduled).trans hs.rescheduled

/-! One step -/

/-- What the kernel keeps, in all that it does but the calls, is kept by a step if the call keeps
it. -/
theorem run_rule {inv : ArincPartition → Prop} {e : ArincInput}
    (hkept : ∀ q r, inv q → HolderKept q r → SameThreads q r → inv r)
    (hsched : ∀ q r, inv q → Rescheduled q r → SameThreads q r → inv r)
    (h : (∀ call events, e ≠ .call call events) → inv p)
    (hcall : ∀ call events c, e = .call call events → p.halted = false →
      p.threadCurrent = some c → Sat (fun _ => True) (fun r => inv r.1) (p.call hm c call)) :
    Sat (fun _ => True) inv (p.run hm e) := by
  have hfinish {r : ArincPartition} {events : List DrainedEvent} (hr : inv r) :
      Sat (fun _ => True) inv ((drain hm events r).bind reschedule) := by
    have hdrained : Sat (fun _ => True) inv (drain hm events r) := Sat.of_forall fun q hq =>
      hkept r q hr (drain_holds.of_ok hq) (drain_sameThreads.of_ok hq)
    exact hdrained.bind fun q hq => Sat.of_forall fun q' hq' =>
      hsched q q' hq (reschedule_rescheduled.of_ok hq') (reschedule_sameThreads.of_ok hq')
  have hbind {α : Type} (m : Except PartitionExit α) (f : α → Except PartitionExit ArincPartition)
      (g : ArincPartition → Except PartitionExit ArincPartition) :
      (m.bind f).bind g = m.bind fun a => (f a).bind g := by cases m <;> rfl
  cases e with
  | restart => trivial
  | user e =>
    have hp : inv p := h fun _ _ => by simp
    refine Sat.ite (fun _ => trivial) fun _ => withCurrent_of_forall fun c _ => ?_
    unfold liftSections
    split
    · trivial
    · rename_i s hs
      have hkeeps : Keeps (fun _ => True) p (p.onSections fun _ => s) := userStep_keeps hs
      exact hkept p _ hp (userStep_holds hs) hkeeps.choice.toKeepsFrame.sameThreads
  | onEvent =>
    have hp : inv p := h fun _ _ => by simp
    refine Sat.ite (fun _ => trivial) fun _ => hfinish (hkept p _ hp recordEntering_holds ?_)
    have hrecorded : Keeps (fun _ => True) p (p.onSections (·.recordEntering)) := recordEntering_keeps
    exact hrecorded.choice.toKeepsFrame.sameThreads
  | recheck => exact Sat.ite (fun _ => trivial) fun _ => hfinish (h fun _ _ => by simp)
  | fault errorId failedAddr =>
    have hp : inv p := h fun _ _ => by simp
    refine Sat.ite (fun _ => trivial) fun _ => ?_
    unfold beforeRecheck withCurrent
    cases p.threadCurrent with
    | none => trivial
    | some c =>
      show Sat _ _ (((p.processError hm c _ _).bind _).bind reschedule)
      rw [hbind]
      have hnoted : Sat (fun _ => True) inv (p.processError hm c errorId failedAddr) :=
        Sat.of_forall fun r hr => by
          have hkeeps : KeepsChoice (fun _ => True) p r := processError_keeps.of_ok hr
          exact hkept p r hp (processError_holds.of_ok hr) hkeeps.toKeepsFrame.sameThreads
      exact hnoted.bind fun r hr => hfinish hr
  | deadlineOor t =>
    have hp : inv p := h fun _ _ => by simp
    refine Sat.ite (fun _ => trivial) fun _ => ?_
    show Sat _ _ (((p.emitDeadlineOor hm _).bind _).bind reschedule)
    rw [hbind]
    have hnoted : Sat (fun _ => True) inv (p.emitDeadlineOor hm t) := Sat.of_forall fun r hr => by
      have hkeeps : KeepsChoice (fun _ => True) p r := emitDeadlineOor_keeps.of_ok hr
      exact hkept p r hp (emitDeadlineOor_holds.of_ok hr) hkeeps.toKeepsFrame.sameThreads
    exact hnoted.bind fun r hr => hfinish hr
  | call call events =>
    refine Sat.ite (fun _ => trivial) fun hhalted => ?_
    unfold beforeRecheck withCurrent
    cases hcurrent : p.threadCurrent with
    | none => trivial
    | some c =>
      show Sat _ _ (((p.call hm c call).bind _).bind reschedule)
      rw [hbind]
      exact (hcall call events c rfl (by simpa using hhalted) hcurrent).bind fun r hr => hfinish hr

end ArincPartition

end Chpok
