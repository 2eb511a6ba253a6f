import Chpok.Kernel.ThreadsUsed

/-! The functions of the kernel leave the holder of the preemption lock alone, or drop the lock
and have the choice rechecked. None of them leaves a deadline to a stopped thread. -/

namespace Chpok

namespace ArincPartition

open Outcome

variable {p q r : ArincPartition} {t u c : Nat} {hm : PartitionHm} {time : Int}

/-- The thread is neither stopped nor waiting nor suspended. -/
def Unblocked (p : ArincPartition) (t : Nat) : Prop :=
  (p.threads t).state = .runnable ∧ (p.sched t).suspended = false

/-- Only threads that are not stopped have deadlines. -/
def DeadlinesLive (p : ArincPartition) : Prop :=
  ∀ u, p.DelayedEventActive u .deadline → u < p.nthreadsUsed ∧ (p.threads u).state ≠ .stopped

/-- The lock stays with its holder, who keeps its state, or it is dropped. -/
structure HolderFrame (p q : ArincPartition) : Prop where
  mode : q.mode = p.mode ∨ q.lockLevel = 0
  recheck : p.recheckNeeded = true → q.recheckNeeded = true
  unlocked : p.lockLevel = 0 → q.lockLevel = 0
  holder : 0 < p.lockLevel → p.Unblocked p.threadLocked →
    q.lockLevel = 0 ∧ q.recheckNeeded = true ∨
    q.lockLevel = p.lockLevel ∧ q.threadLocked = p.threadLocked ∧ q.Unblocked q.threadLocked

structure HolderKept (p q : ArincPartition) : Prop extends HolderFrame p q where
  deadlines : p.DeadlinesLive → q.DeadlinesLive

theorem HolderFrame.trans (h : HolderFrame p q) (h' : HolderFrame q r) : HolderFrame p r where
  mode := by
    obtain hmode | hlock := h.mode
    · rw [← hmode]
      exact h'.mode
    · exact .inr (h'.unlocked hlock)
  recheck hr := h'.recheck (h.recheck hr)
  unlocked hl := h'.unlocked (h.unlocked hl)
  holder hl hb := by
    obtain ⟨hlock, hr⟩ | ⟨hlock, hlocked, hblocked⟩ := h.holder hl hb
    · exact .inl ⟨h'.unlocked hlock, h'.recheck hr⟩
    · rw [← hlock, ← hlocked]
      exact h'.holder (hlock ▸ hl) hblocked

theorem HolderKept.refl (p : ArincPartition) : HolderKept p p where
  mode := .inl rfl
  recheck h := h
  unlocked h := h
  holder _ h := .inr ⟨rfl, rfl, h⟩
  deadlines h := h

theorem HolderKept.trans (h : HolderKept p q) (h' : HolderKept q r) : HolderKept p r where
  toHolderFrame := h.toHolderFrame.trans h'.toHolderFrame
  deadlines hd := h'.deadlines (h.deadlines hd)

theorem holderKept_of_same (hmode : q.mode = p.mode)
    (hrecheck : p.recheckNeeded = true → q.recheckNeeded = true) (hlock : q.lockLevel = p.lockLevel)
    (hlocked : q.threadLocked = p.threadLocked) (hused : q.nthreadsUsed = p.nthreadsUsed)
    (hstate : ∀ u, (q.threads u).state = (p.threads u).state)
    (hsuspended : ∀ u, (q.sched u).suspended = (p.sched u).suspended)
    (hdeadline : ∀ u, q.DelayedEventActive u .deadline → p.DelayedEventActive u .deadline) :
    HolderKept p q where
  mode := .inl hmode
  recheck := hrecheck
  unlocked h := hlock.trans h
  holder _ h := by
    refine .inr ⟨hlock, hlocked, ?_⟩
    rw [hlocked]
    exact ⟨(hstate _).trans h.1, (hsuspended _).trans h.2⟩
  deadlines h u hu := by
    rw [hused, hstate]
    exact h u (hdeadline u hu)

theorem holderKept_sections {s : SectionSystem} (hrecheck : p.recheckNeeded = true →
      s.recheckNeeded = true) (hused : s.nthreadsUsed = p.nthreadsUsed)
    (hstate : ∀ u, (s.threads u).state = (p.threads u).state) :
    HolderKept p (p.onSections fun _ => s) :=
  holderKept_of_same rfl hrecheck rfl rfl hused hstate (fun _ => rfl) fun _ h => h

theorem holderKept_updateThread {f : SectionThread → SectionThread}
    (hf : (f (p.threads t)).state = (p.threads t).state) : HolderKept p (p.updateThread t f) := by
  refine holderKept_sections (fun h => h) rfl fun u => ?_
  by_cases hu : u = t
  · subst hu
    simp [SectionSystem.updateThread, hf]
  · simp [SectionSystem.updateThread, Function.update_of_ne hu]

theorem holderKept_updateSched {g : SchedThread → SchedThread}
    (hg : (g (p.sched t)).suspended = (p.sched t).suspended) : HolderKept p (p.updateSched t g) := by
  refine holderKept_of_same rfl (fun h => h) rfl rfl rfl (fun _ => rfl) (fun u => ?_) fun _ h => h
  by_cases hu : u = t
  · subst hu
    simp [hg]
  · simp [Function.update_of_ne hu]

theorem holderKept_localInvalidate : HolderKept p p.localInvalidate :=
  holderKept_of_same rfl (fun _ => rfl) rfl rfl rfl (fun _ => rfl) (fun _ => rfl) fun _ h => h

/-- A thread is moved: the holder of the lock keeps its state, unless the lock is dropped. -/
theorem Moves.holderFrame (h : Moves t p q)
    (hholder : 0 < p.lockLevel → p.threadLocked = t → p.Unblocked t →
      q.lockLevel = 0 ∧ q.recheckNeeded = true ∨ q.Unblocked t) : HolderFrame p q where
  mode := .inl h.mode
  recheck := h.recheck
  unlocked hl := by
    obtain hlock | ⟨hlock, -⟩ := h.lock
    · exact hlock.trans hl
    · exact hlock
  holder hl hb := by
    obtain hlock | ⟨hlock, hr, -⟩ := h.lock
    · by_cases ht : p.threadLocked = t
      · refine (hholder hl ht (ht ▸ hb)).imp_right fun hq => ⟨hlock, h.locked, ?_⟩
        rwa [h.locked, ht]
      · refine .inr ⟨hlock, h.locked, ?_⟩
        rw [h.locked, Unblocked, h.threads _ ht, (h.apart _ ht).sched]
        exact hb
    · exact .inl ⟨hlock, hr⟩

theorem Moves.holderKept (h : Moves t p q)
    (hholder : 0 < p.lockLevel → p.threadLocked = t → p.Unblocked t →
      q.lockLevel = 0 ∧ q.recheckNeeded = true ∨ q.Unblocked t)
    (hdeadline : (p.threads t).state ≠ .stopped → (q.threads t).state = .stopped →
      ¬ q.DelayedEventActive t .deadline) : HolderKept p q where
  toHolderFrame := h.holderFrame hholder
  deadlines hd u hu := by
    obtain ⟨hlt, hstate⟩ := hd u (h.deadline u hu)
    rw [h.used]
    refine ⟨hlt, ?_⟩
    by_cases ht : u = t
    · subst ht
      exact fun hstopped => hdeadline hstate hstopped hu
    · rwa [h.threads u ht]

theorem Moves.holderKept_of_awake (h : Moves t p q)
    (hblocked : 0 < p.lockLevel → p.threadLocked = t → ¬ p.Unblocked t)
    (hstate : (q.threads t).state ≠ .stopped) : HolderKept p q :=
  h.holderKept (fun hl ht hb => absurd hb (hblocked hl ht)) fun _ hstopped => absurd hstopped hstate

theorem Moves.holderKept_of_same (h : Moves t p q)
    (hstate : (q.threads t).state = (p.threads t).state)
    (hsuspended : (q.sched t).suspended = (p.sched t).suspended) : HolderKept p q := by
  refine h.holderKept (fun _ _ hb => .inr ?_) fun halive hstopped => ?_
  · exact ⟨hstate.trans hb.1, hsuspended.trans hb.2⟩
  · exact absurd (hstate.symm.trans hstopped) halive

/-- A function that keeps the holder of the lock, if it comes back. -/
def Holding (p : ArincPartition) (m : Except PartitionExit ArincPartition) : Prop :=
  Sat (fun _ => True) (HolderKept p) m

def HoldingCall (p : ArincPartition) (m : Except PartitionExit (ArincPartition × PokErrno)) :
    Prop :=
  Sat (fun _ => True) (fun r => HolderKept p r.1) m

theorem Holding.after {m : Except PartitionExit ArincPartition} (h : HolderKept p q)
    (hm : Holding q m) : Holding p m :=
  hm.weaken fun _ hr => h.trans hr

theorem Holding.bind {m : Except PartitionExit ArincPartition}
    {f : ArincPartition → Except PartitionExit ArincPartition} (hm : Holding p m)
    (hf : ∀ q, HolderKept p q → Holding q (f q)) : Holding p (m.bind f) :=
  Sat.bind hm fun q hq => Holding.after hq (hf q hq)

theorem Holding.map {m : Except PartitionExit ArincPartition} {f : ArincPartition → ArincPartition}
    (hm : Holding p m) (hf : ∀ q, HolderKept p q → HolderKept q (f q)) : Holding p (m.map f) :=
  Sat.map hm fun q hq => hq.trans (hf q hq)

theorem HoldingCall.returning {errno : PokErrno} {m : Except PartitionExit ArincPartition}
    (hm : Holding p m) : HoldingCall p (returning errno m) :=
  Sat.map hm fun _ hq => hq

theorem holdingCall_same {errno : PokErrno} : HoldingCall p (.ok (p, errno)) := HolderKept.refl p

/-! The functions of `thread_internal.c` -/

theorem threadSetEligible_sched (h : p.threadSetEligible t = .ok q) : q.sched = p.sched := by
  unfold threadSetEligible at h
  split_ifs at h
  obtain rfl := Except.ok.inj h
  simp

theorem threadYield_threads (h : p.threadYield t = .ok q) :
    q.threads = p.threads ∧ q.sched = p.sched := by
  unfold threadYield at h
  split_ifs at h
  · rw [threadSetEligible_threads h, threadSetEligible_sched h]
    simp [threadSetUneligible]
  · obtain rfl := Except.ok.inj h
    exact ⟨rfl, rfl⟩

theorem threadYield_holds : Holding p (p.threadYield t) := by
  apply Sat.of_forall
  intro q hq
  obtain ⟨hthreads, hsched⟩ := threadYield_threads hq
  exact (threadYield_moves hq).holderKept_of_same (by rw [hthreads]) (by rw [hsched])

theorem Moves.dropped (h : Moves t p q) (hp : p.lockLevel = 0 ∧ p.recheckNeeded = true) :
    q.lockLevel = 0 ∧ q.recheckNeeded = true := by
  refine ⟨?_, h.recheck hp.2⟩
  obtain hlock | ⟨hlock, -⟩ := h.lock
  · exact hlock.trans hp.1
  · exact hlock

theorem dropLock_dropped (hlock : p.lockLevel = 0 ∧ p.recheckNeeded = true ∨
      0 < p.lockLevel ∧ p.threadLocked = t) :
    (p.dropLock t).lockLevel = 0 ∧ (p.dropLock t).recheckNeeded = true := by
  obtain hdropped | hheld := hlock
  · exact moves_dropLock.dropped hdropped
  · rw [dropLock, if_pos hheld]
    exact ⟨rfl, rfl⟩

theorem threadStop_drops (hlock : 0 < p.lockLevel) (ht : p.threadLocked = t)
    (h : p.threadStop t = .ok q) : q.lockLevel = 0 ∧ q.recheckNeeded = true := by
  unfold threadStop at h
  split_ifs at h
  obtain rfl := Except.ok.inj h
  have hbefore : Moves t p (((((p.setState t .stopped).threadSetUneligible
      t).threadDelayEventCancel t).delayedEventRemove t .deadline).threadWqRemove t) :=
    (((moves_setState.trans moves_threadSetUneligible).trans moves_delayedEventRemove).trans
      moves_delayedEventRemove).trans moves_threadWqRemove
  refine (moves_dropUnrecoverable.trans moves_leaveEntering).dropped (dropLock_dropped ?_)
  obtain hsame | ⟨hzero, hr, -⟩ := hbefore.lock
  · exact .inr ⟨hsame ▸ hlock, hbefore.locked.trans ht⟩
  · exact .inl ⟨hzero, hr⟩

theorem threadStop_holds : Holding p (p.threadStop t) :=
  Sat.of_forall fun _ hq => (threadStop_moves hq).holderKept
    (fun hlock ht _ => .inl (threadStop_drops hlock ht hq)) fun _ _ => threadStop_inactive hq

theorem not_unblocked_of_state {state : ThreadState} (h : (p.threads t).state = state)
    (hne : state ≠ .runnable) : ¬ p.Unblocked t :=
  fun hb => hne (h.symm.trans hb.1)

theorem threadWakeUp_holds : Holding p (p.threadWakeUp t) := by
  apply Sat.of_forall
  intro q hq
  have hstate : (p.threads t).state = .waiting := by
    unfold threadWakeUp at hq
    split_ifs at hq with hw
    exact hw
  refine (threadWakeUp_moves hq).holderKept_of_awake
    (fun _ _ => not_unblocked_of_state hstate (by decide)) ?_
  rw [threadWakeUp_state hq]
  decide

theorem threadResumeWaited_holds : Holding p (p.threadResumeWaited t) := by
  apply Sat.of_forall
  intro q hq
  have hmoves := threadResumeWaited_moves hq
  unfold threadResumeWaited at hq
  split_ifs at hq with hw
  refine hmoves.holderKept_of_awake (fun _ _ => not_unblocked_of_state hw (by decide)) ?_
  rw [threadSetEligible_threads hq]
  simp [setWaitResult, setState]

theorem setWaitResult_holds {waitResult : WaitResult} :
    HolderKept p (p.setWaitResult t waitResult) := holderKept_updateThread rfl

theorem threadWait_state (h : p.threadWait t = .ok q) : (q.threads t).state = .waiting := by
  unfold threadWait at h
  split_ifs at h
  obtain rfl := Except.ok.inj h
  simp [threadSetUneligible, setState]

theorem threadWaitTimed_state (h : p.threadWaitTimed t time = .ok q) :
    (q.threads t).state = .waiting := by
  unfold threadWaitTimed at h
  split_ifs at h
  cases hw : p.threadWait t with
  | error exit =>
    rw [hw] at h
    cases h
  | ok r =>
    rw [hw] at h
    obtain rfl := Except.ok.inj h
    have hstate := threadWait_state hw
    exact hstate

theorem threadWaitCommon_state {duration now : Int} (h : p.threadWaitCommon t duration now = .ok q) :
    (q.threads t).state = .waiting := by
  unfold threadWaitCommon at h
  split_ifs at h
  · exact threadWait_state h
  · exact threadWaitTimed_state h

theorem threadWaitCommon_holds {duration now : Int} (hlock : p.lockLevel = 0) :
    Holding p (p.threadWaitCommon t duration now) := by
  apply Sat.of_forall
  intro q hq
  refine (threadWaitCommon_moves hq).holderKept_of_awake (fun hpos => by omega) ?_
  rw [threadWaitCommon_state hq]
  decide

theorem threadSuspend_holds (hnot : 0 < p.lockLevel → p.threadLocked ≠ t) :
    HolderKept p (p.threadSuspend t) := by
  refine threadSuspend_moves.holderKept (fun hl ht => absurd ht (hnot hl)) fun halive hstopped => ?_
  have hstate : ((p.threadSuspend t).threads t).state = (p.threads t).state := by
    simp [threadSuspend, threadSetUneligible, setSuspended, updateSched]
  exact absurd (hstate.symm.trans hstopped) halive

theorem threadSuspendTimed_holds {now : Int} (hlock : p.lockLevel = 0) :
    Holding p (p.threadSuspendTimed t time now) := by
  apply Sat.of_forall
  intro q hq
  refine (threadSuspendTimed_moves hq).holderKept_of_awake (fun hpos => by omega) ?_
  unfold threadSuspendTimed at hq
  cases hw : ((p.setSuspended t true).threadSetUneligible t).threadWait t with
  | error exit =>
    rw [hw] at hq
    cases hq
  | ok r =>
    rw [hw] at hq
    obtain rfl := Except.ok.inj hq
    have hstate := threadWait_state hw
    simp [threadDelayEvent, delayedEventAdd, updateSched, hstate]

theorem threadResume_holds (hsuspended : (p.sched t).suspended = true)
    (hstate : (p.threads t).state ≠ .stopped) : Holding p (p.threadResume t) := by
  apply Sat.of_forall
  intro q hq
  refine (threadResume_moves hq).holderKept_of_awake (fun _ _ hb => ?_) ?_
  · rw [hb.2] at hsuspended
    cases hsuspended
  · unfold threadResume at hq
    dsimp only at hq
    split_ifs at hq with hwaits hruns hruns
    · rw [threadSetEligible_threads hq]
      simp [setWaitResult, setState, threadDelayEventCancel, delayedEventRemove, setSuspended]
    · obtain rfl := Except.ok.inj hq
      simp [setWaitResult, setState, threadDelayEventCancel, delayedEventRemove]
    · rw [threadSetEligible_threads hq]
      exact hstate
    · obtain rfl := Except.ok.inj hq
      exact hstate

theorem threadSetDeadline_frame : HolderFrame p (p.threadSetDeadline t time) where
  mode := .inl rfl
  recheck h := h
  unlocked h := h
  holder _ h := .inr ⟨rfl, rfl, h⟩

theorem threadSetDeadline_holds (hlt : t < p.nthreadsUsed) (hstate : (p.threads t).state ≠ .stopped) :
    HolderKept p (p.threadSetDeadline t time) where
  toHolderFrame := threadSetDeadline_frame
  deadlines h u hu := by
    obtain ⟨rfl, -⟩ | hp := active_delayedEventAdd.mp hu
    · exact ⟨hlt, hstate⟩
    · exact h u hp

theorem delayedEventRemove_holds {kind : DelayedKind} : HolderKept p (p.delayedEventRemove t kind) :=
  holderKept_of_same rfl (fun h => h) rfl rfl rfl (fun _ => rfl) (fun _ => rfl)
    fun _ h => (active_delayedEventRemove.mp h).1

/-! Errors -/

theorem threadAddErrorBit_holds {bit : ErrorBit} : Holding p (p.threadAddErrorBit t bit) := by
  refine Sat.ite (fun _ => trivial) fun _ => Sat.ite (fun _ => ?_) fun _ => ?_
  · exact holderKept_of_same rfl (fun h => h) rfl rfl rfl (fun _ => rfl) (fun _ => rfl) fun _ h => h
  · exact holderKept_of_same rfl (fun _ => rfl) rfl rfl rfl (fun _ => rfl) (fun _ => rfl) fun _ h => h

theorem threadClearErrorBit_holds {bit : ErrorBit} : Holding p (p.threadClearErrorBit t bit) := by
  refine Sat.ite (fun _ => Sat.ite (fun _ => ?_) fun _ => ?_) fun _ => trivial
  · exact holderKept_of_same rfl (fun h => h) rfl rfl rfl (fun _ => rfl) (fun _ => rfl) fun _ h => h
  · exact holderKept_of_same rfl (fun h => h) rfl rfl rfl (fun _ => rfl) (fun _ => rfl) fun _ h => h

theorem threadSetUnrecoverable_holds : HolderKept p (p.threadSetUnrecoverable t) := by
  unfold threadSetUnrecoverable
  split_ifs
  · exact HolderKept.refl p
  · exact holderKept_of_same rfl (fun h => h) rfl rfl rfl (fun _ => rfl) (fun _ => rfl) fun _ h => h

theorem threadEmitSyncError_holds {errorId : ErrorId} {failedAddr : Nat} :
    Holding p (p.threadEmitSyncError t errorId failedAddr) := by
  have hset : HolderKept p { p with syncError := errorId, syncErrorFailedAddr := failedAddr } :=
    holderKept_of_same rfl (fun h => h) rfl rfl rfl (fun _ => rfl) (fun _ => rfl) fun _ h => h
  exact Holding.after hset threadAddErrorBit_holds

theorem processError_holds {errorId : ErrorId} {failedAddr : Nat} :
    Holding p (p.processError hm c errorId failedAddr) := by
  apply Sat.bind_of_forall
  intro processed
  exact Sat.ite (fun _ => HolderKept.refl p) fun _ => Sat.ite (fun _ => trivial) fun _ =>
    threadEmitSyncError_holds

theorem emitDeadlineMissed_holds : Holding p (p.emitDeadlineMissed hm t) := by
  apply Sat.bind_of_forall
  intro processed
  exact Sat.ite (fun _ => HolderKept.refl p) fun _ => threadAddErrorBit_holds

theorem emitDeadlineOor_holds : Holding p (p.emitDeadlineOor hm t) := by
  apply Sat.bind_of_forall
  intro processed
  exact Sat.ite (fun _ => threadSetUnrecoverable_holds) fun _ =>
    Holding.after threadSetUnrecoverable_holds threadAddErrorBit_holds

/-! Events -/

theorem processEvent_holds {event : DelayedEvent} : Holding p (processEvent hm p event) := by
  unfold processEvent
  split
  · exact emitDeadlineMissed_holds
  · split
    · exact threadWakeUp_holds
    · exact threadResumeWaited_holds

theorem delayedEventQueueCheck_holds {now : Int} {n : Nat} :
    Holding p (delayedEventQueueCheck hm now n p) := by
  induction n generalizing p with
  | zero => exact HolderKept.refl p
  | succ n ih =>
    rw [delayedEventQueueCheck]
    split
    · exact HolderKept.refl p
    · rename_i event rest hevents
      refine Sat.ite (fun _ => HolderKept.refl p) fun _ => ?_
      have hdropped : HolderKept p { p with delayedEvents := rest } := by
        refine holderKept_of_same rfl (fun h => h) rfl rfl rfl (fun _ => rfl) (fun _ => rfl) ?_
        rintro u ⟨e, he, hu⟩
        exact ⟨e, by simp [hevents, show e ∈ rest from he], hu⟩
      exact Holding.after hdropped (Holding.bind processEvent_holds fun _ _ => ih)

theorem threadWqRemove_holds : HolderKept p (p.threadWqRemove t) := by
  refine moves_threadWqRemove.holderKept_of_same (by simp) ?_
  rw [threadWqRemove_sched, Function.update_self]

theorem portQueuingFired_holds {port served : Nat} :
    Holding p (portQueuingFired port served p) := by
  induction served generalizing p with
  | zero => exact HolderKept.refl p
  | succ served ih =>
    rw [portQueuingFired]
    split
    · exact HolderKept.refl p
    · apply Holding.bind (Holding.after threadWqRemove_holds threadWakeUp_holds)
      intro q _
      exact Holding.after setWaitResult_holds ih

theorem drain_holds {events : List DrainedEvent} : Holding p (drain hm events p) := by
  induction events generalizing p with
  | nil => exact HolderKept.refl p
  | cons event events ih =>
    have hevent : Holding p (p.processDrained hm event) := by
      cases event with
      | timer => exact delayedEventQueueCheck_holds
      | port => exact portQueuingFired_holds
    exact hevent.bind fun _ _ => ih

end ArincPartition

end Chpok
