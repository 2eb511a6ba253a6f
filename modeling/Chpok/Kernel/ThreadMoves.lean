import Chpok.Kernel.EligibleThreads
import Chpok.Kernel.ArincSched

/-! The functions of `kernel/core/thread_internal.c` move one thread, keep the lists of the
partition, and do not fail where their callers use them. -/

namespace Chpok

namespace ArincPartition

open Outcome

variable {p q : ArincPartition} {t u : Nat} {time duration now : Int}

theorem notMem_of_not_eligible (h : SoundBut none p) (ht : ¬ p.Eligible t) :
    t ∉ p.eligibleThreads :=
  fun hmem => ht ((h.eligible t (by simp)).mp hmem)

theorem Waits.not_eligible (h : p.Waits t) : ¬ p.Eligible t := by
  intro he
  have := he.2.2.1.symm.trans h.2.2
  cases this

theorem not_active_cancel : ¬ (p.threadDelayEventCancel t).DelayedEventActive t .delayed := by
  intro h
  exact (active_delayedEventRemove.mp h).2 ⟨rfl, rfl⟩

/-! `thread_set_eligible`, after which the thread is settled. -/

theorem threadSetEligible_sound (h : SoundBut (some t) p) (ht : t ∉ p.eligibleThreads)
    (he : p.Eligible t) (hkept : Kept t p) :
    ∃ q, p.threadSetEligible t = .ok q ∧ Moves t p q ∧ SoundBut none q := by
  obtain ⟨q, hq⟩ : ∃ q, p.threadSetEligible t = .ok q :=
    ⟨_, by rw [threadSetEligible, if_pos ⟨he.1, ht⟩]⟩
  have hmoves := moves_threadSetEligible hq
  refine ⟨q, hq, hmoves, (hmoves.sound h).settle ?_ ?_ ?_⟩
  all_goals
    rw [threadSetEligible, if_pos ⟨he.1, ht⟩, invalidateIfFirst_eq] at hq
    obtain rfl := Except.ok.inj hq
  · exact iff_of_true ((List.mem_orderedInsert _).mpr (Or.inl rfl)) he
  · exact pairwise_insertByPriority (h.pairwise_of_notMem ht) ht h.arrived
  · exact ⟨hkept.delayed, hkept.resumes, hkept.linked, hkept.donated, hkept.waiting⟩

theorem setEligibleUnlessSuspended_moves (h : p.setEligibleUnlessSuspended t = .ok q) :
    Moves t p q := by
  unfold setEligibleUnlessSuspended at h
  split_ifs at h
  · obtain rfl := Except.ok.inj h
    exact Moves.refl t p
  · exact moves_threadSetEligible h

theorem setEligibleUnlessSuspended_sound (h : SoundBut (some t) p) (ht : t ∉ p.eligibleThreads)
    (hmode : p.mode = .normal) (hthread : p.HasThread t)
    (hstate : (p.threads t).state = .runnable) (hkept : Kept t p) :
    ∃ q, p.setEligibleUnlessSuspended t = .ok q ∧ Moves t p q ∧ SoundBut none q := by
  unfold setEligibleUnlessSuspended
  by_cases hs : (p.sched t).suspended = true
  · rw [if_pos hs]
    refine ⟨p, rfl, Moves.refl t p, h.settle (iff_of_false ht ?_) (h.pairwise_of_notMem ht) hkept⟩
    intro he
    rw [he.2.2.2] at hs
    cases hs
  · rw [if_neg hs]
    exact threadSetEligible_sound h ht ⟨hmode, hthread, hstate, by simpa using hs⟩ hkept

/-! `thread_stop` -/

theorem threadStop_moves (h : p.threadStop t = .ok q) : Moves t p q := by
  unfold threadStop at h
  split_ifs at h
  obtain rfl := Except.ok.inj h
  exact ((((((moves_setState.trans moves_threadSetUneligible).trans
    moves_delayedEventRemove).trans moves_delayedEventRemove).trans moves_threadWqRemove).trans
      moves_dropLock).trans moves_dropUnrecoverable).trans moves_leaveEntering

theorem threadStop_inactive {kind : DelayedKind} (h : p.threadStop t = .ok q) :
    ¬ q.DelayedEventActive t kind := by
  unfold threadStop at h
  split_ifs at h
  have hevents : q.delayedEvents =
      ((p.delayedEventRemove t .delayed).delayedEventRemove t .deadline).delayedEvents := by
    simp [← Except.ok.inj h, updateThread, onSections, delayedEventRemove, threadSetUneligible,
      threadDelayEventCancel, setState]
  intro hactive
  have hkept : ((p.delayedEventRemove t .delayed).delayedEventRemove t
      .deadline).DelayedEventActive t kind := by
    simpa only [DelayedEventActive, hevents] using hactive
  rw [active_delayedEventRemove, active_delayedEventRemove] at hkept
  cases kind
  · exact hkept.1.2 ⟨rfl, rfl⟩
  · exact hkept.2 ⟨rfl, rfl⟩

theorem threadStop_sound (h : SoundBut (some t) p) (hstate : (p.threads t).state ≠ .stopped)
    (hdonated : (p.threads t).firstDonator = none) :
    ∃ q, p.threadStop t = .ok q ∧ Moves t p q ∧ SoundBut none q ∧
      (q.threads t).state = .stopped ∧ ¬ q.DelayedEventActive t .deadline := by
  obtain ⟨q, hq⟩ : ∃ q, p.threadStop t = .ok q := ⟨_, by rw [threadStop, if_neg hstate]⟩
  have hmoves := threadStop_moves hq
  have hdonator := hmoves.firstDonator.trans hdonated
  have hinactive : ∀ kind, ¬ q.DelayedEventActive t kind := fun _ => threadStop_inactive hq
  rw [threadStop, if_neg hstate] at hq
  have hq' := Except.ok.inj hq
  have hstopped : (q.threads t).state = .stopped := by
    simp [← hq', delayedEventRemove, threadSetUneligible, threadDelayEventCancel, setState]
  have hout : q.eligibleThreads = p.eligibleThreads.erase t := by
    simp [← hq', updateThread, onSections, delayedEventRemove, threadSetUneligible,
      threadDelayEventCancel, setState]
  have hfree : (q.sched t).waitElem = none := by
    simp [← hq', updateThread, onSections]
  refine ⟨q, by rw [threadStop, if_neg hstate, hq'], hmoves, ?_, hstopped, hinactive _⟩
  have hnotMem : t ∉ q.eligibleThreads := hout ▸ h.nodup.not_mem_erase
  apply (hmoves.sound h).settle (iff_of_false hnotMem ?_)
    ((hmoves.sound h).pairwise_of_notMem hnotMem)
  · exact {
      delayed := fun hd => absurd hd (hinactive _)
      resumes := fun _ _ => hfree
      linked := fun _ hl => absurd hfree hl
      donated := fun _ hf => absurd hdonator hf
      waiting := by simp [hstopped] }
  · intro he
    rw [he.2.2.1] at hstopped
    cases hstopped

/-! `thread_wait` and the functions over it -/

theorem threadWait_moves (h : p.threadWait t = .ok q) : Moves t p q := by
  unfold threadWait at h
  split_ifs at h
  obtain rfl := Except.ok.inj h
  exact moves_setState.trans moves_threadSetUneligible

theorem SoundBut.settle_waits (h : SoundBut (some t) p) (ht : t ∉ p.eligibleThreads)
    (hw : p.Waits t)
    (hresumes : p.DelayedEventActive t .delayed → (p.sched t).delayedFunc = .resumeWaited →
      (p.sched t).waitElem = none) : SoundBut none p := by
  apply h.settle (iff_of_false ht hw.not_eligible) (h.pairwise_of_notMem ht)
  exact {
    delayed := fun _ => hw
    resumes := hresumes
    linked := fun _ _ => hw
    donated := fun _ _ => ⟨hw.2.1, by rw [hw.2.2]; simp⟩
    waiting := fun _ _ => hw.2.1 }

theorem threadWait_waits (h : SoundBut (some t) p) (hmode : p.mode = .normal)
    (hthread : p.HasThread t) :
    ∃ q, p.threadWait t = .ok q ∧ Moves t p q ∧ q.Waits t ∧ t ∉ q.eligibleThreads ∧
      q.delayedEvents = p.delayedEvents ∧ q.sched = p.sched := by
  obtain ⟨q, hq⟩ : ∃ q, p.threadWait t = .ok q := ⟨_, by rw [threadWait, if_pos hmode]⟩
  have hmoves := threadWait_moves hq
  have hq' := hq
  rw [threadWait, if_pos hmode] at hq'
  obtain rfl := Except.ok.inj hq'
  refine ⟨_, hq, hmoves, ⟨hmoves.mode.trans hmode, hmoves.hasThread.mpr hthread, ?_⟩, ?_, ?_, ?_⟩
  · simp [threadSetUneligible, setState]
  · exact notMem_threadSetUneligible h.nodup
  · simp [threadSetUneligible, setState, updateThread, onSections]
  · simp [threadSetUneligible, setState, updateThread, onSections]

theorem threadWait_sound (h : SoundBut (some t) p) (hmode : p.mode = .normal)
    (hthread : p.HasThread t) (hinactive : ¬ p.DelayedEventActive t .delayed) :
    ∃ q, p.threadWait t = .ok q ∧ Moves t p q ∧ SoundBut none q := by
  obtain ⟨q, hq, hmoves, hw, hout, hevents, -⟩ := threadWait_waits h hmode hthread
  refine ⟨q, hq, hmoves, (hmoves.sound h).settle_waits hout hw ?_⟩
  intro hd
  exact absurd (by simpa only [DelayedEventActive, hevents] using hd) hinactive

theorem threadDelayEvent_sound {delayedFunc : DelayedFunc} (h : SoundBut (some t) p)
    (hout : t ∉ p.eligibleThreads) (hw : p.Waits t)
    (hresumes : delayedFunc = .resumeWaited → (p.sched t).waitElem = none) :
    SoundBut none (p.threadDelayEvent t time delayedFunc) := by
  apply (moves_threadDelayEvent.sound h).settle_waits
  · exact hout
  · exact hw
  · intro _ hf
    simp only [threadDelayEvent, delayedEventAdd, updateSched_sched, Function.update_self] at hf ⊢
    exact hresumes hf

theorem threadWaitTimed_moves (h : p.threadWaitTimed t time = .ok q) : Moves t p q := by
  unfold threadWaitTimed at h
  split_ifs at h
  cases hw : p.threadWait t with
  | error e =>
    rw [hw] at h
    cases h
  | ok r =>
    rw [hw] at h
    obtain rfl := Except.ok.inj h
    exact (threadWait_moves hw).trans moves_threadDelayEvent

theorem threadWaitTimed_sound (time : Int) (h : SoundBut (some t) p) (hmode : p.mode = .normal)
    (hthread : p.HasThread t) :
    p.threadWaitTimed t time = .error (.failed .threadWaitTimed) ∨
      ∃ q, p.threadWaitTimed t time = .ok q ∧ Moves t p q ∧ SoundBut none q := by
  by_cases hinf : timeIsInfinity time = true
  · exact Or.inl (by rw [threadWaitTimed, if_pos hinf])
  · right
    obtain ⟨q, hq, hmoves, hw, hout, -, -⟩ := threadWait_waits h hmode hthread
    refine ⟨q.threadDelayEvent t time .wakeUp, ?_, hmoves.trans moves_threadDelayEvent, ?_⟩
    · rw [threadWaitTimed, if_neg hinf, hq]
      rfl
    · exact threadDelayEvent_sound (hmoves.sound h) hout hw (by simp)

theorem threadWaitCommon_moves (h : p.threadWaitCommon t duration now = .ok q) : Moves t p q := by
  unfold threadWaitCommon at h
  split_ifs at h
  · exact threadWait_moves h
  · exact threadWaitTimed_moves h

/-- A thread that is not linked is linked to a port. -/
theorem moves_setWaiters {port : Nat} {l : List Nat} (hlt : t < p.nthreadsUsed)
    (hlink : (p.sched t).waitElem = none) (hmem : ∀ u, u ∈ l ↔ u = t ∨ u ∈ p.waiters port)
    (hnodup : t ∉ p.waiters port → (p.waiters port).Nodup → l.Nodup) :
    Moves t p (p.setWaiters port t l) where
  __ := Moves.refl t p
  times := updateSched_times (g := fun th => { th with waitElem := some port }) rfl
  apart u hu := by
    refine ⟨rfl, ?_, fun _ _ => Iff.rfl⟩
    rw [setWaiters, updateSched_sched, Function.update_of_ne hu]
  sound hs := {
    hs with
    eligible := by
      intro u hu
      have hut : u ≠ t := by simpa using hu
      have hsame : (p.setWaiters port t l).Eligible u ↔ p.Eligible u := by
        apply eligible_congr
        · rfl
        · rfl
        · rfl
        · simp only [setWaiters, updateSched_sched, Function.update_of_ne hut]
      exact (hs.eligible u hu).trans hsame.symm
    order := by
      apply hs.order.imp_of_mem
      intro a b ha hb hab
      have hat : a ≠ t := by simpa using (List.mem_filter.mp ha).2
      have hbt : b ≠ t := by simpa using (List.mem_filter.mp hb).2
      simp only [Precedes, setWaiters, updateSched_sched, Function.update_of_ne hat,
        Function.update_of_ne hbt]
      exact hab
    resumes := by
      intro u hu
      have hut : u ≠ t := by simpa using hu
      simp only [setWaiters, updateSched_sched, Function.update_of_ne hut]
      exact hs.resumes u hu
    linked := by
      intro u hu
      have hut : u ≠ t := by simpa using hu
      simp only [setWaiters, updateSched_sched, Function.update_of_ne hut]
      exact hs.linked u hu
    waiters := by
      intro port' u
      simp only [setWaiters, updateSched_sched]
      by_cases hport : port' = port
      · subst hport
        rw [Function.update_self, hmem, hs.waiters]
        by_cases hut : u = t
        · subst hut
          rw [Function.update_self]
          exact iff_of_true (Or.inl rfl) ⟨hlt, rfl⟩
        · rw [Function.update_of_ne hut, or_iff_right hut]
          rfl
      · rw [Function.update_of_ne hport, hs.waiters]
        by_cases hut : u = t
        · subst hut
          simp [hlink, Ne.symm hport]
        · rw [Function.update_of_ne hut]
          rfl
    waitersNodup := by
      intro port'
      by_cases hport : port' = port
      · subst hport
        simp only [setWaiters, Function.update_self]
        apply hnodup _ (hs.waitersNodup port')
        intro ht
        rw [((hs.waiters port' t).mp ht).2] at hlink
        cases hlink
      · simpa only [setWaiters, Function.update_of_ne hport] using hs.waitersNodup port' }

theorem moves_threadWqAddCommon {port : Nat} {byPriority : Bool} (hlt : t < p.nthreadsUsed)
    (h : p.threadWqAddCommon port t byPriority = .ok q) :
    Moves t p q ∧ q.delayedEvents = p.delayedEvents := by
  unfold threadWqAddCommon at h
  by_cases hlink : (p.sched t).waitElem = none
  · rw [if_neg (not_not.mpr hlink)] at h
    obtain rfl := Except.ok.inj h
    cases byPriority with
    | false =>
      refine ⟨moves_setWaiters hlt hlink ?_ ?_, rfl⟩
      · intro u
        rw [List.mem_append, List.mem_singleton, or_comm]
      · intro ht hnodup
        rw [List.nodup_append]
        refine ⟨hnodup, by simp, ?_⟩
        intro a ha b hb hab
        rw [List.mem_singleton] at hb
        exact ht (hb ▸ hab ▸ ha)
    | true =>
      refine ⟨(moves_updateSched (g := fun th => { th with waitPriority := th.priority })
        rfl rfl).trans (moves_setWaiters hlt ?_ ?_ ?_), rfl⟩
      · simpa only [updateSched_sched, Function.update_self] using hlink
      · exact fun u => List.mem_orderedInsert _
      · exact fun ht hnodup => PriorityInsert.nodup hnodup ht
  · rw [if_pos hlink] at h
    cases h

/-! `thread_wake_up` -/

theorem threadWakeUp_moves (h : p.threadWakeUp t = .ok q) : Moves t p q := by
  unfold threadWakeUp at h
  split_ifs at h
  exact ((moves_setState.trans moves_delayedEventRemove).trans moves_cancelWait).trans
    (setEligibleUnlessSuspended_moves h)

@[simp]
theorem cancelWait_waitElem : ((p.cancelWait t).sched t).waitElem = none := by
  unfold cancelWait
  split_ifs with hw he
  · simp [setWaitResult, updateThread, onSections]
  · simpa [setWaitResult, updateThread, onSections] using hw
  · simpa using hw

@[simp]
theorem cancelWait_eligibleThreads : (p.cancelWait t).eligibleThreads = p.eligibleThreads := by
  unfold cancelWait
  split_ifs <;> simp [setWaitResult, updateThread, onSections]

@[simp]
theorem cancelWait_delayedEvents : (p.cancelWait t).delayedEvents = p.delayedEvents := by
  unfold cancelWait
  split_ifs <;> simp [setWaitResult, updateThread, onSections]

@[simp]
theorem cancelWait_state : ((p.cancelWait t).threads t).state = (p.threads t).state := by
  unfold cancelWait
  split_ifs <;> simp [setWaitResult]

theorem threadWakeUp_sound (h : SoundBut (some t) p) (hout : t ∉ p.eligibleThreads)
    (hw : p.Waits t) :
    ∃ q, p.threadWakeUp t = .ok q ∧ Moves t p q ∧ SoundBut none q := by
  have hmoves : Moves t p (((p.setState t .runnable).threadDelayEventCancel t).cancelWait t) :=
    (moves_setState.trans moves_delayedEventRemove).trans moves_cancelWait
  have hstate : ((((p.setState t .runnable).threadDelayEventCancel t).cancelWait t).threads
      t).state = .runnable := by
    simp [threadDelayEventCancel, delayedEventRemove, setState]
  have hthread := hmoves.hasThread.mpr hw.2.1
  have hinactive : ¬ (((p.setState t .runnable).threadDelayEventCancel t).cancelWait
      t).DelayedEventActive t .delayed := by
    intro hd
    apply not_active_cancel (p := p.setState t .runnable) (t := t)
    simpa only [DelayedEventActive, cancelWait_delayedEvents] using hd
  obtain ⟨q, hq, hrest, hsound⟩ := setEligibleUnlessSuspended_sound (hmoves.sound h)
    (by simpa [threadDelayEventCancel, delayedEventRemove, setState, updateThread,
      onSections] using hout) (hmoves.mode.trans hw.1) hthread hstate {
        delayed := fun hd => absurd hd hinactive
        resumes := fun hd => absurd hd hinactive
        linked := fun _ hl => absurd cancelWait_waitElem hl
        donated := fun _ _ => ⟨hthread, by rw [hstate]; simp⟩
        waiting := fun _ _ => hthread }
  exact ⟨q, by rw [threadWakeUp, if_pos hw.2.2, hq], hmoves.trans hrest, hsound⟩

theorem setEligibleUnlessSuspended_threads (h : p.setEligibleUnlessSuspended t = .ok q) :
    q.threads = p.threads := by
  unfold setEligibleUnlessSuspended threadSetEligible at h
  split_ifs at h
  · obtain rfl := Except.ok.inj h
    rfl
  · obtain rfl := Except.ok.inj h
    simp

theorem threadWakeUp_state (h : p.threadWakeUp t = .ok q) : (q.threads t).state = .runnable := by
  unfold threadWakeUp at h
  split_ifs at h
  rw [setEligibleUnlessSuspended_threads h]
  simp [threadDelayEventCancel, delayedEventRemove, setState]

/-! `thread_start` -/

theorem threadStart_moves (h : p.threadStart t = .ok q) : Moves t p q :=
  moves_setState.trans (setEligibleUnlessSuspended_moves h)

theorem threadStart_sound (h : SoundBut (some t) p) (hout : t ∉ p.eligibleThreads)
    (hmode : p.mode = .normal) (hthread : p.HasThread t)
    (hinactive : ¬ p.DelayedEventActive t .delayed) (hfree : (p.sched t).waitElem = none) :
    ∃ q, p.threadStart t = .ok q ∧ Moves t p q ∧ SoundBut none q := by
  have hmoves : Moves t p (p.setState t .runnable) := moves_setState
  have hstate : ((p.setState t .runnable).threads t).state = .runnable := by simp [setState]
  obtain ⟨q, hq, hrest, hsound⟩ := setEligibleUnlessSuspended_sound (hmoves.sound h) hout hmode
    hthread hstate {
      delayed := fun hd => absurd hd hinactive
      resumes := fun _ _ => hfree
      linked := fun _ hl => absurd hfree hl
      donated := fun _ _ => ⟨hthread, by rw [hstate]; simp⟩
      waiting := fun _ _ => hthread }
  exact ⟨q, hq, hmoves.trans hrest, hsound⟩

/-! Suspension -/

theorem threadSuspend_moves : Moves t p (p.threadSuspend t) :=
  (moves_updateSched rfl rfl).trans moves_threadSetUneligible

theorem threadSuspend_sound (h : SoundBut none p) : SoundBut none (p.threadSuspend t) := by
  have hmoves : Moves t p (p.threadSuspend t) := threadSuspend_moves
  have hout : t ∉ (p.threadSuspend t).eligibleThreads := notMem_threadSetUneligible h.nodup
  apply (hmoves.sound (h.except t)).settle (iff_of_false hout ?_)
    ((hmoves.sound (h.except t)).pairwise_of_notMem hout)
  · have hkept := h.kept t
    have hsched : ((p.threadSuspend t).sched t).waitElem = (p.sched t).waitElem := by
      simp [threadSuspend, threadSetUneligible, setSuspended]
    have hfunc : ((p.threadSuspend t).sched t).delayedFunc = (p.sched t).delayedFunc := by
      simp [threadSuspend, threadSetUneligible, setSuspended]
    have hthreads : (p.threadSuspend t).threads = p.threads := by
      simp [threadSuspend, threadSetUneligible, setSuspended, updateSched]
    have hevents : (p.threadSuspend t).delayedEvents = p.delayedEvents := by
      simp [threadSuspend, threadSetUneligible, setSuspended, updateSched]
    have hwaits : (p.threadSuspend t).Waits t ↔ p.Waits t := by
      simp only [Waits, hmoves.mode, hmoves.hasThread, hthreads]
    have hactive : (p.threadSuspend t).DelayedEventActive t .delayed ↔
        p.DelayedEventActive t .delayed := by
      simp only [DelayedEventActive, hevents]
    exact {
      delayed := fun hd => hwaits.mpr (hkept.delayed (hactive.mp hd))
      resumes := fun hd hf => hsched.trans (hkept.resumes (hactive.mp hd) (hfunc.symm.trans hf))
      linked := fun hlt hl => hwaits.mpr (hkept.linked (hmoves.used ▸ hlt) (hsched ▸ hl))
      donated := by
        intro hlt hf
        rw [hthreads] at hf ⊢
        rw [hmoves.hasThread]
        exact hkept.donated (hmoves.used ▸ hlt) hf
      waiting := by
        rw [hthreads, hmoves.used, hmoves.hasThread]
        exact hkept.waiting }
  · intro he
    have hs := he.2.2.2
    simp [threadSuspend, threadSetUneligible, setSuspended] at hs

theorem threadSuspendTimed_moves (h : p.threadSuspendTimed t time now = .ok q) : Moves t p q := by
  unfold threadSuspendTimed at h
  cases hw : ((p.setSuspended t true).threadSetUneligible t).threadWait t with
  | error e =>
    rw [hw] at h
    cases h
  | ok r =>
    rw [hw] at h
    obtain rfl := Except.ok.inj h
    exact (((moves_updateSched rfl rfl).trans moves_threadSetUneligible).trans
      (threadWait_moves hw)).trans moves_threadDelayEvent

theorem threadSuspendTimed_sound (h : SoundBut none p) (hmode : p.mode = .normal)
    (hthread : p.HasThread t) (hfree : (p.sched t).waitElem = none) :
    ∃ q, p.threadSuspendTimed t time now = .ok q ∧ Moves t p q ∧ SoundBut none q := by
  have hmoves : Moves t p ((p.setSuspended t true).threadSetUneligible t) :=
    (moves_updateSched rfl rfl).trans moves_threadSetUneligible
  obtain ⟨q, hq, hrest, hw, hout, -, hsched⟩ := threadWait_waits (hmoves.sound (h.except t))
    (hmoves.mode.trans hmode) (hmoves.hasThread.mpr hthread)
  refine ⟨q.threadDelayEvent t (SignedWord.add now time) .resumeWaited, ?_,
    (hmoves.trans hrest).trans moves_threadDelayEvent, ?_⟩
  · rw [threadSuspendTimed, hq]
    rfl
  · apply threadDelayEvent_sound (hrest.sound (hmoves.sound (h.except t))) hout hw
    intro _
    rw [hsched]
    simpa [threadSetUneligible, setSuspended] using hfree

/-! The ends of a suspension -/

theorem threadResumeWaited_moves (h : p.threadResumeWaited t = .ok q) : Moves t p q := by
  unfold threadResumeWaited at h
  split_ifs at h
  exact (((moves_updateSched rfl rfl).trans moves_setState).trans moves_setWaitResult).trans
    (moves_threadSetEligible h)

theorem threadResumeWaited_sound (h : SoundBut none p) (hw : p.Waits t)
    (hinactive : ¬ p.DelayedEventActive t .delayed) (hfree : (p.sched t).waitElem = none) :
    ∃ q, p.threadResumeWaited t = .ok q ∧ Moves t p q ∧ SoundBut none q := by
  have hmoves : Moves t p (((p.setSuspended t false).setState t .runnable).setWaitResult t
      .timeout) := ((moves_updateSched rfl rfl).trans moves_setState).trans moves_setWaitResult
  have hthread := hmoves.hasThread.mpr hw.2.1
  have hstate : ((((p.setSuspended t false).setState t .runnable).setWaitResult t
      .timeout).threads t).state = .runnable := by simp [setWaitResult, setState]
  have hlink : ((((p.setSuspended t false).setState t .runnable).setWaitResult t
      .timeout).sched t).waitElem = none := by
    simpa [setWaitResult, setState, setSuspended, updateThread, onSections] using hfree
  have hout : t ∉ p.eligibleThreads := notMem_of_not_eligible h hw.not_eligible
  obtain ⟨q, hq, hrest, hsound⟩ := threadSetEligible_sound (hmoves.sound (h.except t)) hout
    ⟨hmoves.mode.trans hw.1, hthread, hstate, by
      simp [setWaitResult, setState, setSuspended, updateThread, onSections]⟩ {
        delayed := fun hd => absurd hd hinactive
        resumes := fun _ _ => hlink
        linked := fun _ hl => absurd hlink hl
        donated := fun _ _ => ⟨hthread, by rw [hstate]; simp⟩
        waiting := fun _ _ => hthread }
  exact ⟨q, by rw [threadResumeWaited, if_pos hw.2.2, hq], hmoves.trans hrest, hsound⟩

theorem threadResume_moves (h : p.threadResume t = .ok q) : Moves t p q := by
  have hresumed : Moves t p (if p.DelayedEventActive t .delayed ∧
      (p.sched t).delayedFunc = .resumeWaited then
        (((p.setSuspended t false).setState t .runnable).threadDelayEventCancel t).setWaitResult t .ok
      else p.setSuspended t false) := by
    split_ifs
    · exact (((moves_updateSched rfl rfl).trans moves_setState).trans
        moves_delayedEventRemove).trans moves_setWaitResult
    · exact moves_updateSched rfl rfl
  unfold threadResume at h
  dsimp only at h
  by_cases hstate : ((if p.DelayedEventActive t .delayed ∧
      (p.sched t).delayedFunc = .resumeWaited then
        (((p.setSuspended t false).setState t .runnable).threadDelayEventCancel t).setWaitResult t .ok
      else p.setSuspended t false).threads t).state = .runnable
  · rw [if_pos hstate] at h
    exact hresumed.trans (moves_threadSetEligible h)
  · rw [if_neg hstate] at h
    obtain rfl := Except.ok.inj h
    exact hresumed

/-- A suspended thread that has been started is resumed. -/
theorem threadResume_sound (h : SoundBut none p) (hthread : p.HasThread t)
    (hs : (p.sched t).suspended = true)
    (hinit : p.mode ≠ .normal → (p.threads t).state ≠ .runnable) :
    ∃ q, p.threadResume t = .ok q ∧ Moves t p q ∧ SoundBut none q ∧
      (p.mode ≠ .normal → q.threads = p.threads) := by
  have hout : t ∉ p.eligibleThreads := by
    apply notMem_of_not_eligible h
    intro he
    rw [he.2.2.2] at hs
    cases hs
  have hkept := h.kept t
  unfold threadResume
  dsimp only
  by_cases hwaited : p.DelayedEventActive t .delayed ∧ (p.sched t).delayedFunc = .resumeWaited
  · -- It has suspended itself for a time that is not over yet.
    rw [if_pos hwaited]
    have hw := hkept.delayed hwaited.1
    have hmoves : Moves t p ((((p.setSuspended t false).setState t
        .runnable).threadDelayEventCancel t).setWaitResult t .ok) :=
      (((moves_updateSched rfl rfl).trans moves_setState).trans
        moves_delayedEventRemove).trans moves_setWaitResult
    have hthread' := hmoves.hasThread.mpr hthread
    have hstate : (((((p.setSuspended t false).setState t .runnable).threadDelayEventCancel
        t).setWaitResult t .ok).threads t).state = .runnable := by
      simp [setWaitResult, setState, threadDelayEventCancel, delayedEventRemove]
    have hlink : (((((p.setSuspended t false).setState t .runnable).threadDelayEventCancel
        t).setWaitResult t .ok).sched t).waitElem = none := by
      simpa [setWaitResult, setState, setSuspended, updateThread, onSections,
        threadDelayEventCancel, delayedEventRemove] using hkept.resumes hwaited.1 hwaited.2
    have hinactive : ¬ ((((p.setSuspended t false).setState t .runnable).threadDelayEventCancel
        t).setWaitResult t .ok).DelayedEventActive t .delayed :=
      not_active_cancel (p := (p.setSuspended t false).setState t .runnable)
    rw [if_pos hstate]
    obtain ⟨q, hq, hrest, hsound⟩ := threadSetEligible_sound (hmoves.sound (h.except t)) hout
      ⟨hmoves.mode.trans hw.1, hthread', hstate, by
        simp [setWaitResult, setState, setSuspended, updateThread, onSections,
          threadDelayEventCancel, delayedEventRemove]⟩ {
          delayed := fun hd => absurd hd hinactive
          resumes := fun _ _ => hlink
          linked := fun _ hl => absurd hlink hl
          donated := fun _ _ => ⟨hthread', by rw [hstate]; simp⟩
          waiting := fun _ _ => hthread' }
    exact ⟨q, hq, hmoves.trans hrest, hsound, fun hne => absurd hw.1 hne⟩
  · rw [if_neg hwaited]
    have hmoves : Moves t p (p.setSuspended t false) := moves_updateSched rfl rfl
    have hlink : ((p.setSuspended t false).sched t).waitElem = (p.sched t).waitElem := by
      simp [setSuspended]
    have hfunc : ((p.setSuspended t false).sched t).delayedFunc = (p.sched t).delayedFunc := by
      simp [setSuspended]
    have hkept' : Kept t (p.setSuspended t false) := {
      delayed := hkept.delayed
      resumes := fun hd hf => hlink.trans (hkept.resumes hd (hfunc.symm.trans hf))
      linked := fun hlt hl => hkept.linked hlt (hlink ▸ hl)
      donated := hkept.donated
      waiting := hkept.waiting }
    by_cases hstate : (p.threads t).state = .runnable
    · have hmode : p.mode = .normal := by
        by_contra hne
        exact hinit hne hstate
      obtain ⟨q, hq, hrest, hsound⟩ := threadSetEligible_sound (hmoves.sound (h.except t)) hout
        ⟨hmode, hthread, hstate, by simp [setSuspended]⟩ hkept'
      refine ⟨q, ?_, hmoves.trans hrest, hsound, fun hne => absurd hmode hne⟩
      exact (if_pos hstate).trans hq
    · refine ⟨p.setSuspended t false, if_neg hstate, hmoves, ?_, fun _ => rfl⟩
      apply (hmoves.sound (h.except t)).settle (iff_of_false hout ?_)
        ((hmoves.sound (h.except t)).pairwise_of_notMem hout) hkept'
      exact fun he => hstate he.2.2.1

/-! `thread_yield` -/

theorem threadYield_moves (h : p.threadYield t = .ok q) : Moves t p q := by
  unfold threadYield at h
  split_ifs at h
  · exact moves_threadSetUneligible.trans (moves_threadSetEligible h)
  · obtain rfl := Except.ok.inj h
    exact Moves.refl t p

/-- The priority of the thread may have been changed. -/
theorem threadYield_sound (h : SoundBut (some t) p)
    (heligible : t ∈ p.eligibleThreads ↔ p.Eligible t) (hkept : Kept t p) :
    ∃ q, p.threadYield t = .ok q ∧ Moves t p q ∧ SoundBut none q := by
  unfold threadYield
  by_cases ht : t ∈ p.eligibleThreads
  · rw [if_pos ht]
    have he := heligible.mp ht
    have hmoves : Moves t p (p.threadSetUneligible t) := moves_threadSetUneligible
    have hthreads : (p.threadSetUneligible t).threads = p.threads := by simp [threadSetUneligible]
    have hsched : (p.threadSetUneligible t).sched = p.sched := by simp [threadSetUneligible]
    have hevents : (p.threadSetUneligible t).delayedEvents = p.delayedEvents := by
      simp [threadSetUneligible]
    have hwaits : (p.threadSetUneligible t).Waits t ↔ p.Waits t := by
      simp only [Waits, hmoves.mode, hmoves.hasThread, hthreads]
    have hactive : (p.threadSetUneligible t).DelayedEventActive t .delayed ↔
        p.DelayedEventActive t .delayed := by
      simp only [DelayedEventActive, hevents]
    obtain ⟨q, hq, hrest, hsound⟩ := threadSetEligible_sound (hmoves.sound h)
      (notMem_threadSetUneligible h.nodup)
      ⟨hmoves.mode.trans he.1, hmoves.hasThread.mpr he.2.1, hthreads ▸ he.2.2.1,
        hsched ▸ he.2.2.2⟩ {
          delayed := fun hd => hwaits.mpr (hkept.delayed (hactive.mp hd))
          resumes := by
            rw [hsched]
            exact fun hd => hkept.resumes (hactive.mp hd)
          linked := by
            rw [hsched, hmoves.used]
            exact fun hlt hl => hwaits.mpr (hkept.linked hlt hl)
          donated := by
            rw [hthreads, hmoves.used, hmoves.hasThread]
            exact hkept.donated
          waiting := by
            rw [hthreads, hmoves.used, hmoves.hasThread]
            exact hkept.waiting }
    exact ⟨q, hq, hmoves.trans hrest, hsound⟩
  · rw [if_neg ht]
    exact ⟨p, rfl, Moves.refl t p,
      h.settle heligible (h.pairwise_of_notMem ht) hkept⟩

end ArincPartition

end Chpok
