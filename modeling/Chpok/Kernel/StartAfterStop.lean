import Chpok.Kernel.PreemptionLock

/-! START of a process that has been stopped, against START of the same process freshly created.
The lists of the partition keep nothing of a stopped process; what START itself does not clear is
what `thread_stop` has left. -/

namespace Chpok

namespace ArincPartition

open Outcome

variable {p q r : ArincPartition} {t u c : Nat} {hm : PartitionHm} {time : Int}

/-! The process as it is created -/

/-- The thread is in no list, and has no timer. -/
def unlinked (p : ArincPartition) (t : Nat) : ArincPartition :=
  { p with
    eligibleThreads := p.eligibleThreads.filter (· ≠ t)
    delayedEvents := p.delayedEvents.filter (·.thread ≠ t)
    waiters := fun port => (p.waiters port).filter (· ≠ t) }

/-- The partition as if the process had just been created. -/
def freshlyCreated (p : ArincPartition) (t : Nat) : ArincPartition := (p.unlinked t).threadCreate t

/-- What the kernel knows of a process: its scheduling, its wait and its sections, the eligible
threads with it and its timers. -/
structure ProcessState where
  sched : SchedThread
  state : ThreadState
  waitResult : WaitResult
  msectionEntering : Option Nat
  msectionCount : Nat
  sharedEntering : Option Nat
  killed : Bool
  donateTarget : Option Nat
  firstDonator : Option Nat
  nextDonator : Option Nat
  eligibleThreads : List Nat
  events : List DelayedEvent
  deriving DecidableEq

def processState (p : ArincPartition) (t : Nat) : ProcessState where
  sched := p.sched t
  state := (p.threads t).state
  waitResult := (p.threads t).waitResult
  msectionEntering := (p.threads t).msectionEntering
  msectionCount := (p.threads t).msectionCount
  sharedEntering := (p.threads t).sharedEntering
  killed := (p.threads t).killed
  donateTarget := (p.threads t).donateTarget
  firstDonator := (p.threads t).firstDonator
  nextDonator := (p.threads t).nextDonator
  eligibleThreads := p.eligibleThreads
  events := p.delayedEvents.filter (·.thread = t)

/-- What no START clears. -/
structure Marks where
  suspended : Bool
  msectionEntering : Option Nat
  donateTarget : Option Nat
  nextDonator : Option Nat
  deriving DecidableEq

def marks (p : ArincPartition) (t : Nat) : Marks :=
  ⟨(p.sched t).suspended, (p.threads t).msectionEntering, (p.threads t).donateTarget,
    (p.threads t).nextDonator⟩

/-- `thread_create` clears all marks. -/
def noMarks : Marks := ⟨false, none, none, none⟩

/-- The delay is refused, whatever the process has done before. -/
def DelayRefused (p : ArincPartition) (t : Nat) (delay : Int) : Prop :=
  timeIsInfinity delay ∨ ¬ timeIsInfinity (p.sched t).period ∧ (p.sched t).period ≤ delay

/-- Nothing is left of the run before: no mark, and if nothing is started, nothing either of what
START would have cleared. -/
def Unmarked (p : ArincPartition) (t : Nat) (delay : Int) : Prop :=
  p.marks t = noMarks ∧
    (p.DelayRefused t delay → (p.sched t).priority = (p.sched t).basePriority ∧
      (p.threads t).msectionCount = 0 ∧ (p.threads t).sharedEntering = none)

/-! A stopped process is in no list -/

theorem moveLock_deadlines {call : ArincCall} (h : call = .incLockLevel ∨ call = .decLockLevel)
    (hd : p.DeadlinesLive) :
    Sat (fun _ => True) (fun r => r.1.DeadlinesLive) (p.call hm c call) := by
  obtain rfl | rfl := h
  · refine Sat.ite (fun _ => trivial) fun _ => ?_
    unfold ArincPartition.incLockLevel
    split_ifs <;> exact hd
  · refine Sat.ite (fun _ => trivial) fun _ => ?_
    unfold ArincPartition.decLockLevel
    split_ifs <;> exact hd

theorem call_deadlines {call : ArincCall} (hcaller : Caller p c) (hlists : ListsSound p)
    (hd : p.DeadlinesLive) :
    Sat (fun _ => True) (fun r => r.1.DeadlinesLive) (p.call hm c call) := by
  by_cases hlock : call = .incLockLevel ∨ call = .decLockLevel
  · exact moveLock_deadlines hlock hd
  have hstate : (p.threads c).state ≠ .stopped := by simp [hcaller.runnable]
  exact (call_holds hcaller.used hstate (threadLocked_lt hlists) (not_or.mp hlock)).weaken
    fun _ hr => hr.deadlines hd

theorem partitionArincStart_deadlines : p.partitionArincStart.DeadlinesLive := by
  intro u hu
  obtain ⟨e, he, -⟩ := hu
  exact absurd he List.not_mem_nil

theorem step_deadlines {e : ArincInput} (hs : p.Steady) (hcaller : p.CallerRunnable e)
    (hd : p.halted = false → p.DeadlinesLive) (hstep : p.step hm e = some q) :
    q.halted = false → q.DeadlinesLive := by
  refine step_rule (fun hhalted => ?_) (fun _ _ => partitionArincStart_deadlines) hstep
  apply run_rule
  · exact fun _ _ hq hk _ => hk.deadlines hq
  · exact fun _ _ hq hr _ => hr.deadlines hq
  · exact fun _ => hd hhalted
  · rintro call events c rfl - hcurrent
    exact call_deadlines (caller_of_current hs hhalted hcurrent (hcaller c hcurrent)) hs.lists
      (hd hhalted)

/-- In every run whose system calls are made by runnable processes the lists are sound, and no
stopped thread has a deadline. -/
theorem run_live {nthreads : Nat} {es : List ArincInput}
    (hcallers : Run.Meets (step hm) CallerRunnable (boot nthreads) es)
    (hrun : Run.exec (step hm) (boot nthreads) es = some p) :
    p.Steady ∧ (p.halted = false → p.DeadlinesLive) := by
  refine @Run.invariant_of_meets _ _ (step hm) CallerRunnable
    (fun p => p.Steady ∧ (p.halted = false → p.DeadlinesLive)) ?_ _ _ _ ?_ hcallers hrun
  · exact fun p e q hp hok hstep =>
      ⟨step_sound hp.1 hok hstep, step_deadlines hp.1 hok hp.2 hstep⟩
  · exact ⟨boot_steady nthreads, fun _ => partitionArincStart_deadlines⟩

/-- The thread is in no list, has no timer and waits for nothing. -/
structure Unlisted (p : ArincPartition) (t : Nat) : Prop where
  eligible : t ∉ p.eligibleThreads
  events : ∀ e ∈ p.delayedEvents, e.thread ≠ t
  waiters : ∀ port, t ∉ p.waiters port
  waitElem : (p.sched t).waitElem = none
  donator : (p.threads t).firstDonator = none

theorem unlisted_of_stopped (hlists : ListsSound p) (hd : p.DeadlinesLive) (ht : p.HasThread t)
    (hstopped : (p.threads t).state = .stopped) : p.Unlisted t := by
  have hsound := hlists.sound
  have hnotWaiting : ¬ p.Waits t := fun hw => by
    have hstate := hw.2.2
    simp [hstopped] at hstate
  have helem : (p.sched t).waitElem = none := by
    by_contra hne
    exact hnotWaiting (hsound.linked t (by simp) ht.2.1 hne)
  refine ⟨fun hmem => ?_, fun e he hthread => ?_, fun port hmem => ?_, helem, ?_⟩
  · have hstate := ((hsound.eligible t (by simp)).mp hmem).2.2.1
    simp [hstopped] at hstate
  · cases hkind : e.kind with
    | delayed => exact hnotWaiting (hsound.delayed t (by simp) ⟨e, he, hthread, hkind⟩)
    | deadline => exact (hd t ⟨e, he, hthread, hkind⟩).2 hstopped
  · have hlinked := (hsound.waiters port t).mp hmem
    simp [helem] at hlinked
  · by_contra hne
    exact (hsound.donated t (by simp) ht.2.1 hne).2 hstopped

theorem Unlisted.unlinked (h : p.Unlisted t) : p.unlinked t = p := by
  have heligible : p.eligibleThreads.filter (· ≠ t) = p.eligibleThreads := by
    refine List.filter_eq_self.mpr fun u hu => ?_
    have hne : u ≠ t := fun he => h.eligible (he ▸ hu)
    simpa using hne
  have hevents : p.delayedEvents.filter (·.thread ≠ t) = p.delayedEvents := by
    refine List.filter_eq_self.mpr fun e he => ?_
    simpa using h.events e he
  have hwaiters (port : Nat) : (p.waiters port).filter (· ≠ t) = p.waiters port := by
    refine List.filter_eq_self.mpr fun u hu => ?_
    have hne : u ≠ t := fun he => h.waiters port (he ▸ hu)
    simpa using hne
  simp only [ArincPartition.unlinked, heligible, hevents, hwaiters]

theorem Unlisted.freshlyCreated (h : p.Unlisted t) : p.freshlyCreated t = p.threadCreate t := by
  rw [ArincPartition.freshlyCreated, h.unlinked]

/-! START leaves the marks, and clears the rest -/

theorem threadCreate_marks : (p.threadCreate t).marks t = noMarks := by
  simp [marks, noMarks, threadCreate_sched, threadCreate_threads]

theorem resetStarted_marks : (p.resetStarted t).marks t = p.marks t := by
  simp [marks, resetStarted, updateThread, updateSched, onSections, SectionSystem.resetContext,
    SectionSystem.updateThread]

theorem marks_congr (hthreads : q.threads = p.threads)
    (hsuspended : (q.sched t).suspended = (p.sched t).suspended) : q.marks t = p.marks t := by
  rw [marks, marks, hthreads, hsuspended]

theorem setState_marks {state : ThreadState} : (p.setState t state).marks t = p.marks t := by
  simp [marks, setState, updateThread, onSections, SectionSystem.updateThread]

theorem setNextActivation_marks {next : Int} :
    (p.setNextActivation t next).marks t = p.marks t := by
  unfold setNextActivation
  split_ifs
  · rfl
  · simp [marks, updateSched]

theorem setNextActivation_eligibleThreads {next : Int} :
    (p.setNextActivation t next).eligibleThreads = p.eligibleThreads := by
  unfold setNextActivation
  split_ifs
  · rfl
  · rfl

theorem setStartDeadline_eligibleThreads {start : Int} :
    (p.setStartDeadline t start).eligibleThreads = p.eligibleThreads := by
  unfold setStartDeadline
  split_ifs
  · rfl
  · rfl

theorem setStartDeadline_marks {start : Int} :
    (p.setStartDeadline t start).marks t = p.marks t := by
  unfold setStartDeadline
  split_ifs
  · rfl
  · rfl

theorem threadStart_marks (hmode : p.mode = .normal) (ht : t ∉ p.eligibleThreads) :
    ∃ q, p.threadStart t = .ok q ∧ q.marks t = p.marks t := by
  unfold threadStart setEligibleUnlessSuspended
  by_cases hsuspended : ((p.setState t .runnable).sched t).suspended
  · rw [if_pos hsuspended]
    exact ⟨_, rfl, setState_marks⟩
  · rw [if_neg hsuspended]
    have hallowed : (p.setState t .runnable).mode = .normal ∧
        t ∉ (p.setState t .runnable).eligibleThreads := ⟨hmode, ht⟩
    cases hset : (p.setState t .runnable).threadSetEligible t with
    | error e =>
      rw [threadSetEligible, if_pos hallowed] at hset
      cases hset
    | ok q =>
      refine ⟨q, rfl, ?_⟩
      rw [marks_congr (threadSetEligible_threads hset) (by rw [threadSetEligible_sched hset])]
      exact setState_marks

theorem threadWaitTimed_marks (hmode : p.mode = .normal) (htime : 0 ≤ time) :
    ∃ q, p.threadWaitTimed t time = .ok q ∧ q.marks t = p.marks t := by
  have hfinite : timeIsInfinity time = false := by
    simpa [timeIsInfinity] using htime
  refine ⟨((p.setState t .waiting).threadSetUneligible t).threadDelayEvent t time .wakeUp, ?_, ?_⟩
  · simp [threadWaitTimed, threadWait, hfinite, hmode, Except.map]
  · have hsuspended : (((p.setState t .waiting).threadSetUneligible t).sched t).suspended =
        ((p.setState t .waiting).sched t).suspended :=
      congrArg (fun sched => (sched t).suspended) invalidateIfFirst_sched
    have hwaiting : ((p.setState t .waiting).threadSetUneligible t).marks t = p.marks t := by
      rw [marks_congr threadSetUneligible_threads hsuspended]
      exact setState_marks
    rw [← hwaiting]
    simp [marks, threadDelayEvent, delayedEventAdd, updateSched]

/-- What START does once the thread is reset. -/
def startReset (p : ArincPartition) (t : Nat) (delay now processingStart : Int) :
    Except PartitionExit ArincPartition :=
  if p.mode ≠ .normal then
    .ok ((p.updateSched t fun th => { th with delayedTime := delay }).setState t .waiting)
  else
    let start := p.startTime t delay now processingStart
    let armed := (p.setNextActivation t (TimeArith.kernel.unsigned
      (TimeArith.kernel.add start (p.sched t).period))).setStartDeadline t start
    if delay = 0 ∧ timeIsInfinity (p.sched t).period then armed.threadStart t
    else armed.threadWaitTimed t start

theorem resetStarted_period :
    ((p.resetStarted t).sched t).period = (p.sched t).period := by
  simp [resetStarted, updateSched, updateThread, onSections]

theorem pokThreadDelayedStart_accepted {delay now processingStart : Int} (ht : p.HasThread t)
    (hstopped : (p.threads t).state = .stopped) (hdelay : ¬ p.DelayRefused t delay) :
    p.pokThreadDelayedStart t delay now processingStart =
      returning .ok ((p.resetStarted t).startReset t delay now processingStart) := by
  obtain ⟨hfinite, hperiod⟩ := not_or.mp hdelay
  unfold pokThreadDelayedStart withThread threadDelayedStartInternal startReset
  rw [if_pos ht]
  dsimp only
  rw [if_neg hfinite, if_neg hfinite, if_neg (not_not.mpr hstopped), if_neg hperiod]
  simp only [startTime, resetStarted_period]
  by_cases hmode : p.mode = .normal
  · have hmode' : (p.resetStarted t).mode = .normal := hmode
    rw [if_neg (not_not.mpr hmode), if_neg (not_not.mpr hmode')]
  · have hmode' : (p.resetStarted t).mode ≠ .normal := hmode
    rw [if_pos hmode, if_pos hmode']
    rfl

theorem pokThreadDelayedStart_einval {delay now processingStart : Int} (ht : p.HasThread t)
    (hstopped : (p.threads t).state = .stopped) (hdelay : p.DelayRefused t delay) :
    p.pokThreadDelayedStart t delay now processingStart = .ok (p, .einval) := by
  unfold pokThreadDelayedStart withThread threadDelayedStartInternal
  rw [if_pos ht]
  dsimp only
  by_cases hfinite : timeIsInfinity delay
  · rw [if_pos hfinite]
  · rw [if_neg hfinite, if_neg hfinite, if_neg (not_not.mpr hstopped),
      if_pos (hdelay.resolve_left hfinite)]

/-- START waits until a time that has wrapped. -/
def StartWraps (p : ArincPartition) (t : Nat) (delay now processingStart : Int) : Prop :=
  p.mode = .normal ∧ ¬ (delay = 0 ∧ timeIsInfinity (p.sched t).period) ∧
    p.startTime t delay now processingStart < 0

theorem resetStarted_wraps {delay now processingStart : Int} :
    (p.resetStarted t).StartWraps t delay now processingStart ↔
      p.StartWraps t delay now processingStart := by
  simp only [StartWraps, startTime, resetStarted_period]
  exact Iff.rfl

theorem threadCreate_wraps {delay now processingStart : Int} :
    (p.threadCreate t).StartWraps t delay now processingStart ↔
      p.StartWraps t delay now processingStart := by
  have hmode : (p.threadCreate t).mode = p.mode := rfl
  simp [StartWraps, startTime, threadCreate_sched, hmode]

theorem startReset_wraps {delay now processingStart : Int}
    (h : p.StartWraps t delay now processingStart) :
    p.startReset t delay now processingStart = .error (.failed .threadWaitTimed) := by
  obtain ⟨hmode, hwaits, hnegative⟩ := h
  unfold startReset
  rw [if_neg (not_not.mpr hmode)]
  dsimp only
  rw [if_neg hwaits, threadWaitTimed, if_pos (by simpa [timeIsInfinity] using hnegative)]

theorem startReset_marks {delay now processingStart : Int} (ht : t ∉ p.eligibleThreads)
    (hfits : ¬ p.StartWraps t delay now processingStart) :
    ∃ q, p.startReset t delay now processingStart = .ok q ∧ q.marks t = p.marks t := by
  unfold startReset
  by_cases hmode : p.mode = .normal
  · rw [if_neg (not_not.mpr hmode)]
    have harmed (next start : Int) :
        ((p.setNextActivation t next).setStartDeadline t start).marks t = p.marks t := by
      rw [setStartDeadline_marks, setNextActivation_marks]
    dsimp only
    have hnormal (next start : Int) :
        ((p.setNextActivation t next).setStartDeadline t start).mode = .normal :=
      (setStartDeadline_same.2.trans setNextActivation_same.2).trans hmode
    split_ifs with hstarts
    · rw [← harmed]
      apply threadStart_marks (hnormal _ _)
      rwa [setStartDeadline_eligibleThreads, setNextActivation_eligibleThreads]
    · rw [← harmed]
      apply threadWaitTimed_marks (hnormal _ _)
      exact not_lt.mp fun hnegative => hfits ⟨hmode, hstarts, hnegative⟩
  · rw [if_pos hmode]
    refine ⟨_, rfl, ?_⟩
    rw [setState_marks]
    simp [marks, updateSched]

/-! The two calls -/

theorem Unlisted.refused_iff (h : p.Unlisted t) (hstopped : (p.threads t).state = .stopped) :
    p.processState t = (p.threadCreate t).processState t ↔ p.marks t = noMarks ∧
      (p.sched t).priority = (p.sched t).basePriority ∧ (p.threads t).msectionCount = 0 ∧
      (p.threads t).sharedEntering = none := by
  have helem := h.waitElem
  have hdonator := h.donator
  have hevents : (p.threadCreate t).delayedEvents = p.delayedEvents := rfl
  have heligible : (p.threadCreate t).eligibleThreads = p.eligibleThreads := rfl
  have hsched : p.sched t = { p.sched t with
      priority := (p.sched t).basePriority, suspended := false, waitElem := none } ↔
        (p.sched t).priority = (p.sched t).basePriority ∧ (p.sched t).suspended = false := by
    generalize p.sched t = th at helem ⊢
    cases th
    simp_all
  simp only [processState, threadCreate_sched, threadCreate_threads, hevents, heligible,
    Function.update_self, ProcessState.mk.injEq, hsched, marks, noMarks, Marks.mk.injEq, hstopped,
    hdonator, SectionSystem.resetContext]
  tauto

theorem resetStarted_threadCreate (h : p.Unlisted t) (hstopped : (p.threads t).state = .stopped)
    (hmarks : p.marks t = noMarks) : (p.threadCreate t).resetStarted t = p.resetStarted t := by
  obtain ⟨hsuspended, hentering, htarget, hnext⟩ := Marks.mk.inj hmarks
  have hthreads : ((p.threadCreate t).resetStarted t).threads = (p.resetStarted t).threads := by
    rw [resetStarted_threads, resetStarted_threads, threadCreate_threads, Function.update_self,
      Function.update_idem]
    simp only [SectionSystem.resetContext, hstopped, hentering, htarget, hnext, h.donator]
  have hsched : ((p.threadCreate t).resetStarted t).sched = (p.resetStarted t).sched := by
    simp only [resetStarted, updateThread, onSections, updateSched, threadCreate_sched,
      Function.update_self, Function.update_idem, hsuspended, h.waitElem]
  calc (p.threadCreate t).resetStarted t
      = { p with
          threads := ((p.threadCreate t).resetStarted t).threads
          sched := ((p.threadCreate t).resetStarted t).sched } := rfl
    _ = { p with threads := (p.resetStarted t).threads, sched := (p.resetStarted t).sched } := by
      rw [hthreads, hsched]
    _ = p.resetStarted t := rfl

theorem Unlisted.start_iff {delay now processingStart : Int} (h : p.Unlisted t)
    (ht : p.HasThread t) (hstopped : (p.threads t).state = .stopped)
    (hfits : p.DelayRefused t delay ∨ ¬ p.StartWraps t delay now processingStart) :
    ∃ q q' errno, p.pokThreadDelayedStart t delay now processingStart = .ok (q, errno) ∧
      (p.threadCreate t).pokThreadDelayedStart t delay now processingStart = .ok (q', errno) ∧
      (q.processState t = q'.processState t ↔ p.Unmarked t delay) := by
  have ht' : (p.threadCreate t).HasThread t := ht
  have hstopped' : ((p.threadCreate t).threads t).state = .stopped := by
    simp [threadCreate_threads]
  have hdelay' : (p.threadCreate t).DelayRefused t delay ↔ p.DelayRefused t delay := by
    simp [DelayRefused, threadCreate_sched]
  by_cases hdelay : p.DelayRefused t delay
  · refine ⟨p, p.threadCreate t, .einval, pokThreadDelayedStart_einval ht hstopped hdelay,
      pokThreadDelayedStart_einval ht' hstopped' (hdelay'.mpr hdelay), ?_⟩
    rw [h.refused_iff hstopped, Unmarked]
    simp [hdelay]
  · have hwraps := hfits.resolve_left hdelay
    obtain ⟨q, hq, hmarks⟩ := @startReset_marks (p.resetStarted t) t delay now processingStart
      h.eligible (resetStarted_wraps.not.mpr hwraps)
    obtain ⟨q', hq', hmarks'⟩ := @startReset_marks ((p.threadCreate t).resetStarted t) t delay now
      processingStart h.eligible (resetStarted_wraps.not.mpr (threadCreate_wraps.not.mpr hwraps))
    rw [resetStarted_marks] at hmarks hmarks'
    rw [threadCreate_marks] at hmarks'
    refine ⟨q, q', .ok, ?_, ?_, ?_⟩
    · rw [pokThreadDelayedStart_accepted ht hstopped hdelay, hq]
      rfl
    · rw [pokThreadDelayedStart_accepted ht' hstopped' (mt hdelay'.mp hdelay), hq']
      rfl
    · have hunmarked : p.Unmarked t delay ↔ p.marks t = noMarks :=
        and_iff_left fun hr => absurd hr hdelay
      rw [hunmarked]
      refine ⟨fun hsame => ?_, fun hclean => ?_⟩
      · have hboth : q.marks t = q'.marks t := congrArg (fun s : ProcessState =>
          (⟨s.sched.suspended, s.msectionEntering, s.donateTarget, s.nextDonator⟩ : Marks)) hsame
        rw [← hmarks, hboth, hmarks']
      · rw [resetStarted_threadCreate h hstopped hclean, hq] at hq'
        rw [Except.ok.inj hq']

/-- A sum that has wrapped fails the same assertion in both calls. -/
theorem Unlisted.start_fails {delay now processingStart : Int} (ht : p.HasThread t)
    (hstopped : (p.threads t).state = .stopped) (hdelay : ¬ p.DelayRefused t delay)
    (hwraps : p.StartWraps t delay now processingStart) :
    p.pokThreadDelayedStart t delay now processingStart = .error (.failed .threadWaitTimed) ∧
      (p.threadCreate t).pokThreadDelayedStart t delay now processingStart =
        .error (.failed .threadWaitTimed) := by
  have ht' : (p.threadCreate t).HasThread t := ht
  have hstopped' : ((p.threadCreate t).threads t).state = .stopped := by
    simp [threadCreate_threads]
  have hdelay' : ¬ (p.threadCreate t).DelayRefused t delay := by
    simpa [DelayRefused, threadCreate_sched] using hdelay
  rw [pokThreadDelayedStart_accepted ht hstopped hdelay,
    pokThreadDelayedStart_accepted ht' hstopped' hdelay',
    startReset_wraps (resetStarted_wraps.mpr hwraps),
    startReset_wraps (resetStarted_wraps.mpr (threadCreate_wraps.mpr hwraps))]
  exact ⟨rfl, rfl⟩

end ArincPartition

open ArincPartition Outcome

/-- In every run whose system calls are made by runnable processes, START of a stopped process
returns what it returns for the process freshly created, and leaves the process in the same state
exactly when the process is unmarked. If its sum wraps, it fails the same assertion in both
cases. -/
theorem start_after_stop {hm : PartitionHm} {nthreads : Nat} {es : List ArincInput}
    {p : ArincPartition} {t : Nat} {delay now processingStart : Int}
    (hcallers : Run.Meets (step hm) CallerRunnable (boot nthreads) es)
    (hrun : Run.exec (step hm) (boot nthreads) es = some p) (hhalted : p.halted = false)
    (ht : p.HasThread t) (hstopped : (p.threads t).state = .stopped) :
    (p.DelayRefused t delay ∨ ¬ p.StartWraps t delay now processingStart →
      ∃ q q' errno, p.pokThreadDelayedStart t delay now processingStart = .ok (q, errno) ∧
        (p.freshlyCreated t).pokThreadDelayedStart t delay now processingStart = .ok (q', errno) ∧
        (q.processState t = q'.processState t ↔ p.Unmarked t delay)) ∧
    (¬ p.DelayRefused t delay → p.StartWraps t delay now processingStart →
      p.pokThreadDelayedStart t delay now processingStart = .error (.failed .threadWaitTimed) ∧
        (p.freshlyCreated t).pokThreadDelayedStart t delay now processingStart =
          .error (.failed .threadWaitTimed)) := by
  obtain ⟨hsteady, hlive⟩ := run_live hcallers hrun
  have hunlisted : p.Unlisted t := unlisted_of_stopped hsteady.lists (hlive hhalted) ht hstopped
  rw [hunlisted.freshlyCreated]
  exact ⟨hunlisted.start_iff ht hstopped, Unlisted.start_fails ht hstopped⟩

/-- Process 2 is raised in its priority, and stopped. -/
def raisedStoppedRun : List ArincInput :=
  startupRun ++ [.call (.setPriority 2 9) [], .call (.stopTarget 2) []]

theorem start_after_stop_raised :
    ∃ p q q', Run.exec (step lenientHm) (boot 4) raisedStoppedRun = some p ∧
      p.pokThreadDelayedStart 2 0 50 0 = .ok (q, .ok) ∧
      (p.freshlyCreated 2).pokThreadDelayedStart 2 0 50 0 = .ok (q', .ok) ∧
      q.processState 2 = q'.processState 2 := by
  have hview : (Run.exec (step lenientHm) (boot 4) raisedStoppedRun).map (fun p =>
      (p.halted, (p.threads 2).state, p.marks 2, decide (p.HasThread 2), (p.sched 2).period)) =
        some (false, .stopped, noMarks, true, -1) := by decide +kernel
  obtain ⟨p, hrun, hv⟩ := Option.map_eq_some_iff.mp hview
  simp only [Prod.mk.injEq, decide_eq_true_eq] at hv
  obtain ⟨hhalted, hstopped, hmarks, ht, hperiod⟩ := hv
  have hallowed : ¬ p.DelayRefused 2 0 := by simp [DelayRefused, hperiod, timeIsInfinity]
  have hcallers : Run.Meets (step lenientHm) CallerRunnable (boot 4) raisedStoppedRun :=
    Run.meets_of_checks (by decide +kernel)
  have hfits : ¬ p.StartWraps 2 0 50 0 := fun hwraps => hwraps.2.1 ⟨rfl, by rw [hperiod]; decide⟩
  obtain ⟨q, q', errno, hq, hq', hsame⟩ := (@start_after_stop lenientHm 4 raisedStoppedRun p 2 0 50 0
    hcallers hrun hhalted ht hstopped).1 (Or.inr hfits)
  obtain rfl : errno = .ok := by
    rw [pokThreadDelayedStart_accepted ht hstopped hallowed] at hq
    cases hreset : (p.resetStarted 2).startReset 2 0 50 0 with
    | error e =>
      rw [hreset] at hq
      cases hq
    | ok r =>
      rw [hreset] at hq
      exact (congrArg Prod.snd (Except.ok.inj hq)).symm
  exact ⟨p, q, q', hrun, hq, hq', hsame.mpr ⟨hmarks, fun hr => absurd hr hallowed⟩⟩

/-- Process 2 is stopped while it is suspended. -/
def suspendedStoppedRun : List ArincInput :=
  startupRun ++ [.call (.suspendTarget 2) [], .call (.stopTarget 2) []]

theorem start_after_stop_suspended :
    ∃ p q q', Run.exec (step lenientHm) (boot 4) suspendedStoppedRun = some p ∧
      p.pokThreadDelayedStart 2 0 50 0 = .ok (q, .ok) ∧
      (p.freshlyCreated 2).pokThreadDelayedStart 2 0 50 0 = .ok (q', .ok) ∧
      (q.processState 2).eligibleThreads = [1] ∧ (q'.processState 2).eligibleThreads = [1, 2] := by
  have hview : (Run.exec (step lenientHm) (boot 4) suspendedStoppedRun).map (fun p =>
      ((p.pokThreadDelayedStart 2 0 50 0).toOption.map fun r => (r.2, r.1.eligibleThreads),
        ((p.freshlyCreated 2).pokThreadDelayedStart 2 0 50 0).toOption.map fun r =>
          (r.2, r.1.eligibleThreads))) =
        some (some (.ok, [1]), some (.ok, [1, 2])) := by decide +kernel
  obtain ⟨p, hrun, hv⟩ := Option.map_eq_some_iff.mp hview
  simp only [Prod.mk.injEq, Option.map_eq_some_iff] at hv
  obtain ⟨⟨⟨q, errno⟩, hq, rfl, hlist⟩, ⟨q', errno'⟩, hq', rfl, hlist'⟩ := hv
  exact ⟨p, q, q', hrun, ok_of_toOption hq, ok_of_toOption hq', hlist, hlist'⟩

end Chpok
