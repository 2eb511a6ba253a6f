import Chpok.Kernel.TimeSums
import Chpok.Kernel.PeriodicRelease

/-! Times that wrap. A sum that does not fit into `int64_t` is seen as a negative time: a wait
then fails an assertion, a suspension and a delayed start end at once, and a deadline has been
missed already. The calls do what is asked for exactly when all sums that they come to fit. -/

namespace Chpok

open Outcome SignedWord

namespace ArincPartition

variable {p q : ArincPartition} {t c : Nat}

/-- `thread_is_waiting_allowed` returns `TRUE`. -/
structure MayWait (p : ArincPartition) (c : Nat) : Prop where
  unlocked : p.lockLevel = 0
  notError : p.threadError ≠ some c
  outside : (p.threads c).msectionCount = 0
  undonated : (p.threads c).firstDonator = none

/-- A thread that becomes runnable is not eligible yet, or stays suspended. -/
def MayRun (p : ArincPartition) (t : Nat) : Prop :=
  (p.sched t).suspended = true ∨ p.mode = .normal ∧ t ∉ p.eligibleThreads

/-- What the start of the thread `t` is counted from -/
def startBase (p : ArincPartition) (t : Nat) (now processingStart : Int) : Int :=
  if timeIsInfinity (p.sched t).period then now else processingStart

/-- The deadline after `start` fits, if the thread has one. -/
def DeadlineFits (p : ArincPartition) (t : Nat) (start : Int) : Prop :=
  0 ≤ (p.sched t).timeCapacity → start + (p.sched t).timeCapacity < 2 ^ 63

theorem Moves.capacity (h : Moves t p q) : (q.sched t).timeCapacity = (p.sched t).timeCapacity :=
  (SchedThread.times_eq_iff.mp (h.times t)).2.1

theorem Moves.next (h : Moves t p q) : (q.sched t).nextActivation = (p.sched t).nextActivation :=
  (SchedThread.times_eq_iff.mp (h.times t)).2.2.2

end ArincPartition

/-- A finite wait ends at a time that fits, and that is no infinity. -/
def WaitFits (now duration : Int) : Prop :=
  0 < duration → 0 ≤ now + duration ∧ now + duration < 2 ^ 63

namespace TimedCall

variable {p q : ArincPartition} {c : Nat} {call : TimedCall}

/-- All sums that the call comes to fit. The next activation is unsigned, so that a release point
and a period always have a sum; outside the `NORMAL` mode only the assertion about infinite times
counts, and a late enough REPLENISH is refused whether its sum fits or not. -/
def Fits (p : ArincPartition) (c : Nat) : TimedCall → Prop
  | .sleep time now => p.MayWait c → WaitFits now time
  | .suspend time now =>
    (p.sched c).period < 0 → p.MayWait c → p.mode = .normal → 0 < time → now + time < 2 ^ 63
  | .portWait _ _ timeout now _ =>
    p.MayWait c → (p.sched c).waitElem = none → WaitFits now timeout
  | .msectionWait sec timeout now =>
    (p.sections sec).owner = some c → (p.threads c).msectionCount = 1 → p.lockLevel = 0 →
      p.threadError ≠ some c → (p.threads c).firstDonator = none → WaitFits now timeout
  | .delayedStart id delay now start =>
    p.HasThread id → 0 ≤ delay → (p.threads id).state = .stopped → p.mode = .normal →
      ((p.sched id).period < 0 → WaitFits now delay ∧
        (0 < delay ∨ p.MayRun id → p.DeadlineFits id (now + delay))) ∧
      (0 ≤ (p.sched id).period → delay < (p.sched id).period →
        (0 ≤ start + delay ∧ start + delay < 2 ^ 63) ∧ p.DeadlineFits id (start + delay))
  | .endPeriod =>
    0 ≤ (p.sched c).period → p.MayWait c →
      (p.mode = .normal →
        (p.sched c).nextActivation + (p.sched c).period < 2 ^ 63 ∧
          (p.sched c).nextActivation + (p.sched c).period + (p.sched c).timeCapacity < 2 ^ 63) ∧
      (p.mode ≠ .normal →
        (p.sched c).nextActivation + (p.sched c).period < 2 ^ 63 ∨
          2 ^ 64 ≤ (p.sched c).nextActivation + (p.sched c).period)
  | .replenish budget now =>
    p.threadError ≠ some c → p.mode = .normal → 0 ≤ (p.sched c).timeCapacity → 0 ≤ budget →
      now + budget < 2 ^ 63 ∨
        0 ≤ (p.sched c).period ∧ (p.sched c).nextActivation ≤ now + budget
  | .release t now start =>
    (p.threads t).state ≠ .stopped →
      p.startBase t now start + (p.sched t).delayedTime < 2 ^ 63 ∧
      (now < p.startBase t now start + (p.sched t).delayedTime ∨
        (p.threads t).state = .waiting ∧ p.MayRun t →
          (0 ≤ (p.sched t).period → 0 ≤ p.startBase t now start + (p.sched t).delayedTime) ∧
            p.DeadlineFits t (p.startBase t now start + (p.sched t).delayedTime))

/-- The thread whose times are computed -/
def thread (c : Nat) : TimedCall → Nat
  | .delayedStart id .. => id
  | .release t .. => t
  | _ => c

/-- The thread that waits in the call, from when and for how long -/
def wait (p : ArincPartition) (c : Nat) : TimedCall → Option (Nat × Int × Int)
  | .sleep time now | .suspend time now | .portWait _ _ time now _ | .msectionWait _ time now =>
    some (c, now, time)
  | .delayedStart id delay now start => some (id, p.startBase id now start, delay)
  | .endPeriod => some (c, (p.sched c).nextActivation, (p.sched c).period)
  | .release t now start => some (t, p.startBase t now start, (p.sched t).delayedTime)
  | .replenish .. => none

/-- The start to which a new deadline belongs -/
def start (p : ArincPartition) (c : Nat) : TimedCall → Option (Nat × Int)
  | .delayedStart id delay now start => some (id, p.startBase id now start + delay)
  | .endPeriod => some (c, (p.sched c).nextActivation + (p.sched c).period)
  | .replenish _ now => some (c, now)
  | .release t now start => some (t, p.startBase t now start + (p.sched t).delayedTime)
  | _ => none

/-- A wait does not end before its time, and a deadline of a finite time capacity is not before
its start. -/
def Respects (p : ArincPartition) (c : Nat) (call : TimedCall) (event : DelayedEvent) : Prop :=
  match event.kind with
  | .delayed => ∀ base duration, call.wait p c = some (event.thread, base, duration) →
    ∀ now, event.timepoint ≤ now → duration ≤ now - base
  | .deadline => ∀ start, call.start p c = some (event.thread, start) →
    0 ≤ (p.sched event.thread).timeCapacity → start ≤ event.timepoint

/-- The call is refused, or does what it does with unbounded times; in no case an infinite
time is waited for, and the new events are not too early. -/
structure Exact (p : ArincPartition) (c : Nat) (call : TimedCall) : Prop where
  sums : call.kernel p c = call.result .unbounded p c ∨
    ∃ errno, errno ≠ .ok ∧ call.kernel p c = .ok (p, errno)
  finite : call.kernel p c ≠ .error (.failed .threadWaitTimed)
  events : ∀ q errno, call.kernel p c = .ok (q, errno) →
    ∀ event ∈ q.delayedEvents, event ∉ p.delayedEvents → call.Respects p c event

end TimedCall

namespace TimeSums

open ArincPartition

variable {p q : ArincPartition} {t c : Nat} {time now duration : Int}
  {α : Type} {m m' r : Except PartitionExit α}

theorem MayWait.allowed (h : p.MayWait c) : p.threadIsWaitingAllowed c = .ok true := by
  have hfree : ¬ (0 < p.lockLevel ∨ p.threadError = some c) := by
    simp [h.unlocked, h.notError]
  rw [threadIsWaitingAllowed, if_neg hfree, if_pos ⟨h.outside, h.undonated⟩]

theorem waiting_congr (h : p.MayWait c → m = m') :
    ((p.threadIsWaitingAllowed c).bind fun allowed => if ¬ allowed then r else m) =
      (p.threadIsWaitingAllowed c).bind fun allowed => if ¬ allowed then r else m' := by
  by_cases hw : p.MayWait c
  · rw [h hw]
  · unfold threadIsWaitingAllowed
    split_ifs with hfree hrest
    · rfl
    · rw [not_or] at hfree
      exact absurd ⟨by omega, hfree.2, hrest.1, hrest.2⟩ hw
    · rfl

theorem threadWaitTimed_negative (h : time < 0) :
    p.threadWaitTimed t time = .error (.failed .threadWaitTimed) := by
  rw [threadWaitTimed, if_pos (by simpa [timeIsInfinity] using h)]

theorem threadWaitTimed_stopped (h : 0 ≤ time) (hmode : p.mode ≠ .normal) :
    p.threadWaitTimed t time = .error (.failed .threadWait) := by
  rw [threadWaitTimed, if_neg (by simpa [timeIsInfinity] using h), threadWait, if_neg hmode]
  rfl

theorem threadWaitTimed_normal (h : 0 ≤ time) (hmode : p.mode = .normal) :
    p.threadWaitTimed t time =
      .ok (((p.setState t .waiting).threadSetUneligible t).threadDelayEvent t time .wakeUp) := by
  rw [threadWaitTimed, if_neg (by simpa [timeIsInfinity] using h), threadWait, if_pos hmode]
  rfl

theorem threadWaitCommon_fits (h : WaitFits now duration) (hnow : InRange now) :
    p.threadWaitCommon t duration now .kernel =
      p.threadWaitCommon t duration now .unbounded := by
  unfold threadWaitCommon
  by_cases hpositive : 0 < duration
  · obtain ⟨-, hlt⟩ := h hpositive
    rw [TimeArith.kernel_add, add_of_inRange ((inRange_add_iff hnow hpositive.le).mpr hlt)]
    rfl
  · by_cases hzero : duration = 0
    · rw [if_pos hzero, if_pos hzero]
    · have hinf : timeIsInfinity duration = true := by
        simp only [timeIsInfinity, decide_eq_true_eq]
        omega
      rw [if_neg hzero, if_neg hzero, if_pos hinf, if_pos hinf]

theorem threadWaitCommon_overflow (h : ¬ WaitFits now duration) (hnow : InRange now)
    (hduration : InRange duration) :
    p.threadWaitCommon t duration now .kernel = .error (.failed .threadWaitTimed) := by
  unfold WaitFits at h
  push Not at h
  obtain ⟨hpositive, hwrong⟩ := h
  have hnegative : SignedWord.add now duration < 0 := by
    by_cases hlt : now + duration < 2 ^ 63
    · rw [add_of_inRange ((inRange_add_iff hnow hpositive.le).mpr hlt)]
      omega
    · exact (add_lt_of_overflow hnow hduration (by omega)).1
  have hfinite : ¬ timeIsInfinity duration = true := by
    simp only [timeIsInfinity, decide_eq_true_eq]
    omega
  rw [threadWaitCommon, if_neg (by omega), if_neg hfinite, TimeArith.kernel_add,
    threadWaitTimed_negative hnegative]

theorem infinity_iff : timeIsInfinity time = true ↔ time < 0 := by
  simp [timeIsInfinity]

theorem finite_iff : timeIsInfinity time = false ↔ 0 ≤ time := by
  simp [timeIsInfinity]

theorem startTime_unbounded {delay processingStart : Int} :
    p.startTime t delay now processingStart .unbounded = p.startBase t now processingStart + delay := by
  unfold startTime startBase
  split_ifs
  · rfl
  · rfl

theorem startTime_word {delay processingStart : Int} :
    p.startTime t delay now processingStart .kernel =
      SignedWord.add (p.startBase t now processingStart) delay := by
  unfold startTime startBase
  split_ifs
  · rfl
  · rfl

theorem setStartDeadline_congr {start : Int}
    (h : 0 ≤ (p.sched t).timeCapacity →
      SignedWord.add start (p.sched t).timeCapacity = start + (p.sched t).timeCapacity) :
    p.setStartDeadline t start .kernel = p.setStartDeadline t start .unbounded := by
  unfold setStartDeadline
  split_ifs with hinf
  · rfl
  · rw [TimeArith.kernel_add, h (finite_iff.mp (by simpa using hinf))]
    rfl

/-! A call that fits computes the sums that are asked for. -/

theorem pokThreadSleep_fits (h : p.MayWait c → WaitFits now time) (hnow : InRange now) :
    p.pokThreadSleep c time now .kernel = p.pokThreadSleep c time now .unbounded := by
  apply waiting_congr
  intro hw
  rw [threadWaitCommon_fits (h hw) hnow]

theorem suspendedTwice_mode :
    (((p.threadSuspend c).setSuspended c true).threadSetUneligible c).mode = p.mode :=
  ((threadSuspend_moves (t := c)).trans
    ((moves_updateSched rfl rfl).trans moves_threadSetUneligible)).mode

theorem pokThreadSuspend_fits (hnow : InRange now)
    (h : (p.sched c).period < 0 → p.MayWait c → p.mode = .normal → 0 < time → now + time < 2 ^ 63) :
    p.pokThreadSuspend c time now .kernel = p.pokThreadSuspend c time now .unbounded := by
  refine ite_congr rfl (fun _ => rfl) fun hperiod => waiting_congr fun hw =>
    ite_congr rfl (fun _ => rfl) fun hzero => ite_congr rfl (fun _ => rfl) fun hinf => ?_
  rw [not_not, infinity_iff] at hperiod
  rw [Bool.not_eq_true, finite_iff] at hinf
  congr 1
  unfold threadSuspendTimed
  by_cases hmode : p.mode = .normal
  · have hpositive : 0 < time := by omega
    have hlt := h hperiod hw hmode hpositive
    rw [TimeArith.kernel_add, add_of_inRange ((inRange_add_iff hnow hinf).mpr hlt)]
    rfl
  · rw [threadWait, if_neg (suspendedTwice_mode.trans_ne hmode)]
    rfl

theorem pokPortWait_fits {port : Nat} {sending byPriority : Bool} (hnow : InRange now)
    (h : p.MayWait c → (p.sched c).waitElem = none → WaitFits now duration) :
    p.pokPortWait c port sending duration now byPriority .kernel =
      p.pokPortWait c port sending duration now byPriority .unbounded := by
  refine ite_congr rfl (fun _ => rfl) fun hzero => waiting_congr fun hw => ?_
  congr 1
  unfold ArincPartition.threadWqAddCommon
  by_cases hlinked : (p.sched c).waitElem = none
  · rw [if_neg (not_not.mpr hlinked)]
    exact threadWaitCommon_fits (h hw hlinked) hnow
  · rw [if_pos hlinked]
    rfl

theorem msectionWait_fits {sec : Nat} (hnow : InRange now)
    (h : (TimedCall.msectionWait sec duration now).Fits p c) :
    p.msectionWait c sec duration now .kernel = p.msectionWait c sec duration now .unbounded := by
  refine ite_congr rfl (fun _ => rfl) fun howner => ite_congr rfl (fun _ => rfl) fun hfree =>
    ite_congr rfl (fun _ => rfl) fun hdonated => ?_
  rw [not_not] at howner hdonated
  rw [not_or] at hfree
  rw [threadWaitCommon_fits (h howner.1 howner.2 (by omega) hfree.2 hdonated) hnow]

/-- The times of a thread that is started, without the start itself -/
def armStart (arith : TimeArith) (p : ArincPartition) (t : Nat) (start : Int) : ArincPartition :=
  ((p.resetStarted t).setNextActivation t
    (arith.unsigned (arith.add start (p.sched t).period))).setStartDeadline t start arith

theorem setStartDeadline_kept {arith : TimeArith} {start : Int} :
    (p.setStartDeadline t start arith).toSectionSystem = p.toSectionSystem ∧
      (p.setStartDeadline t start arith).mode = p.mode ∧
      (p.setStartDeadline t start arith).sched = p.sched ∧
      (p.setStartDeadline t start arith).eligibleThreads = p.eligibleThreads := by
  unfold setStartDeadline
  split_ifs
  · exact ⟨rfl, rfl, rfl, rfl⟩
  · exact ⟨rfl, rfl, rfl, rfl⟩

theorem setNextActivation_kept {next : Int} :
    (p.setNextActivation t next).mode = p.mode ∧
      ((p.setNextActivation t next).sched t).suspended = (p.sched t).suspended ∧
      ((p.setNextActivation t next).sched t).timeCapacity = (p.sched t).timeCapacity ∧
      (p.setNextActivation t next).eligibleThreads = p.eligibleThreads ∧
      (p.setNextActivation t next).delayedEvents = p.delayedEvents := by
  unfold setNextActivation
  split_ifs
  · exact ⟨rfl, rfl, rfl, rfl, rfl⟩
  · simp [updateSched]

theorem armStart_mode {arith : TimeArith} {start : Int} :
    (armStart arith p t start).mode = p.mode :=
  setStartDeadline_kept.2.1.trans setNextActivation_kept.1

theorem armStart_mayRun {arith : TimeArith} {start : Int} :
    (armStart arith p t start).MayRun t ↔ p.MayRun t := by
  unfold MayRun armStart
  rw [setStartDeadline_kept.2.1, setStartDeadline_kept.2.2.1, setStartDeadline_kept.2.2.2,
    setNextActivation_kept.1, setNextActivation_kept.2.1, setNextActivation_kept.2.2.2.1]
  simp [resetStarted, updateSched, updateThread, onSections]

theorem setEligible_refused (h : ¬ p.MayRun t) :
    p.setEligibleUnlessSuspended t = .error (.failed .threadSetEligible) := by
  rw [MayRun, not_or] at h
  rw [setEligibleUnlessSuspended, if_neg h.1, threadSetEligible, if_neg h.2]

theorem threadStart_refused (h : ¬ p.MayRun t) :
    p.threadStart t = .error (.failed .threadSetEligible) :=
  setEligible_refused (p := p.setState t .runnable) h

theorem armStart_congr {start : Int}
    (hnext : 0 ≤ (p.sched t).period →
      SignedWord.add start (p.sched t).period % 2 ^ 64 = start + (p.sched t).period)
    (hdeadline : 0 ≤ (p.sched t).timeCapacity →
      SignedWord.add start (p.sched t).timeCapacity = start + (p.sched t).timeCapacity) :
    armStart .kernel p t start = armStart .unbounded p t start := by
  unfold armStart
  have hactivated : (p.resetStarted t).setNextActivation t
        (SignedWord.add start (p.sched t).period % 2 ^ 64) =
      (p.resetStarted t).setNextActivation t (start + (p.sched t).period) := by
    by_cases hperiod : 0 ≤ (p.sched t).period
    · rw [hnext hperiod]
    · have hinf : timeIsInfinity ((p.resetStarted t).sched t).period = true := by
        simpa [resetStarted, updateSched, updateThread, onSections, timeIsInfinity] using hperiod
      rw [setNextActivation, if_pos hinf, setNextActivation, if_pos hinf]
  rw [TimeArith.kernel_unsigned, TimeArith.kernel_add, hactivated]
  apply setStartDeadline_congr
  rw [setNextActivation_kept.2.2.1]
  simpa [resetStarted, updateSched, updateThread, onSections] using hdeadline

/-- What `Fits` says of a start in the `NORMAL` mode. -/
def StartFits (p : ArincPartition) (t : Nat) (delay now processingStart : Int) : Prop :=
  ((p.sched t).period < 0 → WaitFits now delay ∧
    (0 < delay ∨ p.MayRun t → p.DeadlineFits t (now + delay))) ∧
  (0 ≤ (p.sched t).period → delay < (p.sched t).period →
    (0 ≤ processingStart + delay ∧ processingStart + delay < 2 ^ 63) ∧
      p.DeadlineFits t (processingStart + delay))

theorem deadline_add {start : Int} (h : p.DeadlineFits t start) (hstart : InRange start)
    (hcapacity : 0 ≤ (p.sched t).timeCapacity) :
    SignedWord.add start (p.sched t).timeCapacity = start + (p.sched t).timeCapacity :=
  add_of_inRange ((inRange_add_iff hstart hcapacity).mpr (h hcapacity))

theorem threadDelayedStartInternal_fits {delay processingStart : Int} (hw : (p.sched t).Words)
    (hnow : InRange now) (hprocessing : InRange processingStart)
    (h : 0 ≤ delay → (p.threads t).state = .stopped → p.mode = .normal →
      StartFits p t delay now processingStart) :
    p.threadDelayedStartInternal t delay now processingStart .kernel =
      p.threadDelayedStartInternal t delay now processingStart .unbounded := by
  refine ite_congr rfl (fun _ => rfl) fun hdelay => ite_congr rfl (fun _ => rfl) fun hstopped =>
    ite_congr rfl (fun _ => rfl) fun hrefused => ite_congr rfl (fun _ => rfl) fun hmode => ?_
  rw [Bool.not_eq_true, finite_iff] at hdelay
  rw [not_not] at hstopped hmode
  obtain ⟨haperiodic, hperiodic⟩ := h hdelay hstopped hmode
  change returning .ok
      (if delay = 0 ∧ timeIsInfinity (p.sched t).period then
        (armStart .kernel p t (p.startTime t delay now processingStart .kernel)).threadStart t
      else (armStart .kernel p t
        (p.startTime t delay now processingStart .kernel)).threadWaitTimed t
          (p.startTime t delay now processingStart .kernel)) =
    returning .ok
      (if delay = 0 ∧ timeIsInfinity (p.sched t).period then
        (armStart .unbounded p t (p.startTime t delay now processingStart .unbounded)).threadStart t
      else (armStart .unbounded p t
        (p.startTime t delay now processingStart .unbounded)).threadWaitTimed t
          (p.startTime t delay now processingStart .unbounded))
  rw [startTime_word, startTime_unbounded, startBase]
  by_cases hperiod : (p.sched t).period < 0
  · obtain ⟨hwait, hdeadline⟩ := haperiodic hperiod
    have hinf : timeIsInfinity (p.sched t).period = true := infinity_iff.mpr hperiod
    rw [if_pos hinf]
    have hstart : InRange (now + delay) := by
      rw [inRange_add_iff hnow hdelay]
      rcases hdelay.eq_or_lt with he | hpositive
      · rw [← he, Int.add_zero]
        exact hnow.2
      · exact (hwait hpositive).2
    rw [add_of_inRange hstart]
    by_cases hruns : 0 < delay ∨ p.MayRun t
    · rw [armStart_congr (fun hfinite => absurd hfinite (by omega))
        (deadline_add (hdeadline hruns) hstart)]
    · rw [not_or] at hruns
      have hzero : delay = 0 := by omega
      rw [if_pos ⟨hzero, hinf⟩, if_pos ⟨hzero, hinf⟩,
        threadStart_refused (fun he => hruns.2 (armStart_mayRun.mp he)),
        threadStart_refused (fun he => hruns.2 (armStart_mayRun.mp he))]
  · have hfinite : 0 ≤ (p.sched t).period := by omega
    have hinf : ¬ timeIsInfinity (p.sched t).period = true := fun he => hperiod (infinity_iff.mp he)
    have hlt : delay < (p.sched t).period := by
      by_contra hle
      exact hrefused ⟨hinf, by omega⟩
    obtain ⟨hpoint, hdeadline⟩ := hperiodic hfinite hlt
    have hstart : InRange (processingStart + delay) := (inRange_add_iff hprocessing hdelay).mpr hpoint.2
    have hword := hw.period.2
    rw [if_neg hinf, add_of_inRange hstart,
      armStart_congr (fun _ => add_emod (by omega) (by omega)) (deadline_add hdeadline hstart)]

theorem pokThreadDelayedStart_fits {id : Nat} {delay processingStart : Int}
    (hw : (p.sched id).Words) (hnow : InRange now) (hprocessing : InRange processingStart)
    (h : (TimedCall.delayedStart id delay now processingStart).Fits p c) :
    p.pokThreadDelayedStart id delay now processingStart .kernel =
      p.pokThreadDelayedStart id delay now processingStart .unbounded := by
  refine ite_congr rfl (fun hthread => ite_congr rfl (fun _ => rfl) fun _ => ?_) fun _ => rfl
  exact threadDelayedStartInternal_fits hw hnow hprocessing (h hthread)

/-- The thread waits for its next activation. -/
def periodWaiting (p : ArincPartition) (c : Nat) (next : Int) : ArincPartition :=
  (((p.updateSched c fun th => { th with nextActivation := next }).setState c
    .waiting).threadSetUneligible c).threadDelayEvent c next .wakeUp

theorem endPeriod_waiting {next : Int} (hmode : p.mode = .normal) (hnext : 0 ≤ next) :
    (p.updateSched c fun th => { th with nextActivation := next }).threadWaitTimed c next =
      .ok (periodWaiting p c next) :=
  threadWaitTimed_normal hnext hmode

theorem periodWaiting_times {next : Int} :
    ((periodWaiting p c next).sched c).times = ((p.sched c).period, (p.sched c).timeCapacity,
      (p.sched c).delayedTime, next) := by
  have hmoves : Moves c (p.updateSched c fun th => { th with nextActivation := next })
      (periodWaiting p c next) :=
    (moves_setState.trans moves_threadSetUneligible).trans moves_threadDelayEvent
  rw [hmoves.times c, updateSched_sched, Function.update_self]
  rfl

theorem periodWaiting_capacity {next : Int} :
    ((periodWaiting p c next).sched c).timeCapacity = (p.sched c).timeCapacity :=
  (SchedThread.times_eq_iff.mp periodWaiting_times).2.1

theorem periodWaiting_next {next : Int} :
    ((periodWaiting p c next).sched c).nextActivation = next :=
  (SchedThread.times_eq_iff.mp periodWaiting_times).2.2.2

/-- A next activation that wraps twice is not negative. -/
theorem nextWord_nonneg (hw : (p.sched c).Words) (hperiod : 0 ≤ (p.sched c).period)
    (h : (p.sched c).nextActivation + (p.sched c).period < 2 ^ 63 ∨
      2 ^ 64 ≤ (p.sched c).nextActivation + (p.sched c).period) :
    0 ≤ SignedWord.add (p.sched c).nextActivation (p.sched c).period := by
  obtain ⟨hsigned, hnext⟩ := hw.nextActivation
  have hword := hw.period.2
  rcases h with hlt | hle
  · rw [add_of_inRange ⟨by omega, hlt⟩]
    omega
  · rw [add_of_wrapped ⟨by omega, by omega⟩]
    omega

theorem pokSchedEndPeriod_fits (hw : (p.sched c).Words) (h : TimedCall.endPeriod.Fits p c) :
    p.pokSchedEndPeriod c .kernel = p.pokSchedEndPeriod c .unbounded := by
  refine ite_congr rfl (fun _ => rfl) fun hperiod => waiting_congr fun hwaits => ?_
  rw [Bool.not_eq_true, finite_iff] at hperiod
  obtain ⟨hfits, hwraps⟩ := h hperiod hwaits
  obtain ⟨hsigned, hword⟩ := hw.nextActivation
  have hpositive : 0 ≤ (p.sched c).nextActivation + (p.sched c).period := by omega
  dsimp only
  congr 1
  by_cases hmode : p.mode = .normal
  · obtain ⟨hlt, hdeadline⟩ := hfits hmode
    have hcapacity := hw.timeCapacity.1
    have hnext : InRange ((p.sched c).nextActivation + (p.sched c).period) := ⟨by omega, hlt⟩
    have hsum : InRange ((p.sched c).nextActivation + (p.sched c).period +
        (p.sched c).timeCapacity) := ⟨by omega, hdeadline⟩
    simp only [TimeArith.kernel_add, TimeArith.kernel_unsigned, TimeArith.unbounded_add,
      TimeArith.unbounded_unsigned, add_of_inRange hnext,
      Int.emod_eq_of_lt hpositive (show _ < 2 ^ 64 by omega), endPeriod_waiting hmode hpositive,
      Except.map, periodWaiting_capacity, add_of_inRange hsum]
  · simp only [TimeArith.kernel_add, TimeArith.unbounded_add]
    rw [threadWaitTimed_stopped (nextWord_nonneg hw hperiod (hwraps hmode))
        (show (p.updateSched c _).mode ≠ .normal from hmode),
      threadWaitTimed_stopped hpositive (show (p.updateSched c _).mode ≠ .normal from hmode)]
    rfl

theorem pokSchedReplenish_limited {arith : TimeArith} {budget : Int}
    (herror : p.threadError ≠ some c) (hmode : p.mode = .normal)
    (hcapacity : 0 ≤ (p.sched c).timeCapacity) (hbudget : 0 ≤ budget) :
    p.pokSchedReplenish c budget now arith =
      if ¬ timeIsInfinity (p.sched c).period ∧
          (p.sched c).nextActivation ≤ arith.unsigned (arith.add now budget) then .ok (p, .mode)
      else .ok (p.threadSetDeadline c (arith.add now budget), .ok) := by
  rw [pokSchedReplenish, if_neg herror, if_neg (not_not.mpr hmode),
    if_neg (by simpa [infinity_iff] using hcapacity), if_neg (by simpa [infinity_iff] using hbudget)]

/-- A sum that fits may be negative: as an unsigned word it is then beyond every activation, and a
periodic process is refused. -/
theorem pokSchedReplenish_fits {budget : Int} (hw : (p.sched c).Words) (hnow : InRange now)
    (hbudget : InRange budget) (h : (TimedCall.replenish budget now).Fits p c) :
    p.pokSchedReplenish c budget now .kernel = p.pokSchedReplenish c budget now .unbounded ∨
      p.pokSchedReplenish c budget now .kernel = .ok (p, .mode) := by
  rw [or_iff_not_imp_right]
  intro hrefused
  refine ite_congr rfl (fun _ => rfl) fun herror => ite_congr rfl (fun _ => rfl) fun hmode =>
    ite_congr rfl (fun _ => rfl) fun hcapacity => ite_congr rfl (fun _ => rfl) fun hfinite => ?_
  rw [Bool.not_eq_true, finite_iff] at hcapacity hfinite
  rw [not_not] at hmode
  rw [pokSchedReplenish_limited herror hmode hcapacity hfinite] at hrefused
  have hlate := fun he => hrefused (if_pos he)
  rw [TimeArith.kernel_add, TimeArith.kernel_unsigned] at hlate ⊢
  obtain ⟨hsigned, -⟩ := hw.nextActivation
  have hword := hnow.2
  have hword' := hbudget.2
  have hpast : ¬ (¬ timeIsInfinity (p.sched c).period ∧
      (p.sched c).nextActivation ≤ now + budget) := by
    rintro ⟨hperiod, hle⟩
    exact hlate ⟨hperiod, by rwa [add_emod (by omega) (by omega)]⟩
  have hfits : now + budget < 2 ^ 63 := by
    refine (h herror hmode hcapacity hfinite).resolve_right fun ⟨hperiod, hle⟩ => hpast ⟨?_, hle⟩
    rwa [Bool.not_eq_true, finite_iff]
  rw [if_neg hlate, add_of_inRange ((inRange_add_iff hnow hfinite).mpr hfits)]
  exact (if_neg hpast).symm

theorem cancelWait_suspended : ((p.cancelWait t).sched t).suspended = (p.sched t).suspended := by
  unfold cancelWait threadWqRemove
  split_ifs
  · split
    · rfl
    · simp [setWaitResult, updateThread, onSections, updateSched]
  · rfl
  · rfl

theorem threadWakeUp_refused (h : ¬ ((p.threads t).state = .waiting ∧ p.MayRun t)) :
    p.threadWakeUp t = .error (.failed
      (if (p.threads t).state = .waiting then .threadSetEligible else .threadWakeUp)) := by
  unfold threadWakeUp
  split_ifs with hw
  · apply setEligible_refused
    have hcancelled : Moves t (p.setState t .runnable)
        (((p.setState t .runnable).threadDelayEventCancel t).cancelWait t) :=
      moves_delayedEventRemove.trans moves_cancelWait
    rw [MayRun, cancelWait_suspended, hcancelled.mode, cancelWait_eligibleThreads]
    exact fun hruns => h ⟨hw, hruns⟩
  · rfl

theorem map_congr_ok {m : Except PartitionExit α} {β : Type} {f g : α → β}
    (h : ∀ a, m = .ok a → f a = g a) : m.map f = m.map g := by
  cases m with
  | ok a => exact congrArg Except.ok (h a rfl)
  | error e => rfl

theorem setNextActivation_mayRun {next : Int} :
    (p.setNextActivation t next).MayRun t ↔ p.MayRun t := by
  unfold MayRun
  rw [setNextActivation_kept.1, setNextActivation_kept.2.1, setNextActivation_kept.2.2.2.1]

/-- A pass that ends has set the deadline of a thread that waits or that may run. A pass that
does not end fails whatever the sums are. -/
theorem releaseThread_fits {processingStart : Int} (hw : (p.sched t).Words) (hnow : InRange now)
    (hprocessing : InRange processingStart)
    (h : (TimedCall.release t now processingStart).Fits p c) :
    releaseThread now processingStart p t .kernel =
      releaseThread now processingStart p t .unbounded := by
  refine ite_congr rfl (fun _ => rfl) fun hstate => ?_
  obtain ⟨hlt, hrest⟩ := h hstate
  have hbase : InRange (p.startBase t now processingStart) := by
    unfold startBase
    split_ifs
    · exact hnow
    · exact hprocessing
  have hstart : InRange (p.startBase t now processingStart + (p.sched t).delayedTime) :=
    (inRange_add_iff hbase hw.delayed).mpr hlt
  dsimp only
  rw [startTime_word, startTime_unbounded, add_of_inRange hstart, TimeArith.kernel_unsigned,
    TimeArith.unbounded_unsigned]
  generalize p.startBase t now processingStart + (p.sched t).delayedTime = start at *
  by_cases hends : now < start ∨ (p.threads t).state = .waiting ∧ p.MayRun t
  · obtain ⟨hsigned, hdeadline⟩ := hrest hends
    have hactivated : p.setNextActivation t (start % 2 ^ 64) = p.setNextActivation t start := by
      refine ite_congr rfl (fun _ => rfl) fun hperiod => ?_
      rw [Int.emod_eq_of_lt (hsigned (by simpa [infinity_iff] using hperiod)) (by omega)]
    rw [hactivated]
    apply map_congr_ok
    intro q hq
    apply setStartDeadline_congr
    intro hcapacity
    have hkept : (q.sched t).timeCapacity = (p.sched t).timeCapacity := by
      split_ifs at hq
      · exact (threadWakeUp_moves hq).capacity.trans setNextActivation_kept.2.2.1
      · obtain rfl := Except.ok.inj hq
        exact moves_threadDelayEvent.capacity.trans setNextActivation_kept.2.2.1
    rw [hkept] at hcapacity ⊢
    exact deadline_add hdeadline hstart hcapacity
  · rw [not_or, not_lt] at hends
    have hrefused : ∀ next, ¬ (((p.setNextActivation t next).threads t).state = .waiting ∧
        (p.setNextActivation t next).MayRun t) := by
      intro next
      rw [setNextActivation_threads, setNextActivation_mayRun]
      exact hends.2
    rw [if_pos hends.1, if_pos hends.1, threadWakeUp_refused (hrefused _),
      threadWakeUp_refused (hrefused _), setNextActivation_threads, setNextActivation_threads]
    rfl

end TimeSums

namespace TimedCall

open TimeSums

variable {p q : ArincPartition} {c : Nat} {call : TimedCall}

theorem sums_of_fits (hp : (p.sched (call.thread c)).Words) (hwords : call.Words)
    (h : call.Fits p c) : call.kernel p c = call.result .unbounded p c ∨
      call.kernel p c = .ok (p, .mode) := by
  cases call with
  | sleep => exact Or.inl (pokThreadSleep_fits h hwords.2)
  | suspend => exact Or.inl (pokThreadSuspend_fits hwords.2 h)
  | portWait => exact Or.inl (pokPortWait_fits hwords.2 h)
  | msectionWait => exact Or.inl (msectionWait_fits hwords.2 h)
  | delayedStart => exact Or.inl (pokThreadDelayedStart_fits hp hwords.2.1 hwords.2.2 h)
  | endPeriod => exact Or.inl (pokSchedEndPeriod_fits hp h)
  | replenish => exact pokSchedReplenish_fits hp hwords.2 hwords.1 h
  | release =>
    exact Or.inl (congrArg (ArincPartition.returning .ok)
      (releaseThread_fits hp hwords.1 hwords.2 h))

end TimedCall

end Chpok
