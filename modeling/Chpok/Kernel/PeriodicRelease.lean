import Chpok.Kernel.ChoiceCalls

/-! The release of a periodic process. START, SET_PARTITION_MODE and PERIODIC_WAIT set a
timed event for it, and the check of the timed events releases the process when it is due. -/

namespace Chpok

theorem SchedThread.times_eq_iff {th : SchedThread} {period timeCapacity delayedTime next : Int} :
    th.times = (period, timeCapacity, delayedTime, next) ↔
      th.period = period ∧ th.timeCapacity = timeCapacity ∧ th.delayedTime = delayedTime ∧
        th.nextActivation = next := by
  simp only [SchedThread.times, Prod.mk.injEq]

namespace ArincPartition

open Outcome

variable {p q : ArincPartition} {t u c : Nat} {hm : PartitionHm} {kind other : DelayedKind}
  {time release delay now start : Int}

/-- The thread has one timed event of the kind. -/
def TimedAt (p : ArincPartition) (t : Nat) (kind : DelayedKind) (time : Int) : Prop :=
  ∀ r, ⟨t, kind, r⟩ ∈ p.delayedEvents ↔ r = time

/-- The thread is to be woken up at `release`. -/
structure Awaits (p : ArincPartition) (t : Nat) (release : Int) : Prop where
  event : p.TimedAt t .delayed release
  func : (p.sched t).delayedFunc = .wakeUp

theorem timedAt_delayedEventAdd : (p.delayedEventAdd t kind time).TimedAt t kind time := by
  intro r
  simp [mem_delayedEventAdd, delayedEventRemove]

theorem timedAt_delayedEventAdd_ne {time' : Int} (h : other ≠ kind) :
    (p.delayedEventAdd t kind time').TimedAt t other time ↔ p.TimedAt t other time := by
  apply forall_congr'
  intro r
  simp [mem_delayedEventAdd, delayedEventRemove, h]

theorem timedAt_of_events (h : q.delayedEvents = p.delayedEvents) :
    q.TimedAt t kind time ↔ p.TimedAt t kind time := by
  unfold TimedAt
  rw [h]

theorem TimedAt.inj {time' : Int} (h : p.TimedAt t kind time) (h' : p.TimedAt t kind time') :
    time = time' :=
  (h' time).mp ((h time).mpr rfl)

theorem Apart.timedAt (h : Apart t p q) : q.TimedAt t kind time ↔ p.TimedAt t kind time := by
  apply forall_congr'
  intro r
  rw [h.events _ rfl]

theorem Apart.awaits (h : Apart t p q) (ha : p.Awaits t release) : q.Awaits t release where
  event := h.timedAt.mpr ha.event
  func := by
    rw [h.sched]
    exact ha.func

/-! What sets the timed events of a thread -/

theorem threadDelayEvent_awaits : (p.threadDelayEvent t time .wakeUp).Awaits t time where
  event := timedAt_delayedEventAdd
  func := by simp [threadDelayEvent, delayedEventAdd]

theorem threadDelayEvent_deadline {func : DelayedFunc} (h : p.TimedAt t .deadline time) :
    (p.threadDelayEvent t release func).TimedAt t .deadline time :=
  (timedAt_delayedEventAdd_ne (by decide)).mpr h

theorem threadSetDeadline_awaits (h : p.Awaits t release) :
    (p.threadSetDeadline t time).Awaits t release where
  event := (timedAt_delayedEventAdd_ne (by decide)).mpr h.event
  func := h.func

theorem setStartDeadline_awaits (h : p.Awaits t release) :
    (p.setStartDeadline t start).Awaits t release := by
  unfold setStartDeadline
  split_ifs
  · exact h
  · exact threadSetDeadline_awaits h

theorem setStartDeadline_threads : (p.setStartDeadline t start).threads = p.threads := by
  unfold setStartDeadline
  split_ifs
  · rfl
  · rfl

theorem setNextActivation_threads {next : Int} :
    (p.setNextActivation t next).threads = p.threads := by
  unfold setNextActivation
  split_ifs
  · rfl
  · rfl

theorem threadSetUneligible_threads : (p.threadSetUneligible t).threads = p.threads :=
  invalidateIfFirst_threads

theorem threadSetUneligible_delayedEvents :
    (p.threadSetUneligible t).delayedEvents = p.delayedEvents :=
  invalidateIfFirst_delayedEvents

theorem threadWaitTimed_awaits (h : p.threadWaitTimed t time = .ok q) :
    (q.threads t).state = .waiting ∧ q.Awaits t time ∧
      ∀ d, p.TimedAt t .deadline d → q.TimedAt t .deadline d := by
  unfold threadWaitTimed threadWait at h
  split_ifs at h
  swap
  · cases h
  obtain rfl := Except.ok.inj h
  refine ⟨?_, threadDelayEvent_awaits, fun d hd => threadDelayEvent_deadline ?_⟩
  · change (((p.setState t .waiting).threadSetUneligible t).threads t).state = .waiting
    rw [threadSetUneligible_threads]
    simp [setState]
  · exact (timedAt_of_events threadSetUneligible_delayedEvents).mpr hd

/-! The assertion on infinite times -/

/-- Every exit but the one for an infinite time -/
def NotTimed (e : PartitionExit) : Prop := e ≠ .failed .threadWaitTimed

theorem notTimed_failed {a : Assertion} (h : a ≠ .threadWaitTimed) : NotTimed (.failed a) := by
  intro he
  injection he with he
  exact h he

theorem threadWaitTimed_notTimed (h : 0 ≤ time) :
    Sat NotTimed (fun _ => True) (p.threadWaitTimed t time) := by
  rw [threadWaitTimed, if_neg (by simpa [timeIsInfinity] using h)]
  apply Sat.map_exit
  exact Sat.ite (fun _ => trivial) fun _ => notTimed_failed (by decide)

theorem setEligibleUnlessSuspended_notTimed :
    Sat NotTimed (fun _ => True) (p.setEligibleUnlessSuspended t) :=
  Sat.ite (fun _ => trivial) fun _ => Sat.ite (fun _ => trivial) fun _ =>
    notTimed_failed (by decide)

theorem threadStart_notTimed : Sat NotTimed (fun _ => True) (p.threadStart t) :=
  setEligibleUnlessSuspended_notTimed

theorem threadWakeUp_notTimed : Sat NotTimed (fun _ => True) (p.threadWakeUp t) :=
  Sat.ite (fun _ => setEligibleUnlessSuspended_notTimed) fun _ => notTimed_failed (by decide)

/-- The switch to the `NORMAL` mode waits for no time that could be infinite. -/
theorem releaseThreads_notTimed {ts : List Nat} :
    Sat NotTimed (fun _ => True) (releaseThreads now start ts p) := by
  induction ts generalizing p with
  | nil => trivial
  | cons u ts ih =>
    refine Sat.bind (?_ : Sat NotTimed (fun _ => True) (p.releaseThread now start u)) fun q _ => ih
    refine Sat.ite (fun _ => trivial) fun _ => ?_
    apply Sat.map_exit
    exact Sat.ite (fun _ => threadWakeUp_notTimed) fun _ => trivial

/-- The period and the time capacity of a thread -/
structure PeriodicAttr (p : ArincPartition) (t : Nat) : Prop where
  period : timeIsInfinity (p.sched t).period = false
  capacity : timeIsInfinity (p.sched t).timeCapacity = false

theorem PeriodicAttr.of_eq (h : PeriodicAttr p t)
    (hperiod : (q.sched t).period = (p.sched t).period)
    (hcapacity : (q.sched t).timeCapacity = (p.sched t).timeCapacity) : PeriodicAttr q t :=
  ⟨hperiod ▸ h.period, hcapacity ▸ h.capacity⟩

theorem setNextActivation_periodic {next : Int} (h : PeriodicAttr p t) :
    p.setNextActivation t next = p.updateSched t fun th => { th with nextActivation := next } := by
  rw [setNextActivation, h.period, if_neg (by simp)]

theorem setStartDeadline_periodic (h : PeriodicAttr p t) :
    p.setStartDeadline t start =
      p.threadSetDeadline t (SignedWord.add start (p.sched t).timeCapacity) := by
  rw [setStartDeadline, h.capacity, if_neg (by simp), TimeArith.kernel_add]

theorem startTime_periodic (h : PeriodicAttr p t) :
    p.startTime t delay now start = SignedWord.add start delay := by
  rw [startTime, h.period, if_neg (by simp), TimeArith.kernel_add]

/-- What a periodic thread has when its next release has been set, to the time that the kernel
has computed for it. -/
structure Released (p q : ArincPartition) (t : Nat) (release next : Int) : Prop where
  period : (q.sched t).period = (p.sched t).period
  capacity : (q.sched t).timeCapacity = (p.sched t).timeCapacity
  next : (q.sched t).nextActivation = next
  deadline : q.TimedAt t .deadline (SignedWord.add release (p.sched t).timeCapacity)

theorem Released.of_times {delayedTime next : Int}
    (htimes : (q.sched t).times =
      ((p.sched t).period, (p.sched t).timeCapacity, delayedTime, next))
    (hdeadline : q.TimedAt t .deadline (SignedWord.add release (p.sched t).timeCapacity)) :
    Released p q t release next := by
  obtain ⟨hperiod, hcapacity, -, hnext⟩ := SchedThread.times_eq_iff.mp htimes
  exact ⟨hperiod, hcapacity, hnext, hdeadline⟩

/-- START and DELAYED_START in the `NORMAL` mode -/
theorem threadDelayedStartInternal_released (hattr : PeriodicAttr p t) (hmode : p.mode = .normal)
    (h : p.threadDelayedStartInternal t delay now start = .ok (q, .ok)) :
    Released p q t (SignedWord.add start delay)
        (SignedWord.add (SignedWord.add start delay) (p.sched t).period % 2 ^ 64) ∧
      q.Awaits t (SignedWord.add start delay) ∧ (q.threads t).state = .waiting := by
  unfold threadDelayedStartInternal at h
  have hstart : p.startTime t delay now start = SignedWord.add start delay :=
    startTime_periodic hattr
  have hreset : PeriodicAttr (p.resetStarted t) t :=
    hattr.of_eq (by simp [resetStarted, updateThread, onSections])
      (by simp [resetStarted, updateThread, onSections])
  split_ifs at h with hdelay hstopped hperiod hinit hnow
  · cases h
  · cases h
  · exact absurd hmode hinit
  · simp [hattr.period] at hnow
  · have hwait := ok_of_returning h
    rw [hstart, TimeArith.kernel_add, TimeArith.kernel_unsigned,
      setNextActivation_periodic hreset] at hwait
    generalize SignedWord.add start delay = release at hwait ⊢
    generalize SignedWord.add release (p.sched t).period % 2 ^ 64 = next at hwait ⊢
    generalize harmed : (p.resetStarted t).updateSched t (fun th => { th with
      nextActivation := next }) = armed at hwait
    have htimes : (armed.sched t).times = ((p.sched t).period, (p.sched t).timeCapacity,
        (p.sched t).delayedTime, next) := by
      subst harmed
      simp [SchedThread.times, resetStarted, updateThread, onSections]
    obtain ⟨hperiod', hcapacity, -, -⟩ := SchedThread.times_eq_iff.mp htimes
    have hattr' : PeriodicAttr armed t := hattr.of_eq hperiod' hcapacity
    rw [setStartDeadline_periodic hattr', hcapacity] at hwait
    obtain ⟨hstate, hawaits, hdeadline⟩ := threadWaitTimed_awaits hwait
    have hkept := ((threadWaitTimed_moves hwait).times t).trans htimes
    exact ⟨.of_times hkept (hdeadline _ timedAt_delayedEventAdd), hawaits, hstate⟩

/-- START fails the assertion on infinite times only if its sum has wrapped. -/
theorem threadDelayedStartInternal_notTimed (hattr : PeriodicAttr p t)
    (h : 0 ≤ SignedWord.add start delay) :
    Sat NotTimed (fun _ => True) (p.threadDelayedStartInternal t delay now start) := by
  unfold threadDelayedStartInternal
  refine Sat.ite (fun _ => notTimed_failed (by decide)) fun _ => Sat.ite (fun _ => trivial) fun _ =>
    Sat.ite (fun _ => trivial) fun _ => Sat.ite (fun _ => trivial) fun _ => ?_
  rw [startTime_periodic hattr]
  apply Sat.map_exit
  exact Sat.ite (fun _ => threadStart_notTimed) fun _ => threadWaitTimed_notTimed h

/-- A PERIODIC_WAIT that succeeds -/
theorem pokSchedEndPeriod_waited {next : Int}
    (hnext : SignedWord.add (p.sched t).nextActivation (p.sched t).period = next)
    (h : p.pokSchedEndPeriod t = .ok (q, .ok)) : timeIsInfinity (p.sched t).period = false ∧
      ∃ r, (p.updateSched t fun th => { th with
          nextActivation := next % 2 ^ 64 }).threadWaitTimed t next = .ok r ∧
        q = r.threadSetDeadline t (SignedWord.add next (r.sched t).timeCapacity) := by
  unfold pokSchedEndPeriod at h
  by_cases hperiod : timeIsInfinity (p.sched t).period = true
  · rw [if_pos hperiod] at h
    cases h
  · rw [if_neg hperiod] at h
    refine ⟨by simpa using hperiod, ?_⟩
    cases hallowed : p.threadIsWaitingAllowed t with
    | error e =>
      rw [hallowed] at h
      cases h
    | ok allowed =>
      rw [hallowed] at h
      cases allowed with
      | false => cases h
      | true =>
        have hwait := ok_of_returning h
        rw [TimeArith.kernel_add, hnext, TimeArith.kernel_unsigned] at hwait
        cases hr : (p.updateSched t fun th => { th with
            nextActivation := next % 2 ^ 64 }).threadWaitTimed t next with
        | error e =>
          rw [hr] at hwait
          cases hwait
        | ok r =>
          rw [hr] at hwait
          exact ⟨r, rfl, (Except.ok.inj hwait).symm⟩

theorem pokSchedEndPeriod_released {next : Int}
    (hnext : SignedWord.add (p.sched t).nextActivation (p.sched t).period = next)
    (h : p.pokSchedEndPeriod t = .ok (q, .ok)) :
    Released p q t next (next % 2 ^ 64) ∧ q.Awaits t next ∧ (q.threads t).state = .waiting := by
  obtain ⟨-, r, hr, rfl⟩ := pokSchedEndPeriod_waited hnext h
  have htimes : (((p.updateSched t fun th => { th with
        nextActivation := next % 2 ^ 64 }).sched t).times) =
      ((p.sched t).period, (p.sched t).timeCapacity, (p.sched t).delayedTime, next % 2 ^ 64) := by
    simp [SchedThread.times]
  obtain ⟨hstate, hawaits, -⟩ := threadWaitTimed_awaits hr
  have hkept := ((threadWaitTimed_moves hr).times t).trans htimes
  have hcapacity := (SchedThread.times_eq_iff.mp hkept).2.1
  refine ⟨.of_times hkept ?_, threadSetDeadline_awaits hawaits, hstate⟩
  rw [← hcapacity]
  exact timedAt_delayedEventAdd

/-- PERIODIC_WAIT fails the assertion on infinite times only if its sum has wrapped. -/
theorem pokSchedEndPeriod_notTimed
    (h : 0 ≤ SignedWord.add (p.sched t).nextActivation (p.sched t).period) :
    Sat NotTimed (fun _ => True) (p.pokSchedEndPeriod t) := by
  unfold pokSchedEndPeriod
  refine Sat.ite (fun _ => trivial) fun _ => ?_
  have hallowed : Sat NotTimed (fun _ => True) (p.threadIsWaitingAllowed t) :=
    Sat.ite (fun _ => trivial) fun _ => Sat.ite (fun _ => trivial) fun _ =>
      notTimed_failed (by decide)
  refine hallowed.bind fun allowed _ => Sat.ite (fun _ => trivial) fun _ => ?_
  exact (threadWaitTimed_notTimed h).map_exit.map_exit

theorem threadWaitTimed_normal (h : p.threadWaitTimed t time = .ok q) : p.mode = .normal := by
  unfold threadWaitTimed threadWait at h
  by_contra hmode
  rw [if_neg hmode] at h
  split_ifs at h
  cases h

/-- The switch to the `NORMAL` mode, for one thread -/
theorem releaseThread_released (hattr : PeriodicAttr p t) (hstopped : (p.threads t).state ≠ .stopped)
    (h : p.releaseThread now start t = .ok q) :
    Released p q t (SignedWord.add start (p.sched t).delayedTime)
        (SignedWord.add start (p.sched t).delayedTime % 2 ^ 64) ∧
      (SignedWord.add start (p.sched t).delayedTime ≤ now ∧ (q.threads t).state = .runnable ∨
        q.Awaits t (SignedWord.add start (p.sched t).delayedTime) ∧
          (q.threads t).state = (p.threads t).state) := by
  unfold releaseThread at h
  rw [if_neg hstopped, startTime_periodic hattr] at h
  dsimp only at h
  rw [setNextActivation_periodic hattr, TimeArith.kernel_unsigned] at h
  generalize SignedWord.add start (p.sched t).delayedTime = release at h ⊢
  generalize hactivated : p.updateSched t (fun th => { th with
    nextActivation := release % 2 ^ 64 }) = r at h
  have htimes : (r.sched t).times = ((p.sched t).period, (p.sched t).timeCapacity,
      (p.sched t).delayedTime, release % 2 ^ 64) := by
    subst hactivated
    simp [SchedThread.times]
  have hdeadline : ∀ {s : ArincPartition}, Moves t r s → Released p (s.setStartDeadline t release) t
      release (release % 2 ^ 64) := by
    intro s hmoves
    have hkept := (hmoves.times t).trans htimes
    obtain ⟨hperiod, hcapacity, -, -⟩ := SchedThread.times_eq_iff.mp hkept
    rw [setStartDeadline_periodic (hattr.of_eq hperiod hcapacity), hcapacity]
    exact .of_times hkept timedAt_delayedEventAdd
  by_cases hdue : release ≤ now
  · rw [if_pos hdue] at h
    cases hs : r.threadWakeUp t with
    | error e =>
      rw [hs] at h
      cases h
    | ok s =>
      rw [hs] at h
      obtain rfl := Except.ok.inj h
      refine ⟨hdeadline (threadWakeUp_moves hs), Or.inl ⟨hdue, ?_⟩⟩
      rw [setStartDeadline_threads]
      exact threadWakeUp_state hs
  · rw [if_neg hdue] at h
    obtain rfl := Except.ok.inj h
    refine ⟨hdeadline moves_threadDelayEvent, Or.inr ⟨?_, ?_⟩⟩
    · exact setStartDeadline_awaits threadDelayEvent_awaits
    · rw [setStartDeadline_threads]
      subst hactivated
      rfl

theorem Apart.released {p' q' : ArincPartition} {next : Int} (hp : Apart t p p') (hq : Apart t q q')
    (h : Released p' q t release next) : Released p q' t release next where
  period := by rw [hq.sched, h.period, hp.sched]
  capacity := by rw [hq.sched, h.capacity, hp.sched]
  next := by rw [hq.sched, h.next]
  deadline := by
    rw [hq.timedAt, ← hp.sched]
    exact h.deadline

theorem releaseThread_apart (hu : t ≠ u) :
    Sat (fun _ => True) (Apart t p) (p.releaseThread now start u) := by
  have hset : ∀ {r : ArincPartition} {next : Int}, Apart t r (r.setNextActivation u next) := by
    intro r next
    unfold setNextActivation
    split_ifs
    · exact Apart.refl t r
    · exact apart_updateSched hu
  have hdeadline : ∀ {r : ArincPartition} {time : Int}, Apart t r (r.setStartDeadline u time) := by
    intro r time
    unfold setStartDeadline
    split_ifs
    · exact Apart.refl t r
    · exact apart_delayedEventAdd hu
  refine Sat.ite (fun _ => Apart.refl t p) fun _ => ?_
  dsimp only
  generalize p.startTime u (p.sched u).delayedTime now start = time
  have hactivated : Apart t p (p.setNextActivation u (TimeArith.kernel.unsigned time)) := hset
  refine Sat.map (?_ : Sat (fun _ => True) (Apart t p) _) fun r hr => hr.trans hdeadline
  refine Sat.ite (fun _ => ?_) fun _ => ?_
  · exact Sat.of_forall fun r hr => hactivated.trans ((threadWakeUp_moves hr).apart t hu)
  · exact hactivated.trans (moves_threadDelayEvent.apart t hu)

theorem releaseThreads_apart {ts : List Nat} (ht : t ∉ ts) :
    Sat (fun _ => True) (Apart t p) (releaseThreads now start ts p) := by
  induction ts generalizing p with
  | nil => exact Apart.refl t p
  | cons u ts ih =>
    rw [List.mem_cons, not_or] at ht
    exact (releaseThread_apart ht.1).bind fun r hr => (ih ht.2).weaken fun _ hq => hr.trans hq

/-- The switch to the `NORMAL` mode -/
theorem releaseThreads_released {ts : List Nat} (hnodup : ts.Nodup) (ht : t ∈ ts)
    (hattr : PeriodicAttr p t) (hstopped : (p.threads t).state ≠ .stopped)
    (h : releaseThreads now start ts p = .ok q) :
    Released p q t (SignedWord.add start (p.sched t).delayedTime)
        (SignedWord.add start (p.sched t).delayedTime % 2 ^ 64) ∧
      (SignedWord.add start (p.sched t).delayedTime ≤ now ∧ (q.threads t).state = .runnable ∨
        q.Awaits t (SignedWord.add start (p.sched t).delayedTime) ∧
          (q.threads t).state = (p.threads t).state) := by
  induction ts generalizing p with
  | nil => cases ht
  | cons u ts ih =>
    obtain ⟨hout, hrest⟩ := List.nodup_cons.mp hnodup
    rw [releaseThreads] at h
    cases hr : p.releaseThread now start u with
    | error e =>
      rw [hr] at h
      cases h
    | ok r =>
      rw [hr] at h
      by_cases hut : u = t
      · subst hut
        obtain ⟨hreleased, hfires⟩ := releaseThread_released hattr hstopped hr
        have hapart : Apart u r q := (releaseThreads_apart hout).of_ok h
        refine ⟨(Apart.refl u p).released hapart hreleased, ?_⟩
        rw [hapart.thread]
        exact hfires.imp_right fun hw => ⟨hapart.awaits hw.1, hw.2⟩
      · have hapart : Apart t p r := (releaseThread_apart (Ne.symm hut)).of_ok hr
        have hmem : t ∈ ts := (List.mem_cons.mp ht).resolve_left (Ne.symm hut)
        have hattr' : PeriodicAttr r t := hattr.of_eq (by rw [hapart.sched]) (by rw [hapart.sched])
        obtain ⟨hreleased, hfires⟩ := ih hrest hmem hattr' (by rwa [hapart.thread]) h
        rw [hapart.sched] at hreleased hfires
        rw [hapart.thread] at hfires
        exact ⟨hapart.released (Apart.refl t q) hreleased, hfires⟩

/-! The check of the timed events -/

theorem processEvent_apart {event : DelayedEvent}
    (hne : event.thread = t → event.kind ≠ .delayed) :
    Sat (fun _ => True) (Apart t p) (processEvent hm p event) := by
  unfold processEvent
  split
  · apply Sat.bind_of_forall
    intro processed
    refine Sat.ite (fun _ => Apart.refl t p) fun _ => Sat.ite (fun _ => trivial) fun _ =>
      Sat.ite (fun _ => ?_) fun _ => ?_
    · exact ⟨rfl, rfl, fun _ _ => Iff.rfl⟩
    · exact ⟨rfl, rfl, fun _ _ => Iff.rfl⟩
  · rename_i hkind
    have hu : t ≠ event.thread := fun he => hne he.symm hkind
    split
    · exact Sat.of_forall fun q hq => (threadWakeUp_moves hq).apart t hu
    · exact Sat.of_forall fun q hq => (threadResumeWaited_moves hq).apart t hu

theorem setEligibleUnlessSuspended_delayedEvents (h : p.setEligibleUnlessSuspended t = .ok q) :
    q.delayedEvents = p.delayedEvents := by
  unfold setEligibleUnlessSuspended threadSetEligible at h
  split_ifs at h
  · obtain rfl := Except.ok.inj h
    rfl
  · obtain rfl := Except.ok.inj h
    exact invalidateIfFirst_delayedEvents

theorem processEvent_length {event : DelayedEvent} :
    Sat (fun _ => True) (fun q => q.delayedEvents.length ≤ p.delayedEvents.length)
      (processEvent hm p event) := by
  have hsame : ∀ {q : ArincPartition}, q.delayedEvents = p.delayedEvents →
      q.delayedEvents.length ≤ p.delayedEvents.length :=
    fun h => Nat.le_of_eq (congrArg List.length h)
  unfold processEvent
  split
  · apply Sat.bind_of_forall
    intro processed
    exact Sat.ite (fun _ => hsame rfl) fun _ => Sat.ite (fun _ => trivial) fun _ =>
      Sat.ite (fun _ => hsame rfl) fun _ => hsame rfl
  · split
    · refine Sat.ite (fun _ => Sat.of_forall fun q hq => ?_) fun _ => trivial
      rw [setEligibleUnlessSuspended_delayedEvents hq, cancelWait_delayedEvents]
      exact List.length_filter_le _ _
    · refine Sat.ite (fun _ => Sat.of_forall fun q hq => hsame ?_) fun _ => trivial
      unfold threadSetEligible at hq
      split_ifs at hq
      obtain rfl := Except.ok.inj hq
      exact invalidateIfFirst_delayedEvents

/-- A thread that runs is not woken up. -/
theorem delayedEventQueueCheck_runnable {n : Nat} (h : (p.threads t).state = .runnable) :
    Sat (fun _ => True) (fun q => (q.threads t).state = .runnable)
      (delayedEventQueueCheck hm now n p) := by
  induction n generalizing p with
  | zero => exact h
  | succ n ih =>
    rw [delayedEventQueueCheck]
    split
    · exact h
    · rename_i event rest _
      refine Sat.ite (fun _ => h) fun _ => ?_
      by_cases hevent : event.thread = t ∧ event.kind = .delayed
      · have hfails : processEvent hm { p with delayedEvents := rest } event =
            .error (.failed .threadWakeUp) ∨
              processEvent hm { p with delayedEvents := rest } event =
                .error (.failed .threadResumeWaited) := by
          unfold processEvent
          rw [hevent.2, hevent.1]
          cases (p.sched t).delayedFunc with
          | wakeUp =>
            left
            simp [threadWakeUp, h]
          | resumeWaited =>
            right
            simp [threadResumeWaited, h]
        rcases hfails with he | he
        · rw [he]
          trivial
        · rw [he]
          trivial
      · rw [not_and] at hevent
        apply (processEvent_apart hevent).bind
        intro q hq
        apply ih
        rw [hq.thread]
        exact h

/-- A check of the timed events wakes the thread up when its release has come. -/
theorem Awaits.check {n : Nat} (ha : p.Awaits t release) (hstate : (p.threads t).state = .waiting)
    (hordered : p.OrderedEvents) (hn : p.delayedEvents.length ≤ n) :
    Sat (fun _ => True) (fun q => (q.threads t).state = .runnable ↔ release ≤ now)
      (delayedEventQueueCheck hm now n p) := by
  induction n generalizing p with
  | zero =>
    have hnil : p.delayedEvents = [] := List.length_eq_zero_iff.mp (Nat.le_zero.mp hn)
    have hmem := (ha.event release).mpr rfl
    rw [hnil] at hmem
    cases hmem
  | succ n ih =>
    have hmem := (ha.event release).mpr rfl
    unfold OrderedEvents at hordered
    rw [delayedEventQueueCheck]
    split
    · rename_i hnil
      rw [hnil] at hmem
      cases hmem
    · rename_i event rest hevents
      rw [hevents] at hordered hmem hn
      refine Sat.ite (fun hearly => ?_) fun hdue => ?_
      · have hle : event.timepoint ≤ release := by
          rcases List.mem_cons.mp hmem with he | hmem
          · rw [← he]
          · exact List.rel_of_pairwise_cons hordered hmem
        rw [sat_ok, hstate]
        exact iff_of_false (by simp) (by omega)
      · by_cases hevent : event.thread = t ∧ event.kind = .delayed
        · have hrelease : event.timepoint = release := by
            apply (ha.event event.timepoint).mp
            rw [hevents, ← hevent.1, ← hevent.2]
            exact List.mem_cons_self
          have hwoken : Sat (fun _ => True) (fun q => (q.threads t).state = .runnable)
              (processEvent hm { p with delayedEvents := rest } event) := by
            unfold processEvent
            rw [hevent.2, hevent.1]
            dsimp only
            rw [ha.func]
            exact Sat.of_forall fun q hq => threadWakeUp_state hq
          apply hwoken.bind
          intro q hq
          apply (delayedEventQueueCheck_runnable hq).weaken
          exact fun r hr => iff_of_true hr (by omega)
        · rw [not_and] at hevent
          have hdropped : Awaits { p with delayedEvents := rest } t release := by
            refine ⟨fun r => Iff.trans ?_ (ha.event r), ha.func⟩
            rw [hevents, List.mem_cons, or_iff_right]
            rintro rfl
            exact hevent rfl rfl
          have hprocessed : Sat (fun _ => True)
              (fun q => processEvent hm { p with delayedEvents := rest } event = .ok q)
              (processEvent hm { p with delayedEvents := rest } event) := Sat.of_forall fun _ hq => hq
          apply hprocessed.bind
          intro q hq
          have hapart := (processEvent_apart hevent).of_ok hq
          have hlength := processEvent_length.of_ok hq
          have hkeeps : KeepsChoice (fun _ => False) { p with delayedEvents := rest } q :=
            processEvent_keeps.of_ok hq
          apply ih (hapart.awaits hdropped) (by rw [hapart.thread, hstate]) (hkeeps.ordered hordered.of_cons)
          exact Nat.le_trans hlength (Nat.le_of_succ_le_succ hn)

end ArincPartition

end Chpok
