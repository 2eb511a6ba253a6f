import Chpok.Kernel.ArincSystem
import Chpok.Kernel.TimeExact

/-! The new timed events of the calls that add times, and what is left of a sum that does not
fit: the result tells all the times that it was computed with. -/

namespace Chpok

open Outcome SignedWord

namespace TimeSums

open ArincPartition

variable {p q r : ArincPartition} {t c : Nat} {time now duration : Int} {ok : DelayedEvent → Prop}

/-- All new events are of the given kind. -/
def Arms (ok : DelayedEvent → Prop) (p q : ArincPartition) : Prop :=
  ∀ event ∈ q.delayedEvents, event ∈ p.delayedEvents ∨ ok event

theorem arms_of_events (h : q.delayedEvents = p.delayedEvents) : Arms ok p q :=
  fun _ he => Or.inl (h ▸ he)

theorem Arms.trans (h : Arms ok p q) (h' : Arms ok q r) : Arms ok p r := by
  intro event he
  rcases h' event he with hq | hok
  · exact h event hq
  · exact Or.inr hok

theorem arms_delayedEventAdd {kind : DelayedKind} (h : ok ⟨t, kind, time⟩) :
    Arms ok p (p.delayedEventAdd t kind time) := by
  intro event he
  rcases mem_delayedEventAdd.mp he with rfl | he
  · exact Or.inr h
  · exact Or.inl (List.mem_of_mem_filter he)

theorem arms_delayedEventRemove {kind : DelayedKind} : Arms ok p (p.delayedEventRemove t kind) :=
  fun _ he => Or.inl (List.mem_of_mem_filter he)

theorem threadWait_arms : Sat NotTimed (Arms ok p) (p.threadWait t) := by
  unfold threadWait
  apply Sat.ite
  · exact fun _ => arms_of_events threadSetUneligible_delayedEvents
  · exact fun _ => notTimed_failed (by decide)

theorem threadWaitTimed_arms (hpoint : 0 ≤ time) (h : ok ⟨t, .delayed, time⟩) :
    Sat NotTimed (Arms ok p) (p.threadWaitTimed t time) := by
  rw [threadWaitTimed, if_neg (by simpa [infinity_iff] using hpoint)]
  exact threadWait_arms.map fun q hq => hq.trans (arms_delayedEventAdd h)

theorem threadWaitCommon_arms (hfits : WaitFits now duration)
    (h : 0 < duration → ok ⟨t, .delayed, now + duration⟩) :
    Sat NotTimed (Arms ok p) (p.threadWaitCommon t duration now .unbounded) := by
  refine Sat.ite (fun _ => notTimed_failed (by decide)) fun hzero =>
    Sat.ite (fun _ => threadWait_arms) fun hfinite => ?_
  rw [Bool.not_eq_true, finite_iff] at hfinite
  have hpositive : 0 < duration := by omega
  exact threadWaitTimed_arms (hfits hpositive).1 (h hpositive)

theorem threadSetEligible_arms : Sat NotTimed (Arms ok p) (p.threadSetEligible t) :=
  Sat.ite (fun _ => arms_of_events invalidateIfFirst_delayedEvents) fun _ =>
    notTimed_failed (by decide)

theorem setEligibleUnlessSuspended_arms :
    Sat NotTimed (Arms ok p) (p.setEligibleUnlessSuspended t) :=
  Sat.ite (fun _ => arms_of_events rfl) fun _ => threadSetEligible_arms

theorem threadYield_arms : Sat NotTimed (Arms ok p) (p.threadYield t) := by
  refine Sat.ite (fun _ => ?_) fun _ => arms_of_events rfl
  apply threadSetEligible_arms.weaken
  exact fun q hq => (arms_of_events threadSetUneligible_delayedEvents).trans hq

theorem threadWakeUp_arms : Sat NotTimed (Arms ok p) (p.threadWakeUp t) := by
  refine Sat.ite (fun _ => ?_) fun _ => notTimed_failed (by decide)
  apply setEligibleUnlessSuspended_arms.weaken
  intro q hq
  have hcancelled : Arms ok p
      (((p.setState t .runnable).threadDelayEventCancel t).cancelWait t) :=
    Arms.trans (q := (p.setState t .runnable).threadDelayEventCancel t) arms_delayedEventRemove
      (arms_of_events cancelWait_delayedEvents)
  exact hcancelled.trans hq

theorem threadWakeUp_exits : Sat NotTimed (Arms (fun _ => True) p) (p.threadWakeUp t) :=
  threadWakeUp_arms

theorem setStartDeadline_arms {start : Int}
    (h : 0 ≤ (p.sched t).timeCapacity → ok ⟨t, .deadline, start + (p.sched t).timeCapacity⟩) :
    Arms ok p (p.setStartDeadline t start .unbounded) := by
  unfold setStartDeadline
  split_ifs with hinf
  · exact arms_of_events rfl
  · rw [Bool.not_eq_true, finite_iff] at hinf
    exact arms_delayedEventAdd (h hinf)

theorem arms_returning {errno : PokErrno} {m : Except PartitionExit ArincPartition}
    (h : Sat NotTimed (Arms ok p) m) :
    Sat NotTimed (fun r => Arms ok p r.1) (returning errno m) :=
  h.map fun _ hq => hq

theorem waiting_sat {m : Except PartitionExit (ArincPartition × PokErrno)}
    (h : p.MayWait c → Sat NotTimed (fun r => Arms ok p r.1) m) :
    Sat NotTimed (fun r => Arms ok p r.1) ((p.threadIsWaitingAllowed c).bind fun allowed =>
      if ¬ allowed then .ok (p, .mode) else m) := by
  unfold threadIsWaitingAllowed
  split_ifs with hfree hrest
  · exact arms_of_events rfl
  · rw [not_or] at hfree
    exact h ⟨by omega, hfree.2, hrest.1, hrest.2⟩
  · exact notTimed_failed (by decide)

end TimeSums

namespace TimedCall

open TimeSums ArincPartition

variable {p q : ArincPartition} {t c : Nat} {call : TimedCall}

theorem respects_wait {base duration : Int} (h : ∀ b d, call.wait p c = some (t, b, d) → b = base ∧ d = duration) :
    call.Respects p c ⟨t, .delayed, base + duration⟩ := by
  intro b d hwait later hlater
  obtain ⟨rfl, rfl⟩ := h b d hwait
  dsimp only at hlater
  omega

theorem respects_deadline (start : Int) {time : Int}
    (htime : 0 ≤ (p.sched t).timeCapacity → start ≤ time)
    (h : ∀ s, call.start p c = some (t, s) → s = start) :
    call.Respects p c ⟨t, .deadline, time⟩ := by
  intro s hs hcapacity
  rw [h s hs]
  exact htime hcapacity

theorem sleep_arms {time now : Int} (h : (sleep time now).Fits p c) :
    Sat NotTimed (fun r => Arms ((sleep time now).Respects p c) p r.1)
      (p.pokThreadSleep c time now .unbounded) := by
  apply waiting_sat
  intro hw
  refine Sat.ite (fun _ => threadYield_arms.map fun _ hq => hq) fun _ => ?_
  refine (threadWaitCommon_arms (h hw) fun _ => ?_).map fun _ hq => hq
  apply respects_wait
  intro b d he
  simp_all [wait]

theorem suspend_arms {time now : Int} :
    Sat NotTimed (fun r => Arms ((suspend time now).Respects p c) p r.1)
      (p.pokThreadSuspend c time now .unbounded) := by
  have hsuspended : Arms ((suspend time now).Respects p c) p (p.threadSuspend c) :=
    arms_of_events threadSetUneligible_delayedEvents
  refine Sat.ite (fun _ => arms_of_events rfl) fun _ => waiting_sat fun _ => ?_
  refine Sat.ite (fun _ => arms_of_events rfl) fun _ => Sat.ite (fun _ => hsuspended) fun _ => ?_
  have hagain : Arms ((suspend time now).Respects p c) (p.threadSuspend c)
      (((p.threadSuspend c).setSuspended c true).threadSetUneligible c) :=
    arms_of_events threadSetUneligible_delayedEvents
  have hwaiting : Sat NotTimed (Arms ((suspend time now).Respects p c) p)
      ((((p.threadSuspend c).setSuspended c true).threadSetUneligible c).threadWait c) :=
    threadWait_arms.weaken fun q hq => (hsuspended.trans hagain).trans hq
  apply arms_returning
  refine hwaiting.map fun q hq => hq.trans (arms_delayedEventAdd ?_)
  apply respects_wait
  intro b d he
  simp_all [wait]

theorem portWait_arms {port : Nat} {sending byPriority : Bool} {timeout now : Int}
    (h : (portWait port sending timeout now byPriority).Fits p c) :
    Sat NotTimed (fun r => Arms ((portWait port sending timeout now byPriority).Respects p c) p r.1)
      (p.pokPortWait c port sending timeout now byPriority .unbounded) := by
  refine Sat.ite (fun _ => arms_of_events rfl) fun _ => waiting_sat fun hw => ?_
  apply arms_returning
  unfold ArincPartition.threadWqAddCommon
  by_cases hlinked : (p.sched c).waitElem = none
  · rw [if_neg (not_not.mpr hlinked)]
    refine (threadWaitCommon_arms (h hw hlinked) fun _ => ?_).weaken fun q hq =>
      Arms.trans (arms_of_events ?_) hq
    · apply respects_wait
      intro b d he
      simp_all [wait]
    · split_ifs
      · rfl
      · rfl
  · rw [if_pos hlinked]
    exact notTimed_failed (by decide)

theorem msectionWait_arms {sec : Nat} {timeout now : Int}
    (h : (msectionWait sec timeout now).Fits p c) :
    Sat NotTimed (fun r => Arms ((msectionWait sec timeout now).Respects p c) p r.1)
      (p.msectionWait c sec timeout now .unbounded) := by
  refine Sat.ite (fun _ => notTimed_failed (by decide)) fun howner =>
    Sat.ite (fun _ => arms_of_events rfl) fun hfree =>
      Sat.ite (fun _ => arms_of_events rfl) fun hdonated => ?_
  rw [not_not] at howner hdonated
  rw [not_or] at hfree
  apply arms_returning
  refine (threadWaitCommon_arms (h howner.1 howner.2 (by omega) hfree.2 hdonated) fun _ => ?_).map
    fun q hq => Arms.trans (arms_of_events rfl) (hq.trans (arms_of_events rfl))
  apply respects_wait
  intro b d he
  simp_all [wait]

theorem endPeriod_arms (hwords : (p.sched c).Words) :
    Sat NotTimed (fun r => Arms (endPeriod.Respects p c) p r.1) (p.pokSchedEndPeriod c .unbounded) := by
  refine Sat.ite (fun _ => arms_of_events rfl) fun hperiod => waiting_sat fun _ => ?_
  rw [Bool.not_eq_true, finite_iff] at hperiod
  have hpoint : 0 ≤ (p.sched c).nextActivation + (p.sched c).period := by
    have hsigned := hwords.nextActivation.1
    omega
  apply arms_returning
  have hwaits : Sat NotTimed (fun q => Arms (endPeriod.Respects p c) p q ∧
      (q.sched c).timeCapacity = (p.sched c).timeCapacity)
      ((p.updateSched c fun th => { th with
        nextActivation := (p.sched c).nextActivation + (p.sched c).period }).threadWaitTimed c
          ((p.sched c).nextActivation + (p.sched c).period)) := by
    by_cases hmode : p.mode = .normal
    · rw [endPeriod_waiting hmode hpoint]
      refine ⟨?_, periodWaiting_capacity⟩
      have hwaiting : Arms (endPeriod.Respects p c) p
          (((p.updateSched c fun th => { th with
            nextActivation := (p.sched c).nextActivation + (p.sched c).period }).setState c
              .waiting).threadSetUneligible c) :=
        arms_of_events threadSetUneligible_delayedEvents
      apply hwaiting.trans
      apply arms_delayedEventAdd
      apply respects_wait
      intro b d he
      simp_all [wait]
    · rw [threadWaitTimed_stopped hpoint (show (p.updateSched c _).mode ≠ .normal from hmode)]
      exact notTimed_failed (by decide)
  refine hwaits.map fun q hq => hq.1.trans (arms_delayedEventAdd ?_)
  apply respects_deadline ((p.sched c).nextActivation + (p.sched c).period)
  · intro hcapacity
    rw [hq.2]
    exact Int.le_add_of_nonneg_right hcapacity
  · intro s hs
    simp_all [start]

theorem replenish_arms {budget now : Int} :
    Sat NotTimed (fun r => Arms ((replenish budget now).Respects p c) p r.1)
      (p.pokSchedReplenish c budget now .unbounded) := by
  refine Sat.ite (fun _ => arms_of_events rfl) fun _ => Sat.ite (fun _ => arms_of_events rfl) fun _ =>
    Sat.ite (fun _ => arms_of_events rfl) fun _ => Sat.ite (fun _ => ?_) fun hfinite => ?_
  · exact Sat.ite (fun _ => arms_of_events rfl) fun _ => arms_delayedEventRemove
  · refine Sat.ite (fun _ => arms_of_events rfl) fun _ => arms_delayedEventAdd ?_
    rw [Bool.not_eq_true, finite_iff] at hfinite
    apply respects_deadline now
    · exact fun _ => Int.le_add_of_nonneg_right hfinite
    · intro s hs
      simp_all [start]

theorem release_arms {now processingStart : Int} :
    Sat NotTimed (fun r => Arms ((release t now processingStart).Respects p c) p r)
      (releaseThread now processingStart p t .unbounded) := by
  refine Sat.ite (fun _ => arms_of_events rfl) fun _ => ?_
  dsimp only
  rw [startTime_unbounded]
  have hactivated : Arms ((release t now processingStart).Respects p c) p (p.setNextActivation t
      (p.startBase t now processingStart + (p.sched t).delayedTime)) :=
    arms_of_events setNextActivation_kept.2.2.2.2
  have hstarted : Sat NotTimed (fun q => Arms ((release t now processingStart).Respects p c) p q ∧
      (q.sched t).timeCapacity = (p.sched t).timeCapacity)
      (if p.startBase t now processingStart + (p.sched t).delayedTime ≤ now then
        (p.setNextActivation t
          (p.startBase t now processingStart + (p.sched t).delayedTime)).threadWakeUp t
      else .ok ((p.setNextActivation t
        (p.startBase t now processingStart + (p.sched t).delayedTime)).threadDelayEvent t
          (p.startBase t now processingStart + (p.sched t).delayedTime) .wakeUp)) := by
    apply Sat.ite
    · intro _
      cases hq : (p.setNextActivation t
          (p.startBase t now processingStart + (p.sched t).delayedTime)).threadWakeUp t with
      | ok q =>
        have harms : Arms ((release t now processingStart).Respects p c) _ q :=
          threadWakeUp_arms.of_ok hq
        exact ⟨hactivated.trans harms,
          (threadWakeUp_moves hq).capacity.trans setNextActivation_kept.2.2.1⟩
      | error e => exact (threadWakeUp_exits.of_error hq : NotTimed e)
    · intro _
      refine ⟨hactivated.trans (arms_delayedEventAdd ?_),
        moves_threadDelayEvent.capacity.trans setNextActivation_kept.2.2.1⟩
      apply respects_wait
      intro b d he
      simp_all [wait]
  refine hstarted.map fun q hq => hq.1.trans (setStartDeadline_arms fun hcapacity => ?_)
  apply respects_deadline (p.startBase t now processingStart + (p.sched t).delayedTime)
  · exact fun _ => Int.le_add_of_nonneg_right hcapacity
  · intro s hs
    simp_all [start]

theorem armStart_arms {s : Int} (h : 0 ≤ (p.sched t).timeCapacity → ok ⟨t, .deadline, s +
    (p.sched t).timeCapacity⟩) : Arms ok p (armStart .unbounded p t s) := by
  have hactivated : Arms ok p ((p.resetStarted t).setNextActivation t (s + (p.sched t).period)) :=
    Arms.trans (q := p.resetStarted t) (arms_of_events rfl)
      (arms_of_events setNextActivation_kept.2.2.2.2)
  have hcapacity : (((p.resetStarted t).setNextActivation t (s + (p.sched t).period)).sched
      t).timeCapacity = (p.sched t).timeCapacity := by
    rw [setNextActivation_kept.2.2.1]
    simp [resetStarted, updateSched, updateThread, onSections]
  apply hactivated.trans
  apply setStartDeadline_arms
  rwa [hcapacity]

theorem delayedStart_arms {id : Nat} {delay now processingStart : Int}
    (h : (delayedStart id delay now processingStart).Fits p c) :
    Sat NotTimed (fun r => Arms ((delayedStart id delay now processingStart).Respects p c) p r.1)
      (p.pokThreadDelayedStart id delay now processingStart .unbounded) := by
  refine Sat.ite (fun hthread => Sat.ite (fun _ => arms_of_events rfl) fun hdelay => ?_)
    fun _ => arms_of_events rfl
  refine Sat.ite (fun he => absurd he hdelay) fun _ => Sat.ite (fun _ => arms_of_events rfl)
    fun hstopped => Sat.ite (fun _ => arms_of_events rfl) fun hrefused =>
      Sat.ite (fun _ => arms_of_events rfl) fun hmode => ?_
  rw [Bool.not_eq_true, finite_iff] at hdelay
  rw [not_not] at hstopped hmode
  obtain ⟨haperiodic, hperiodic⟩ := h hthread hdelay hstopped hmode
  apply arms_returning
  change Sat NotTimed (Arms ((delayedStart id delay now processingStart).Respects p c) p)
    (if delay = 0 ∧ timeIsInfinity (p.sched id).period then
      (armStart .unbounded p id (p.startTime id delay now processingStart .unbounded)).threadStart id
    else (armStart .unbounded p id
      (p.startTime id delay now processingStart .unbounded)).threadWaitTimed id
        (p.startTime id delay now processingStart .unbounded))
  rw [startTime_unbounded]
  have harmed : Arms ((delayedStart id delay now processingStart).Respects p c) p
      (armStart .unbounded p id (p.startBase id now processingStart + delay)) := by
    apply armStart_arms
    intro hcapacity
    apply respects_deadline (p.startBase id now processingStart + delay)
    · exact fun _ => Int.le_add_of_nonneg_right hcapacity
    · intro s hs
      simp_all [start]
  refine Sat.ite (fun _ => ?_) fun hwaits => ?_
  · apply setEligibleUnlessSuspended_arms.weaken
    exact fun q hq => harmed.trans (Arms.trans (q := (armStart .unbounded p id
      (p.startBase id now processingStart + delay)).setState id .runnable) (arms_of_events rfl) hq)
  · have hpoint : 0 ≤ p.startBase id now processingStart + delay := by
      unfold startBase
      by_cases hinf : timeIsInfinity (p.sched id).period = true
      · have hpositive : 0 < delay := by
          by_contra hle
          exact hwaits ⟨by omega, hinf⟩
        rw [if_pos hinf]
        exact ((haperiodic (infinity_iff.mp hinf)).1 hpositive).1
      · have hlt : delay < (p.sched id).period := by
          by_contra hle
          exact hrefused ⟨hinf, by omega⟩
        rw [if_neg hinf]
        exact (hperiodic (by simpa [infinity_iff] using hinf) hlt).1.1
    refine (threadWaitTimed_arms hpoint ?_).weaken fun q hq => harmed.trans hq
    apply respects_wait
    intro b d he
    simp_all [wait]

theorem result_arms (hp : (p.sched (call.thread c)).Words) (h : call.Fits p c) :
    Sat NotTimed (fun r => Arms (call.Respects p c) p r.1) (call.result .unbounded p c) := by
  cases call with
  | sleep => exact sleep_arms h
  | suspend => exact suspend_arms
  | portWait => exact portWait_arms h
  | msectionWait => exact msectionWait_arms h
  | delayedStart => exact delayedStart_arms h
  | endPeriod => exact endPeriod_arms hp
  | replenish => exact replenish_arms
  | release => exact release_arms.map fun _ hq => hq

theorem exact_of_fits (hp : (p.sched (call.thread c)).Words) (hwords : call.Words)
    (h : call.Fits p c) : call.Exact p c := by
  have harms := result_arms hp h
  rcases sums_of_fits hp hwords h with hsums | hrefused
  · rw [← hsums] at harms
    refine ⟨Or.inl hsums, fun he => harms.of_error he rfl, ?_⟩
    intro q errno hq event he hnew
    exact (harms.of_ok hq event he).resolve_left hnew
  · refine ⟨Or.inr ⟨.mode, by decide, hrefused⟩, fun he => ?_, ?_⟩
    · rw [hrefused] at he
      cases he
    · intro q errno hq event he hnew
      rw [hrefused] at hq
      obtain rfl := (Prod.mk.inj (Except.ok.inj hq)).1
      exact absurd he hnew

/-! The other way round: what does not fit shows. -/

theorem Exact.same {r : ArincPartition} (h : call.Exact p c) (hk : call.kernel p c = .ok (q, .ok))
    (hi : call.result .unbounded p c = .ok (r, .ok)) : q = r := by
  rcases h.sums with he | ⟨errno, hne, he⟩
  · rw [hk, hi] at he
    exact (Prod.mk.inj (Except.ok.inj he)).1
  · rw [hk] at he
    exact absurd (Prod.mk.inj (Except.ok.inj he)).2.symm hne

theorem fits_of_timedAt {kind : DelayedKind} {a b : Int}
    (hk : q.TimedAt t kind (SignedWord.add a b)) (hi : q.TimedAt t kind (a + b)) : a + b < 2 ^ 63 :=
  (add_eq_iff.mp (hk.inj hi)).2

theorem fits_of_deadline {a b : Int} (h : p.threadSetDeadline t (SignedWord.add a b) =
    q.threadSetDeadline t (a + b)) : a + b < 2 ^ 63 := by
  have htimed : (p.threadSetDeadline t (SignedWord.add a b)).TimedAt t .deadline
      (SignedWord.add a b) := timedAt_delayedEventAdd
  rw [h] at htimed
  exact fits_of_timedAt htimed timedAt_delayedEventAdd

theorem fits_sleep {time now : Int} (htime : InRange time) (hnow : InRange now)
    (h : (sleep time now).Exact p c) : (sleep time now).Fits p c := by
  intro hw
  by_contra hover
  have hpositive : 0 < time := by
    by_contra hle
    exact hover fun hlt => absurd hlt hle
  apply h.finite
  change p.pokThreadSleep c time now .kernel = _
  rw [pokThreadSleep, MayWait.allowed hw]
  change (if time = 0 then _ else _) = _
  rw [if_neg hpositive.ne', threadWaitCommon_overflow hover hnow htime]
  rfl

theorem fits_portWait {port : Nat} {sending byPriority : Bool} {timeout now : Int}
    (htimeout : InRange timeout) (hnow : InRange now)
    (h : (portWait port sending timeout now byPriority).Exact p c) :
    (portWait port sending timeout now byPriority).Fits p c := by
  intro hw hlinked
  by_contra hover
  have hpositive : 0 < timeout := by
    by_contra hle
    exact hover fun hlt => absurd hlt hle
  apply h.finite
  change p.pokPortWait c port sending timeout now byPriority .kernel = _
  rw [pokPortWait, if_neg hpositive.ne', MayWait.allowed hw]
  change returning .ok ((p.threadWqAddCommon port c byPriority).bind _) = _
  rw [ArincPartition.threadWqAddCommon, if_neg (not_not.mpr hlinked)]
  change returning .ok (ArincPartition.threadWaitCommon _ c timeout now .kernel) = _
  rw [threadWaitCommon_overflow hover hnow htimeout]
  rfl

theorem fits_msectionWait {sec : Nat} {timeout now : Int} (htimeout : InRange timeout)
    (hnow : InRange now) (h : (msectionWait sec timeout now).Exact p c) :
    (msectionWait sec timeout now).Fits p c := by
  intro howner hcount hlock herror hdonator
  by_contra hover
  apply h.finite
  change p.msectionWait c sec timeout now .kernel = _
  have hfree : ¬ (0 < p.lockLevel ∨ p.threadError = some c) := by simp [hlock, herror]
  rw [ArincPartition.msectionWait, if_neg (not_not.mpr ⟨howner, hcount⟩), if_neg hfree,
    if_neg (not_not.mpr hdonator), threadWaitCommon_overflow hover hnow htimeout]
  rfl

theorem fits_suspend {time now : Int} (h : (suspend time now).Exact p c) :
    (suspend time now).Fits p c := by
  intro hperiod hw hmode hpositive
  have hresult : ∀ arith : TimeArith, ∃ q,
      (suspend time now).result arith p c = .ok (q, .ok) ∧
        q.TimedAt c .delayed (arith.add now time) := by
    intro arith
    have hmode' : (((p.threadSuspend c).setSuspended c true).threadSetUneligible c).mode = .normal :=
      suspendedTwice_mode.trans hmode
    refine ⟨((((p.threadSuspend c).setSuspended c true).threadSetUneligible c).setState c
      .waiting |>.threadSetUneligible c).threadDelayEvent c (arith.add now time) .resumeWaited, ?_,
        timedAt_delayedEventAdd⟩
    have hfinite : ¬ timeIsInfinity time = true := by
      rw [infinity_iff]
      omega
    change p.pokThreadSuspend c time now arith = _
    rw [pokThreadSuspend, if_neg (not_not.mpr (infinity_iff.mpr hperiod)), MayWait.allowed hw]
    change (if time = 0 then _ else if timeIsInfinity time then _ else _) = _
    rw [if_neg hpositive.ne', if_neg hfinite, threadSuspendTimed, threadWait, if_pos hmode']
    rfl
  obtain ⟨q, hq, htimed⟩ := hresult .kernel
  obtain ⟨r, hr, htimed'⟩ := hresult .unbounded
  obtain rfl := h.same hq hr
  exact fits_of_timedAt htimed htimed'

theorem fits_endPeriod (hw : (p.sched c).Words) (h : endPeriod.Exact p c) :
    endPeriod.Fits p c := by
  intro hperiod hwaits
  obtain ⟨hsigned, hnext⟩ := hw.nextActivation
  have hword := hw.period.2
  have hinf : ¬ timeIsInfinity (p.sched c).period = true := by
    rw [infinity_iff]
    omega
  have hcall : ∀ arith : TimeArith, endPeriod.result arith p c = returning .ok
      (((p.updateSched c fun th => { th with
        nextActivation := arith.unsigned
          (arith.add (p.sched c).nextActivation (p.sched c).period) }).threadWaitTimed c
          (arith.add (p.sched c).nextActivation (p.sched c).period)).map fun q =>
            q.threadSetDeadline c (arith.add
              (arith.add (p.sched c).nextActivation (p.sched c).period) (q.sched c).timeCapacity)) := by
    intro arith
    change p.pokSchedEndPeriod c arith = _
    rw [pokSchedEndPeriod, if_neg hinf, MayWait.allowed hwaits]
    rfl
  /- A sum that wraps once is negative, and the assertion fails. -/
  have htwice : ¬ (p.sched c).nextActivation + (p.sched c).period < 2 ^ 63 →
      2 ^ 64 ≤ (p.sched c).nextActivation + (p.sched c).period := by
    intro hover
    by_contra honce
    apply h.finite
    rw [kernel, hcall, TimeArith.kernel_add, threadWaitTimed_negative]
    · rfl
    · rw [add_of_wrapped ⟨by omega, by omega⟩]
      omega
  refine ⟨fun hmode => ?_, fun _ => or_iff_not_imp_left.mpr htwice⟩
  have hended : ∀ arith : TimeArith, ∀ next, 0 ≤ next →
      arith.add (p.sched c).nextActivation (p.sched c).period = next → arith.unsigned next = next →
      endPeriod.result arith p c = .ok ((periodWaiting p c next).threadSetDeadline c
        (arith.add next (p.sched c).timeCapacity), .ok) := by
    intro arith next hpositive hadd hunsigned
    rw [hcall, hadd, hunsigned, endPeriod_waiting hmode hpositive]
    simp only [Except.map, returning, periodWaiting_capacity]
  have hi := hended .unbounded ((p.sched c).nextActivation + (p.sched c).period) (by omega) rfl rfl
  have hfits : (p.sched c).nextActivation + (p.sched c).period < 2 ^ 63 := by
    by_contra hover
    have hle := htwice hover
    have hk := hended .kernel ((p.sched c).nextActivation + (p.sched c).period - 2 ^ 64) (by omega)
      (add_of_wrapped ⟨by omega, by omega⟩) (Int.emod_eq_of_lt (by omega) (by omega))
    have hnexts := congrArg (fun r : ArincPartition => (r.sched c).nextActivation) (h.same hk hi)
    change ((periodWaiting p c _).sched c).nextActivation =
      ((periodWaiting p c _).sched c).nextActivation at hnexts
    rw [periodWaiting_next, periodWaiting_next] at hnexts
    omega
  have hk := hended .kernel ((p.sched c).nextActivation + (p.sched c).period) (by omega)
    (add_of_inRange ⟨by omega, hfits⟩) (Int.emod_eq_of_lt (by omega) (by omega))
  exact ⟨hfits, fits_of_deadline (h.same hk hi)⟩

theorem fits_replenish {budget now : Int} (hbudget : InRange budget) (hnow : InRange now)
    (h : (replenish budget now).Exact p c) :
    (replenish budget now).Fits p c := by
  intro herror hmode hcapacity hpositive
  have hcall (arith : TimeArith) : p.pokSchedReplenish c budget now arith = _ :=
    pokSchedReplenish_limited herror hmode hcapacity hpositive
  by_contra hover
  rw [not_or] at hover
  obtain ⟨hlt, hpast⟩ := hover
  have hword := hnow.2
  have hword' := hbudget.2
  have hlate : ¬ (¬ timeIsInfinity (p.sched c).period = true ∧
      (p.sched c).nextActivation ≤ now + budget) := by
    rintro ⟨hperiod, hle⟩
    exact hpast ⟨by simpa [infinity_iff] using hperiod, hle⟩
  have hk : (replenish budget now).kernel p c =
      .ok (p.threadSetDeadline c (SignedWord.add now budget), .ok) := by
    refine (hcall .kernel).trans (if_neg ?_)
    rwa [TimeArith.kernel_unsigned, TimeArith.kernel_add, add_emod (by omega) (by omega)]
  have hi : (replenish budget now).result .unbounded p c =
      .ok (p.threadSetDeadline c (now + budget), .ok) := (hcall .unbounded).trans (if_neg hlate)
  exact hlt (fits_of_deadline (h.same hk hi))

theorem armStart_deadline {arith : TimeArith} {s : Int} (h : 0 ≤ (p.sched t).timeCapacity) :
    (armStart arith p t s).TimedAt t .deadline (arith.add s (p.sched t).timeCapacity) := by
  have hcapacity : ∀ next, (((p.resetStarted t).setNextActivation t next).sched t).timeCapacity =
      (p.sched t).timeCapacity := by
    intro next
    rw [setNextActivation_kept.2.2.1]
    simp [resetStarted, updateSched, updateThread, onSections]
  rw [armStart, setStartDeadline, hcapacity, if_neg (by simpa [infinity_iff] using h)]
  exact timedAt_delayedEventAdd

theorem setEligible_mayRun (h : p.MayRun t) : ∃ q, p.setEligibleUnlessSuspended t = .ok q := by
  rcases h with hsuspended | hout
  · exact ⟨_, if_pos hsuspended⟩
  · unfold setEligibleUnlessSuspended
    by_cases hsuspended : (p.sched t).suspended = true
    · exact ⟨_, if_pos hsuspended⟩
    · rw [if_neg hsuspended]
      exact ⟨_, if_pos hout⟩

theorem threadStart_mayRun (h : p.MayRun t) : ∃ q, p.threadStart t = .ok q := by
  have hruns : (p.setState t .runnable).MayRun t := h
  exact setEligible_mayRun hruns

theorem threadWakeUp_waiting (hw : (p.threads t).state = .waiting) (h : p.MayRun t) :
    ∃ q, p.threadWakeUp t = .ok q := by
  have hcancelled : Moves t (p.setState t .runnable)
      (((p.setState t .runnable).threadDelayEventCancel t).cancelWait t) :=
    moves_delayedEventRemove.trans moves_cancelWait
  have hruns : (((p.setState t .runnable).threadDelayEventCancel t).cancelWait t).MayRun t := by
    rw [MayRun, cancelWait_suspended, hcancelled.mode, cancelWait_eligibleThreads]
    exact h
  rw [threadWakeUp, if_pos hw]
  exact setEligible_mayRun hruns

theorem threadStart_deadline {d : Int} (h : p.threadStart t = .ok q)
    (hd : p.TimedAt t .deadline d) : q.TimedAt t .deadline d :=
  (timedAt_of_events (setEligibleUnlessSuspended_delayedEvents h)).mpr hd

/-- A start that is not refused ends well, at the time at which the thread waits for it or at
once, and keeps the deadline that has been set. -/
theorem started {s : Int} {atOnce : Prop} [Decidable atOnce] (hruns : atOnce → p.MayRun t)
    (hwaits : ¬ atOnce → 0 ≤ s ∧ p.mode = .normal) :
    ∃ q, (if atOnce then p.threadStart t else p.threadWaitTimed t s) = .ok q ∧
      ∀ d, p.TimedAt t .deadline d → q.TimedAt t .deadline d := by
  by_cases h : atOnce
  · obtain ⟨q, hq⟩ := threadStart_mayRun (hruns h)
    rw [if_pos h]
    exact ⟨q, hq, fun _ => threadStart_deadline hq⟩
  · obtain ⟨hpoint, hmode⟩ := hwaits h
    rw [if_neg h]
    have hq := threadWaitTimed_normal (t := t) hpoint hmode
    exact ⟨_, hq, (threadWaitTimed_awaits hq).2.2⟩

theorem delayedStart_result {arith : TimeArith} {id : Nat} {delay now processingStart : Int}
    (hthread : p.HasThread id) (hdelay : 0 ≤ delay) (hstopped : (p.threads id).state = .stopped)
    (hmode : p.mode = .normal) (hperiod : 0 ≤ (p.sched id).period → delay < (p.sched id).period) :
    (delayedStart id delay now processingStart).result arith p c = returning .ok
      (if delay = 0 ∧ timeIsInfinity (p.sched id).period then
        (armStart arith p id (p.startTime id delay now processingStart arith)).threadStart id
      else (armStart arith p id (p.startTime id delay now processingStart arith)).threadWaitTimed id
        (p.startTime id delay now processingStart arith)) := by
  have hfinite : ¬ timeIsInfinity delay = true := by
    rw [infinity_iff]
    omega
  have hallowed : ¬ (¬ timeIsInfinity (p.sched id).period = true ∧ (p.sched id).period ≤ delay) := by
    rintro ⟨hinf, hle⟩
    rw [Bool.not_eq_true, finite_iff] at hinf
    have := hperiod hinf
    omega
  change p.pokThreadDelayedStart id delay now processingStart arith = _
  rw [pokThreadDelayedStart, withThread, if_pos hthread, if_neg hfinite,
    threadDelayedStartInternal, if_neg hfinite, if_neg (not_not.mpr hstopped),
    if_neg hallowed, if_neg (not_not.mpr hmode)]
  rfl

/-- A start time that fits shows in the deadline. -/
theorem fits_started {id : Nat} {delay now processingStart s : Int}
    (h : (delayedStart id delay now processingStart).Exact p c)
    (hresult : ∀ arith : TimeArith, p.startTime id delay now processingStart arith = s →
      (delayedStart id delay now processingStart).result arith p c = returning .ok
        (if delay = 0 ∧ timeIsInfinity (p.sched id).period then (armStart arith p id s).threadStart id
        else (armStart arith p id s).threadWaitTimed id s))
    (hword : p.startTime id delay now processingStart .kernel = s)
    (hsum : p.startTime id delay now processingStart .unbounded = s)
    (hruns : delay = 0 ∧ timeIsInfinity (p.sched id).period = true → p.MayRun id)
    (hpoint : ¬ (delay = 0 ∧ timeIsInfinity (p.sched id).period = true) → 0 ≤ s)
    (hmode : p.mode = .normal) :
    p.DeadlineFits id s := by
  intro hcapacity
  have hstarted : ∀ arith : TimeArith, ∃ q, (if delay = 0 ∧ timeIsInfinity (p.sched id).period then
      (armStart arith p id s).threadStart id else (armStart arith p id s).threadWaitTimed id s) = .ok q ∧
        ∀ d, (armStart arith p id s).TimedAt id .deadline d → q.TimedAt id .deadline d := fun _ =>
    started (fun he => armStart_mayRun.mpr (hruns he)) fun hne =>
      ⟨hpoint hne, armStart_mode.trans hmode⟩
  obtain ⟨q, hq, hkept⟩ := hstarted .kernel
  obtain ⟨r, hr, hkept'⟩ := hstarted .unbounded
  have hk : (delayedStart id delay now processingStart).kernel p c = .ok (q, .ok) := by
    rw [kernel, hresult _ hword, hq]
    rfl
  have hi : (delayedStart id delay now processingStart).result .unbounded p c = .ok (r, .ok) := by
    rw [hresult _ hsum, hr]
    rfl
  obtain rfl := h.same hk hi
  exact fits_of_timedAt (hkept _ (armStart_deadline hcapacity)) (hkept' _ (armStart_deadline hcapacity))

theorem fits_delayedStart {id : Nat} {delay now processingStart : Int} (hdelay : InRange delay)
    (hnow : InRange now) (hprocessing : InRange processingStart)
    (h : (delayedStart id delay now processingStart).Exact p c) :
    (delayedStart id delay now processingStart).Fits p c := by
  intro hthread hpositive hstopped hmode
  have hbase : InRange (p.startBase id now processingStart) := by
    unfold startBase
    split_ifs
    · exact hnow
    · exact hprocessing
  /- A start that is waited for and does not fit fails the assertion. -/
  have hwaited : (0 ≤ (p.sched id).period → delay < (p.sched id).period) →
      ¬ (delay = 0 ∧ timeIsInfinity (p.sched id).period = true) →
      0 ≤ p.startBase id now processingStart + delay ∧
        p.startBase id now processingStart + delay < 2 ^ 63 := by
    intro hperiod hwaits
    by_contra hover
    have hnegative : SignedWord.add (p.startBase id now processingStart) delay < 0 := by
      by_cases hlt : p.startBase id now processingStart + delay < 2 ^ 63
      · rw [add_of_inRange ((inRange_add_iff hbase hpositive).mpr hlt)]
        omega
      · exact (add_lt_of_overflow hbase hdelay (by omega)).1
    apply h.finite
    rw [kernel, delayedStart_result hthread hpositive hstopped hmode hperiod, if_neg hwaits,
      startTime_word, threadWaitTimed_negative hnegative]
    rfl
  have hfits : (0 ≤ (p.sched id).period → delay < (p.sched id).period) →
      InRange (p.startBase id now processingStart + delay) →
      (delay = 0 ∧ timeIsInfinity (p.sched id).period = true → p.MayRun id) →
      p.DeadlineFits id (p.startBase id now processingStart + delay) := by
    intro hperiod hstart hruns
    apply fits_started h
    · intro add he
      rw [delayedStart_result hthread hpositive hstopped hmode hperiod, he]
    · rw [startTime_word, add_of_inRange hstart]
    · exact startTime_unbounded
    · exact hruns
    · exact fun hwaits => (hwaited hperiod hwaits).1
    · exact hmode
  constructor
  · intro haperiodic
    have hinf : timeIsInfinity (p.sched id).period = true := infinity_iff.mpr haperiodic
    have hperiod : 0 ≤ (p.sched id).period → delay < (p.sched id).period :=
      fun he => absurd he (by omega)
    simp only [startBase, if_pos hinf] at hwaited hfits
    refine ⟨fun hlt => hwaited hperiod fun he => by omega, fun hruns => ?_⟩
    rcases hpositive.eq_or_lt with hzero | hlt
    · refine hfits hperiod ?_ fun _ => hruns.resolve_left (by omega)
      rwa [← hzero, Int.add_zero]
    · have hpoint := hwaited hperiod fun he => by omega
      exact hfits hperiod ((inRange_add_iff hnow hpositive).mpr hpoint.2) fun he => by omega
  · intro hperiodic hlt
    have hinf : ¬ timeIsInfinity (p.sched id).period = true := by
      rw [infinity_iff]
      omega
    have hpoint := hwaited (fun _ => hlt) fun he => hinf he.2
    have hdeadline := hfits (fun _ => hlt) ((inRange_add_iff hbase hpositive).mpr hpoint.2)
      fun he => absurd he.2 hinf
    simp only [startBase, if_neg hinf] at hpoint hdeadline
    exact ⟨hpoint, hdeadline⟩

/-! One pass of the switch to the `NORMAL` mode -/

theorem errno_of_returning {errno errno' : PokErrno} {m : Except PartitionExit ArincPartition}
    (h : returning errno m = .ok (q, errno')) : errno' = errno := by
  cases m with
  | ok r => exact (Prod.mk.inj (Except.ok.inj h)).2.symm
  | error e => cases h

theorem release_result {arith : TimeArith} {now processingStart : Int}
    (hstate : (p.threads t).state ≠ .stopped) :
    (release t now processingStart).result arith p c = returning .ok
      ((if p.startTime t (p.sched t).delayedTime now processingStart arith ≤ now then
        (p.setNextActivation t (arith.unsigned
          (p.startTime t (p.sched t).delayedTime now processingStart arith))).threadWakeUp t
      else .ok ((p.setNextActivation t (arith.unsigned
        (p.startTime t (p.sched t).delayedTime now processingStart arith))).threadDelayEvent t
          (p.startTime t (p.sched t).delayedTime now processingStart arith) .wakeUp)).map
            fun q => q.setStartDeadline t
              (p.startTime t (p.sched t).delayedTime now processingStart arith) arith) := by
  change returning .ok (releaseThread now processingStart p t arith) = _
  rw [releaseThread, if_neg hstate]

theorem setStartDeadline_delayed {arith : TimeArith} {s d : Int} :
    (p.setStartDeadline t s arith).TimedAt t .delayed d ↔ p.TimedAt t .delayed d := by
  unfold setStartDeadline
  split_ifs
  · exact Iff.rfl
  · exact timedAt_delayedEventAdd_ne (by decide)

theorem setNextActivation_next {next : Int} (h : 0 ≤ (p.sched t).period) :
    ((p.setNextActivation t next).sched t).nextActivation = next := by
  have hfinite : ¬ timeIsInfinity (p.sched t).period = true := by
    rw [infinity_iff]
    omega
  rw [setNextActivation, if_neg hfinite]
  simp [updateSched]

theorem threadWakeUp_delayed (h : p.threadWakeUp t = .ok q) :
    ¬ q.DelayedEventActive t .delayed := by
  unfold threadWakeUp at h
  split_ifs at h
  have hevents := setEligibleUnlessSuspended_delayedEvents h
  rw [cancelWait_delayedEvents] at hevents
  have hinactive := not_active_cancel (p := p.setState t .runnable) (t := t)
  simpa only [DelayedEventActive, hevents] using hinactive

/-- The next activation after a pass is its start as it is stored, and the thread waits exactly
for a start to come. -/
structure Released (arith : TimeArith) (p : ArincPartition) (t : Nat) (now s : Int)
    (r : ArincPartition) : Prop where
  next : 0 ≤ (p.sched t).period → (r.sched t).nextActivation = arith.unsigned s
  woken : s ≤ now → ∀ d, ¬ r.TimedAt t .delayed d
  waits : now < s → r.TimedAt t .delayed s
  deadline : 0 ≤ (p.sched t).timeCapacity →
    r.TimedAt t .deadline (arith.add s (p.sched t).timeCapacity)

theorem released {arith : TimeArith} {now s : Int}
    (h : (if s ≤ now then (p.setNextActivation t (arith.unsigned s)).threadWakeUp t
      else .ok ((p.setNextActivation t (arith.unsigned s)).threadDelayEvent t s .wakeUp)) = .ok q) :
    Released arith p t now s (q.setStartDeadline t s arith) := by
  have hmoved : (0 ≤ (p.sched t).period → (q.sched t).nextActivation = arith.unsigned s) ∧
      (s ≤ now → ∀ d, ¬ q.TimedAt t .delayed d) ∧ (now < s → q.TimedAt t .delayed s) ∧
        (q.sched t).timeCapacity = (p.sched t).timeCapacity := by
    split_ifs at h with hpast
    · have hmoves := threadWakeUp_moves h
      refine ⟨fun hperiod => hmoves.next.trans (setNextActivation_next hperiod), fun _ d htimed => ?_,
        fun hlt => by omega, hmoves.capacity.trans setNextActivation_kept.2.2.1⟩
      exact threadWakeUp_delayed h ⟨⟨t, .delayed, d⟩, (htimed d).mpr rfl, rfl, rfl⟩
    · obtain rfl := Except.ok.inj h
      exact ⟨fun hperiod => moves_threadDelayEvent.next.trans (setNextActivation_next hperiod),
        fun hle => absurd hle hpast, fun _ => threadDelayEvent_awaits.event,
        moves_threadDelayEvent.capacity.trans setNextActivation_kept.2.2.1⟩
  obtain ⟨hnext, hwoken, htimed, hcapacity⟩ := hmoved
  refine ⟨fun hperiod => ?_, fun hle d => mt setStartDeadline_delayed.mp (hwoken hle d),
    fun hlt => setStartDeadline_delayed.mpr (htimed hlt), fun hlimited => ?_⟩
  · rw [setStartDeadline_kept.2.2.1]
    exact hnext hperiod
  · have hfinite : ¬ timeIsInfinity (q.sched t).timeCapacity = true := by
      rw [hcapacity, infinity_iff]
      omega
    rw [setStartDeadline, if_neg hfinite, hcapacity]
    exact timedAt_delayedEventAdd

theorem release_ok {arith : TimeArith} {now processingStart s : Int} {r : ArincPartition}
    (hstate : (p.threads t).state ≠ .stopped)
    (hs : p.startTime t (p.sched t).delayedTime now processingStart arith = s)
    (h : (release t now processingStart).result arith p c = .ok (r, .ok)) :
    Released arith p t now s r := by
  rw [release_result hstate, hs] at h
  cases hq : (if s ≤ now then (p.setNextActivation t (arith.unsigned s)).threadWakeUp t
      else .ok ((p.setNextActivation t (arith.unsigned s)).threadDelayEvent t s .wakeUp)) with
  | error e =>
    rw [hq] at h
    cases h
  | ok q =>
    rw [hq] at h
    obtain rfl := (Prod.mk.inj (Except.ok.inj h)).1
    exact released hq

/-- A pass comes to its end unless it wakes up a thread that does not wait. -/
theorem release_ends {arith : TimeArith} {now processingStart s : Int}
    (hstate : (p.threads t).state ≠ .stopped)
    (hs : p.startTime t (p.sched t).delayedTime now processingStart arith = s)
    (h : now < s ∨ (p.threads t).state = .waiting ∧ p.MayRun t) :
    ∃ r, (release t now processingStart).result arith p c = .ok (r, .ok) := by
  rw [release_result hstate, hs]
  by_cases hpast : s ≤ now
  · obtain ⟨hwaits, hruns⟩ := h.resolve_left (by omega)
    obtain ⟨q, hq⟩ := threadWakeUp_waiting (p := p.setNextActivation t (arith.unsigned s)) (t := t)
      (by rwa [setNextActivation_threads]) (setNextActivation_mayRun.mpr hruns)
    rw [if_pos hpast, hq]
    exact ⟨_, rfl⟩
  · rw [if_neg hpast]
    exact ⟨_, rfl⟩

theorem fits_release {now processingStart : Int} (hw : (p.sched t).Words) (hnow : InRange now)
    (hprocessing : InRange processingStart) (h : (release t now processingStart).Exact p c) :
    (release t now processingStart).Fits p c := by
  intro hstate
  have hbase : InRange (p.startBase t now processingStart) := by
    unfold startBase
    split_ifs
    · exact hnow
    · exact hprocessing
  have hfits : p.startBase t now processingStart + (p.sched t).delayedTime < 2 ^ 63 := by
    by_contra hover
    have hlate := hnow.2
    obtain ⟨r, hr⟩ := release_ends (c := c) hstate startTime_unbounded
      (Or.inl (show now < p.startBase t now processingStart + (p.sched t).delayedTime by omega))
    have hk : (release t now processingStart).kernel p c = .ok (r, .ok) := by
      rcases h.sums with he | ⟨errno, hne, he⟩
      · rw [he, hr]
      · exact absurd (errno_of_returning he) hne
    have hunbounded := (release_ok hstate startTime_unbounded hr).waits (by omega)
    have hkernel := release_ok hstate startTime_word hk
    -- the thread waits for the sum, which the wrapped one is not
    rcases Int.lt_or_le now (SignedWord.add (p.startBase t now processingStart)
        (p.sched t).delayedTime) with hlt | hle
    · exact hover (fits_of_timedAt (hkernel.waits hlt) hunbounded)
    · exact hkernel.woken hle _ hunbounded
  refine ⟨hfits, fun hends => ?_⟩
  have hword := add_of_inRange ((inRange_add_iff hbase hw.delayed).mpr hfits)
  obtain ⟨q, hq⟩ := release_ends (c := c) hstate (startTime_word.trans hword) hends
  obtain ⟨r, hr⟩ := release_ends (c := c) hstate startTime_unbounded hends
  obtain rfl := h.same hq hr
  have hkernel := release_ok hstate (startTime_word.trans hword) hq
  have hunbounded := release_ok hstate startTime_unbounded hr
  constructor
  · intro hperiod
    have hnext := (hkernel.next hperiod).symm.trans (hunbounded.next hperiod)
    rw [TimeArith.kernel_unsigned, TimeArith.unbounded_unsigned] at hnext
    rw [← hnext]
    exact Int.emod_nonneg _ (by decide)
  · exact fun hcapacity => fits_of_timedAt (hkernel.deadline hcapacity) (hunbounded.deadline hcapacity)

theorem exact_iff_fits (hp : (p.sched (call.thread c)).Words) (hwords : call.Words) :
    call.Exact p c ↔ call.Fits p c := by
  refine ⟨fun h => ?_, exact_of_fits hp hwords⟩
  cases call with
  | sleep => exact fits_sleep hwords.1 hwords.2 h
  | suspend => exact fits_suspend h
  | portWait => exact fits_portWait hwords.1 hwords.2 h
  | msectionWait => exact fits_msectionWait hwords.1 hwords.2 h
  | delayedStart => exact fits_delayedStart hwords.1 hwords.2.1 hwords.2.2 h
  | endPeriod => exact fits_endPeriod hp h
  | replenish => exact fits_replenish hwords.1 hwords.2 h
  | release => exact fits_release hp hwords.1 hwords.2 h

end TimedCall

namespace SamplingPort

variable {port : SamplingPort}

/-- The time at which the message was sent that a read gets -/
def timestamp (port : SamplingPort) : Int := port.channel.timestamps port.channel.readPosNext

/-- A port that has been created, with a message to be read. All times are values of
`pok_time_t`, and the refresh period is one that the creation accepts. -/
structure Readable (port : SamplingPort) : Prop where
  created : port.isCreated = true
  incoming : port.direction = .incoming
  message : port.channel.messageSizes port.channel.readPosNext ≠ 0
  refresh : 0 < port.refreshPeriod ∧ InRange port.refreshPeriod
  sent : InRange port.timestamp

/-- A read reports the message as valid exactly when it is not older than the refresh period. -/
def ReportsAge (port : SamplingPort) : Prop :=
  ∀ now, InRange now → port.timestamp ≤ now →
    ((port.read now).1.lastMessageValidity = true ↔
      now - port.timestamp ≤ port.refreshPeriod)

theorem read_validity {now : Int} (h : port.Readable) :
    (port.read now).1.lastMessageValidity = true ↔
      now ≤ SignedWord.add port.timestamp port.refreshPeriod := by
  have hmessage : ¬ port.channel.rGetMessage.1.messageSizes port.channel.rGetMessage.2 = 0 := h.message
  rw [read, if_neg (by simp [h.created]), if_neg (by simp [h.incoming])]
  dsimp only
  rw [if_neg hmessage]
  exact decide_eq_true_iff

theorem reportsAge_iff (h : port.Readable) :
    port.ReportsAge ↔ port.timestamp + port.refreshPeriod < 2 ^ 63 := by
  obtain ⟨hpositive, hrefresh⟩ := h.refresh
  constructor
  · intro hages
    by_contra hover
    obtain ⟨-, hless⟩ := add_lt_of_overflow h.sent hrefresh (by omega)
    have hnow := (hages port.timestamp h.sent (Int.le_refl _)).mpr (by omega)
    rw [read_validity h] at hnow
    omega
  · intro hlt now hnow hle
    rw [read_validity h, add_of_inRange ((inRange_add_iff h.sent hpositive.le).mpr hlt)]
    omega

end SamplingPort

/-- In every state, a call about times computes those that are asked for exactly if all its
sums fit, and a read of a sampling port reports the age of the message rightly exactly if its
time and the refresh period add up to a time that fits. -/
theorem time_arithmetic {p : ArincPartition} {c : Nat} {call : TimedCall} {port : SamplingPort}
    (hp : (p.sched (call.thread c)).Words) (hwords : call.Words) (hport : port.Readable) :
    (call.Exact p c ↔ call.Fits p c) ∧
      (port.ReportsAge ↔ port.timestamp + port.refreshPeriod < 2 ^ 63) :=
  ⟨TimedCall.exact_iff_fits hp hwords, SamplingPort.reportsAge_iff hport⟩

theorem of_failure {α : Type} {m : Except PartitionExit α} {a : Assertion}
    (h : ArincPartition.failure m = some a) : m = .error (.failed a) := by
  cases m with
  | ok r => cases h
  | error e =>
    cases e with
    | failed b =>
      obtain rfl := Option.some.inj h
      rfl
    | reset | idle | forever | refused => cases h

/-- Process 1 waits until 105. The message of the port has been sent at 3 and may be 7 old. -/
theorem time_arithmetic_waits :
    ∃ p, Run.exec (ArincPartition.step ArincPartition.lenientHm) (ArincPartition.boot 4)
        ArincPartition.startupRun = some p ∧
      (TimedCall.sleep 5 100).Exact p 1 ∧ SamplingPort.ReportsAge
        ⟨⟨fun _ _ => 0, fun _ => 1, fun _ => 3, 0, 0, 1⟩, 1, .incoming, true, 7, false⟩ := by
  have hview : (Run.exec (ArincPartition.step ArincPartition.lenientHm) (ArincPartition.boot 4)
      ArincPartition.startupRun).map (fun p => ((p.sched 1).period, (p.sched 1).timeCapacity,
        (p.sched 1).nextActivation, (p.sched 1).delayedTime)) = some (-1, -1, 0, 0) := by
    decide +kernel
  obtain ⟨p, hp, hv⟩ := Option.map_eq_some_iff.mp hview
  simp only [Prod.mk.injEq] at hv
  obtain ⟨hperiod, hcapacity, hnext, hdelayed⟩ := hv
  have hwords : (p.sched 1).Words := by
    refine ⟨?_, ?_, ?_, ?_, by omega⟩
    · rw [hperiod]
      decide
    · rw [hcapacity]
      decide
    · rw [hnext]
      decide
    · rw [hdelayed]
      decide
  have hport : SamplingPort.Readable
      ⟨⟨fun _ _ => 0, fun _ => 1, fun _ => 3, 0, 0, 1⟩, 1, .incoming, true, 7, false⟩ :=
    ⟨rfl, rfl, by decide, by decide, by decide⟩
  have hall : ((TimedCall.sleep 5 100).Exact p 1 ↔ (TimedCall.sleep 5 100).Fits p 1) ∧ _ :=
    time_arithmetic hwords ⟨by decide, by decide⟩ hport
  obtain ⟨hcall, hread⟩ := hall
  exact ⟨p, hp, hcall.mpr fun _ _ => by decide, hread.mpr (by decide)⟩

/-- Process 1 asks for the longest finite wait, one nanosecond after the start of the system. -/
theorem time_arithmetic_fails :
    ∃ p, Run.exec (ArincPartition.step ArincPartition.lenientHm) (ArincPartition.boot 4)
        ArincPartition.startupRun = some p ∧ p.threadCurrent = some 1 ∧
      (TimedCall.sleep (2 ^ 63 - 1) 1).Words ∧
      (TimedCall.sleep (2 ^ 63 - 1) 1).kernel p 1 = .error (.failed .threadWaitTimed) ∧
      ¬ (TimedCall.sleep (2 ^ 63 - 1) 1).Exact p 1 := by
  have hview : (Run.exec (ArincPartition.step ArincPartition.lenientHm) (ArincPartition.boot 4)
      ArincPartition.startupRun).map (fun p => (p.threadCurrent,
        ArincPartition.failure ((TimedCall.sleep (2 ^ 63 - 1) 1).kernel p 1))) =
          some (some 1, some .threadWaitTimed) := by
    decide +kernel
  obtain ⟨p, hp, hv⟩ := Option.map_eq_some_iff.mp hview
  obtain ⟨hcurrent, hfailure⟩ := Prod.mk.inj hv
  have hkernel : (TimedCall.sleep (2 ^ 63 - 1) 1).kernel p 1 = .error (.failed .threadWaitTimed) :=
    of_failure hfailure
  exact ⟨p, hp, hcurrent, ⟨by decide, by decide⟩, hkernel, fun h => h.finite hkernel⟩

end Chpok
