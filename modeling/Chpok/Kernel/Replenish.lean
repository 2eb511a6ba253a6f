import Chpok.Kernel.ReleasePoints

/-! REPLENISH by a periodic process. The new deadline is compared with `next_activation`, which
is the current release point of the process on most paths and its next one only between a
start in the `NORMAL` mode and the first PERIODIC_WAIT. -/

namespace Chpok

namespace ArincPartition

open Outcome SignedWord

variable {p q : ArincPartition} {t : Nat} {hm : PartitionHm} {hist : ReleaseHistory}
  {budget now activation period : Int}

/-- A deadline beyond the next release point is refused in any case. Any other is accepted as it
should be if it fits into 64 bits and comes before `next_activation`: that is the current release
point, and the next one only after a start in the `NORMAL` mode and before the first
PERIODIC_WAIT. -/
def ReplenishFits (activation period time : Int) : ReleaseHistory → Prop
  | .released inInit _ waits => activation + period < time ∨ time < 2 ^ 63 ∧
    time < (activation + if inInit = false ∧ waits = 0 then period else 0) % 2 ^ 64
  | _ => False

theorem pokSchedReplenish_periodic (hmode : p.mode = .normal) (hthread : p.threadError ≠ some t)
    (hattr : PeriodicAttr p t) (hbudget : timeIsInfinity budget = false) :
    p.pokSchedReplenish t budget now =
      if (p.sched t).nextActivation ≤ (now + budget) % 2 ^ 64 then .ok (p, .mode)
      else .ok (p.threadSetDeadline t (add now budget), .ok) := by
  unfold pokSchedReplenish
  rw [if_neg hthread, if_neg (not_not.mpr hmode), hattr.capacity, hbudget, hattr.period,
    TimeArith.kernel_unsigned, TimeArith.kernel_add, add, wrap_emod]
  simp

/-- The field is the current release point, or the next one after a start in the `NORMAL`
mode. -/
theorem Planned.nextActivation {inInit : Bool} {first : Int} {waits : Nat}
    (h : Planned p t (.released inInit first waits))
    (hperiod : timeIsInfinity (p.sched t).period = false)
    (hactivation : ReleaseHistory.activation (p.sched t).period (.released inInit first waits) =
      some activation) :
    (p.sched t).nextActivation =
      (activation + if inInit = false ∧ waits = 0 then (p.sched t).period else 0) % 2 ^ 64 := by
  obtain ⟨-, -, hnext⟩ := h.follows
  rw [hnext hperiod, ← Option.some.inj hactivation]
  congr 1
  cases inInit with
  | true => simp
  | false =>
    by_cases hwaits : waits = 0
    · simp [hwaits]
    · simp [hwaits]

theorem replenishFits_iff {inInit : Bool} {first next time : Int} {waits : Nat}
    (hpositive : 0 < period) (hactivation : 0 ≤ activation) (htime : time < 2 ^ 64)
    (hnext : next = (activation + if inInit = false ∧ waits = 0 then period else 0) % 2 ^ 64) :
    ((time < next ↔ time ≤ activation + period) ∧ (time < next → time < 2 ^ 63)) ↔
      ReplenishFits activation period time (.released inInit first waits) := by
  unfold ReplenishFits
  dsimp only
  rw [← hnext]
  split_ifs at hnext
  · omega
  · omega

theorem threadSetDeadline_timedAt {time : Int} (hlow : 0 ≤ time) :
    (p.threadSetDeadline t (wrap time)).TimedAt t .deadline time ↔ time < 2 ^ 63 := by
  have hset : (p.threadSetDeadline t (wrap time)).TimedAt t .deadline (wrap time) :=
    timedAt_delayedEventAdd
  constructor
  · exact fun h => (wrap_eq_iff.mp (hset.inj h)).2
  · intro hlt
    rwa [wrap_of_inRange ⟨by omega, hlt⟩] at hset ⊢

/-- In every run, REPLENISH sets the deadline or changes nothing. It accepts exactly the
deadlines up to the next release point, and sets them as they are, when it compares with that one
and they fit into 64 bits, and otherwise only where both comparisons refuse. -/
theorem replenish {nthreads : Nat} {es : List ArincInput}
    (hrun : Run.exec (releaseStep hm t) (boot nthreads, .unreleased) es = some (p, hist))
    (hhalted : p.halted = false) (hthread : p.HasThread t)
    (hperiod : timeIsInfinity (p.sched t).period = false)
    (hactivation : hist.activation (p.sched t).period = some activation)
    (hreached : 0 ≤ activation) (hnow : 0 ≤ now ∧ now < 2 ^ 63)
    (hbudget : 0 ≤ budget ∧ budget < 2 ^ 63) :
    ∃ q errno, p.pokSchedReplenish t budget now = .ok (q, errno) ∧
      (errno = .ok → q = p.threadSetDeadline t (add now budget)) ∧ (errno ≠ .ok → q = p) ∧
      ((errno = .ok ↔ now + budget ≤ activation + (p.sched t).period) ∧
          (errno = .ok → q.TimedAt t .deadline (now + budget)) ↔
        ReplenishFits activation (p.sched t).period (now + budget) hist) := by
  have hscheduled : p.halted = false → Scheduled t (p, hist) :=
    Run.invariant (fun _ _ _ h hstep => releaseStep_scheduled h hstep)
      (fun _ => partitionArincStart_scheduled) hrun
  have hplanned : Planned p t hist := (hscheduled hhalted).planned
  cases hist with
  | unreleased | delayed => cases hactivation
  | released inInit first waits =>
    obtain ⟨hmode, hlt, -⟩ := hplanned.follows
    have hattr := hplanned.attr hlt hperiod
    have hpositive : 0 < (p.sched t).period := by
      have hne := hplanned.period hlt
      have hfinite : ¬ (p.sched t).period < 0 := by simpa [timeIsInfinity] using hperiod
      omega
    have hnext := hplanned.nextActivation hperiod hactivation
    have hresult : p.pokSchedReplenish t budget now =
        if (p.sched t).nextActivation ≤ (now + budget) % 2 ^ 64 then .ok (p, .mode)
        else .ok (p.threadSetDeadline t (add now budget), .ok) :=
      pokSchedReplenish_periodic hmode hthread.2.2 hattr (by simp [timeIsInfinity, hbudget.1])
    rw [Int.emod_eq_of_lt (by omega) (by omega)] at hresult
    have hfits : ((now + budget < (p.sched t).nextActivation ↔
          now + budget ≤ activation + (p.sched t).period) ∧
        (now + budget < (p.sched t).nextActivation → now + budget < 2 ^ 63)) ↔
          ReplenishFits activation (p.sched t).period (now + budget) (.released inInit first waits) :=
      replenishFits_iff hpositive hreached (by omega) hnext
    by_cases hlate : (p.sched t).nextActivation ≤ now + budget
    · rw [if_pos hlate] at hresult
      refine ⟨p, .mode, hresult, fun he => absurd he (by decide), fun _ => rfl, ?_⟩
      rw [← hfits]
      simp only [not_lt.mpr hlate, reduceCtorEq, false_iff, false_implies]
    · rw [if_neg hlate] at hresult
      refine ⟨_, .ok, hresult, fun _ => rfl, fun hne => absurd rfl hne, ?_⟩
      rw [← hfits, add, threadSetDeadline_timedAt (by omega)]
      simp only [not_le.mp hlate, true_iff, forall_const]

set_option synthInstance.maxSize 1000 in
theorem replenish_normalStart :
    ∃ p q, Run.exec (releaseStep lenientHm 1) (boot 4, .unreleased) normalStartRun =
        some (p, .released false 100 0) ∧ p.pokSchedReplenish 1 5 102 = .ok (q, .ok) ∧
      q.TimedAt 1 .deadline 107 := by
  have hview : (Run.exec (releaseStep lenientHm 1) (boot 4, .unreleased) normalStartRun).map
      (fun s => (s.2, s.1.halted, s.1.nthreadsUsed, s.1.threadError, (s.1.sched 1).period,
        ((s.1.pokSchedReplenish 1 5 102).toOption.map (·.2)))) =
          some (.released false 100 0, false, 3, none, 10, some .ok) := by decide +kernel
  obtain ⟨⟨p, hist⟩, hp, hv⟩ := Option.map_eq_some_iff.mp hview
  simp only [Prod.mk.injEq] at hv
  obtain ⟨rfl, hhalted, hused, herror, hperiod, hcall⟩ := hv
  have hthread : p.HasThread 1 := ⟨by decide, by omega, by simp [herror]⟩
  have hnow : 0 ≤ (102 : Int) ∧ (102 : Int) < 2 ^ 63 := by decide
  have hbudget : 0 ≤ (5 : Int) ∧ (5 : Int) < 2 ^ 63 := by decide
  obtain ⟨q, errno, hq, -, -, hfits⟩ :=
    replenish hp hhalted hthread (by rw [hperiod]; decide) rfl (by simp) hnow hbudget
  have herrno : errno = .ok := by
    rw [hq] at hcall
    exact Option.some.inj hcall
  subst herrno
  have hright := hfits.mpr (Or.inr ⟨by decide, by rw [hperiod]; decide⟩)
  exact ⟨p, q, hp, hq, hright.2 rfl⟩

/-- After a start in an `INIT` mode a deadline long before the next release point is refused. -/
theorem replenish_fails :
    ∃ p, Run.exec (releaseStep lenientHm 1) (boot 4, .unreleased) initStartRun =
        some (p, .released true 103 0) ∧
      p.threadCurrent = some 1 ∧ (p.sched 1).period = 10 ∧
      (p.pokSchedReplenish 1 5 104).toOption.map (·.2) = some .mode ∧ (104 : Int) + 5 ≤ 103 + 10 := by
  have hview : (Run.exec (releaseStep lenientHm 1) (boot 4, .unreleased) initStartRun).map
      (fun s => (s.2, s.1.threadCurrent, (s.1.sched 1).period,
        ((s.1.pokSchedReplenish 1 5 104).toOption.map (·.2)))) =
          some (.released true 103 0, some 1, 10, some .mode) := by decide +kernel
  obtain ⟨⟨p, hist⟩, hp, hv⟩ := Option.map_eq_some_iff.mp hview
  simp only [Prod.mk.injEq] at hv
  obtain ⟨rfl, hcurrent, hperiod, hcall⟩ := hv
  exact ⟨p, hp, hcurrent, hperiod, hcall, by decide⟩

end ArincPartition

end Chpok
