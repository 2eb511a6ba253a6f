import Chpok.Kernel.ArincCalls
import Chpok.Kernel.MsectionDonation
import Chpok.Library.Outcome

/-! What the calls of a partition about sections and stops do to its threads and its sections
is what the same calls do where the sections are looked at alone. Only a recheck may be asked for
in addition, by the list of eligible threads. -/

namespace Chpok

namespace SectionSystem

variable {s r : SectionSystem} {t : Nat} {b : Bool}

/-- A recheck is asked for, or not. -/
def askRecheck (s : SectionSystem) (asked : Bool) : SectionSystem :=
  { s with recheckNeeded := s.recheckNeeded || asked }

theorem askRecheck_false (s : SectionSystem) : s.askRecheck false = s := by
  simp [askRecheck]

theorem askRecheck_true (s : SectionSystem) : s.askRecheck true = s.invalidate := by
  simp [askRecheck, invalidate]

theorem updateThread_askRecheck (s : SectionSystem) (t : Nat) (f : SectionThread → SectionThread)
    (b : Bool) : (s.askRecheck b).updateThread t f = (s.updateThread t f).askRecheck b := rfl

theorem updateSection_updateThread (s : SectionSystem) (sec t : Nat) (f : Msection → Msection)
    (g : SectionThread → SectionThread) :
    (s.updateSection sec f).updateThread t g = (s.updateThread t g).updateSection sec f := rfl

theorem invalidate_askRecheck (s : SectionSystem) (b : Bool) :
    (s.askRecheck b).invalidate = s.invalidate.askRecheck b := rfl

theorem resumeDonator_eq (s : SectionSystem) (donator : Nat) :
    s.resumeDonator donator =
      (if (s.threads donator).firstDonator = none then some s
        else (s.updateThread donator fun th => { th with firstDonator := none }).threadStop
          donator).map fun r =>
        (r.updateThread donator fun th => { th with
          donateTarget := none, nextDonator := none }).askRecheck
            (decide (s.threadSelected = some donator)) := by
  unfold resumeDonator askRecheck
  rw [← beq_eq_decide]
  rfl

theorem threadStop_updateThread {f : SectionThread → SectionThread}
    (hf : ∀ th, (f th).state = th.state) :
    (s.updateThread t f).threadStop t = if (s.threads t).state = .stopped then none
      else some (s.updateThread t fun th => { f th with
        state := .stopped, msectionEntering := none }) := by
  unfold threadStop
  rw [updateThread_updateThread, updateThread_threads_self, hf]

theorem checkReleased_askRecheck (s : SectionSystem) (b : Bool) :
    (s.askRecheck b).checkReleased = s.checkReleased.askRecheck b := by
  have hwaiting : (s.askRecheck b).waitingSection = s.waitingSection := rfl
  unfold checkReleased
  rw [hwaiting]
  cases s.waitingSection with
  | none => rfl
  | some sec =>
    change (if (s.sections sec).owner = none then _ else _) = _
    dsimp only
    split_ifs <;> rfl

end SectionSystem

namespace ArincPartition

open SectionSystem

variable {p q : ArincPartition} {s r : SectionSystem} {t c sec : Nat} {errno : PokErrno}

/-- The threads and the sections are those of `s`, but for a recheck. -/
def ShowsSections (p : ArincPartition) (s : SectionSystem) : Prop :=
  ∃ asked, p.toSectionSystem = s.askRecheck asked

theorem showsSections_self (p : ArincPartition) : p.ShowsSections p.toSectionSystem :=
  ⟨false, (askRecheck_false _).symm⟩

/-- A function that leaves the threads and the sections alone -/
theorem ShowsSections.same (h : p.ShowsSections s) (he : q.toSectionSystem = p.toSectionSystem) :
    q.ShowsSections s := h.imp fun _ hb => he.trans hb

theorem ShowsSections.threads (h : p.ShowsSections s) : p.threads = s.threads := by
  obtain ⟨b, hb⟩ := h
  rw [hb]
  rfl

theorem ShowsSections.updateThread (h : p.ShowsSections s) (t : Nat)
    (f : SectionThread → SectionThread) : (p.updateThread t f).ShowsSections (s.updateThread t f) := by
  obtain ⟨b, hb⟩ := h
  refine ⟨b, ?_⟩
  change p.toSectionSystem.updateThread t f = _
  rw [hb]
  rfl

theorem ShowsSections.localInvalidate (h : p.ShowsSections s) :
    p.localInvalidate.ShowsSections s.invalidate := by
  obtain ⟨b, hb⟩ := h
  refine ⟨b, ?_⟩
  change p.toSectionSystem.invalidate = _
  rw [hb, invalidate_askRecheck]

theorem ShowsSections.localInvalidate_if (h : p.ShowsSections s) (cond : Prop) [Decidable cond] :
    (if cond then p.localInvalidate else p).ShowsSections (s.askRecheck (decide cond)) := by
  by_cases hcond : cond
  · rw [if_pos hcond, decide_eq_true hcond, askRecheck_true]
    exact h.localInvalidate
  · rw [if_neg hcond, decide_eq_false hcond, askRecheck_false]
    exact h

/-- The list of eligible threads asks for a recheck. -/
theorem ShowsSections.asked (h : p.ShowsSections s) : p.localInvalidate.ShowsSections s := by
  obtain ⟨b, hb⟩ := h
  refine ⟨true, ?_⟩
  change p.toSectionSystem.invalidate = _
  rw [hb]
  simp [askRecheck, SectionSystem.invalidate]

theorem ShowsSections.invalidateIfFirst (h : p.ShowsSections s) (t : Nat) :
    (p.invalidateIfFirst t).ShowsSections s := by
  unfold ArincPartition.invalidateIfFirst
  split_ifs
  · exact h.asked
  · exact h

theorem ShowsSections.threadSetUneligible (h : p.ShowsSections s) (t : Nat) :
    (p.threadSetUneligible t).ShowsSections s := (h.invalidateIfFirst t).same rfl

theorem ShowsSections.threadSetEligible (h : p.ShowsSections s)
    (hq : p.threadSetEligible t = .ok q) : q.ShowsSections s := by
  unfold ArincPartition.threadSetEligible at hq
  split_ifs at hq
  obtain rfl := Except.ok.inj hq
  refine ShowsSections.invalidateIfFirst (h.same ?_) t
  rfl

theorem threadWqRemove_sections (p : ArincPartition) (t : Nat) :
    (p.threadWqRemove t).toSectionSystem = p.toSectionSystem := by
  unfold threadWqRemove
  cases (p.sched t).waitElem <;> rfl

theorem dropUnrecoverable_sections (p : ArincPartition) (t : Nat) :
    (p.dropUnrecoverable t).toSectionSystem = p.toSectionSystem := by
  unfold dropUnrecoverable
  split_ifs <;> rfl

theorem ShowsSections.dropLock (h : p.ShowsSections s) (t : Nat) :
    (p.dropLock t).ShowsSections s := by
  unfold ArincPartition.dropLock
  split_ifs
  · exact ShowsSections.asked (h.same rfl)
  · exact h

/-- `thread_stop` -/
theorem ShowsSections.threadStop (h : p.ShowsSections s) (hq : p.threadStop t = .ok q) :
    ∃ r, s.threadStop t = some r ∧ q.ShowsSections r := by
  unfold ArincPartition.threadStop at hq
  rw [h.threads] at hq
  split_ifs at hq with hstopped
  obtain rfl := Except.ok.inj hq
  refine ⟨_, if_neg hstopped, ?_⟩
  have hstate := (((h.updateThread t fun th => { th with state := .stopped }).threadSetUneligible
    t).same (q := ((((p.setState t .stopped).threadSetUneligible t).threadDelayEventCancel
      t).delayedEventRemove t .deadline).threadWqRemove t) (threadWqRemove_sections _ t)).dropLock t
  have hlast := (hstate.same (dropUnrecoverable_sections _ t)).updateThread t
    fun th => { th with msectionEntering := none }
  rwa [updateThread_updateThread] at hlast

theorem ShowsSections.setEligibleUnlessSuspended (h : p.ShowsSections s)
    (hq : p.setEligibleUnlessSuspended t = .ok q) : q.ShowsSections s := by
  unfold ArincPartition.setEligibleUnlessSuspended at hq
  split_ifs at hq
  · exact Except.ok.inj hq ▸ h
  · exact h.threadSetEligible hq

theorem ShowsSections.cancelWait (h : p.ShowsSections s) (t : Nat) :
    ∃ old, (p.cancelWait t).ShowsSections (s.updateThread t fun th => { th with
      waitResult := old }) := by
  unfold ArincPartition.cancelWait
  split_ifs
  · exact ⟨_, (h.same (threadWqRemove_sections p t)).updateThread t _⟩
  · exact ⟨_, h.updateThread t _⟩
  · refine ⟨(s.threads t).waitResult, ?_⟩
    rwa [SectionSystem.updateThread, Function.update_eq_self]

/-- `thread_wake_up`, where the caller overwrites the result of the wait. -/
theorem ShowsSections.threadWakeUp (h : p.ShowsSections s) (hq : p.threadWakeUp t = .ok q)
    (waitResult : WaitResult) :
    ∃ r, s.threadWakeUp t = some r ∧ (q.setWaitResult t waitResult).ShowsSections
      (r.updateThread t fun th => { th with waitResult }) := by
  unfold ArincPartition.threadWakeUp at hq
  rw [h.threads] at hq
  split_ifs at hq with hwaiting
  have hrunnable := h.updateThread t fun th => { th with state := .runnable }
  obtain ⟨old, hcancelled⟩ := ShowsSections.cancelWait (hrunnable.same (q :=
    (p.setState t .runnable).threadDelayEventCancel t) rfl) t
  have hwoken := (hcancelled.setEligibleUnlessSuspended hq).updateThread t
    fun th => { th with waitResult }
  refine ⟨_, if_pos hwaiting, ?_⟩
  rw [updateThread_updateThread] at hwoken ⊢
  rwa [updateThread_updateThread] at hwoken

theorem ShowsSections.interruptWait (h : p.ShowsSections s) (hq : p.interruptWait t = .ok q) :
    ∃ r, s.interruptWait t = some r ∧ q.ShowsSections r := by
  unfold ArincPartition.interruptWait at hq
  unfold SectionSystem.interruptWait
  rw [h.threads] at hq
  split_ifs at hq ⊢
  · obtain ⟨woken, hwoken, rfl⟩ := Outcome.map_eq_ok hq
    obtain ⟨r, hr, hshows⟩ := h.threadWakeUp hwoken .cancelled
    exact ⟨_, by rw [hr]; rfl, hshows⟩
  · exact ⟨s, rfl, Except.ok.inj hq ▸ h⟩

theorem ShowsSections.donate (h : p.ShowsSections s) (c target : Nat) (next : Option Nat) :
    (p.donate c target next).ShowsSections (s.donate c target next) := h.updateThread c _

/-! What the calls do up to the end of their sections; `exit` is what that end finds. -/

variable {exit : KernelExit}

/-- `pok_thread_stop_target` -/
theorem stopTarget_sections {id : Nat} (hpoint : (p.threads c).point = .running)
    (h : p.pokThreadStopTarget c id = .ok (q, errno)) :
    q = p ∨ ∃ r, p.threadKernel c (p.threads c) (.stopTarget id exit) = some (r, exit) ∧
      q.ShowsSections r := by
  have hself := p.showsSections_self
  unfold pokThreadStopTarget withThread at h
  by_cases hthread : p.HasThread id
  swap
  · rw [if_neg hthread] at h
    exact .inl (congrArg Prod.fst (Except.ok.inj h)).symm
  rw [if_pos hthread] at h
  dsimp only at h
  by_cases hc : id = c
  · rw [if_pos hc] at h
    exact .inl (congrArg Prod.fst (Except.ok.inj h)).symm
  rw [if_neg hc] at h
  by_cases hstopped : (p.threads id).state = .stopped
  · rw [if_pos hstopped] at h
    exact .inl (congrArg Prod.fst (Except.ok.inj h)).symm
  rw [if_neg hstopped] at h
  suffices hstop : ∃ r, p.toSectionSystem.threadStopTarget c id = some r ∧ q.ShowsSections r by
    obtain ⟨r, hr, hshows⟩ := hstop
    refine .inr ⟨r, ?_, hshows⟩
    simp only [threadKernel]
    rw [if_pos hpoint, if_pos ⟨hthread, hc⟩, hr]
    rfl
  unfold threadStopTarget
  rw [if_neg hstopped]
  cases htarget : (p.threads id).donateTarget with
  | some target =>
    rw [htarget] at h
    obtain rfl := congrArg Prod.fst (Except.ok.inj h)
    exact ⟨_, rfl, ((hself.updateThread id _).donate c target _).localInvalidate⟩
  | none =>
    rw [htarget] at h
    dsimp only at h ⊢
    split_ifs at h ⊢
    · obtain rfl := congrArg Prod.fst (Except.ok.inj h)
      exact ⟨_, rfl, ((hself.updateThread id _).donate c id _).localInvalidate⟩
    · obtain ⟨m, hm, rfl⟩ := Outcome.map_eq_ok (ok_of_returning h)
      obtain ⟨r, hr, hshows⟩ := hself.interruptWait hm
      exact ⟨_, by rw [hr]; rfl, ((hshows.updateThread id _).donate c id _).localInvalidate⟩
    · exact hself.threadStop (ok_of_returning h)

theorem errorIgnoreSync_sections (h : p.errorIgnoreSync = .ok q) :
    q.toSectionSystem = p.toSectionSystem := by
  unfold errorIgnoreSync at h
  cases hlist : p.errorList with
  | nil =>
    rw [hlist] at h
    exact congrArg _ (Except.ok.inj h).symm
  | cons t rest =>
    rw [hlist] at h
    dsimp only at h
    split_ifs at h
    · obtain ⟨m, hm, rfl⟩ := Outcome.map_eq_ok h
      change m.toSectionSystem = _
      unfold threadClearErrorBit at hm
      split_ifs at hm
      dsimp only at hm
      split_ifs at hm
      all_goals
        obtain rfl := Except.ok.inj hm
        rfl
    · exact congrArg _ (Except.ok.inj h).symm

/-- `pok_thread_stop`, by the error handler too -/
theorem stop_sections {hm : PartitionHm} (hpoint : (p.threads c).point = .running)
    (h : p.pokThreadStop hm c = .ok (q, errno)) :
    ∃ r, p.threadKernel c (p.threads c) (.stop exit) = some (r, exit) ∧ q.ShowsSections r := by
  unfold pokThreadStop at h
  split_ifs at h with hdonates herror
  all_goals
    rw [not_or, not_not, not_not] at hdonates
    obtain ⟨stopped, hstopped, hrest⟩ := Outcome.bind_eq_ok (ok_of_returning h)
    obtain ⟨r, hr, hshows⟩ := p.showsSections_self.threadStop hstopped
    obtain ⟨ended, hended, rfl⟩ := Outcome.map_eq_ok hrest
    refine ⟨r.invalidate, ?_, ShowsSections.localInvalidate (hshows.same ?_)⟩
    · simp only [threadKernel]
      rw [if_pos ⟨hpoint, hdonates⟩, hr]
      rfl
  · obtain ⟨checked, hchecked, hignored⟩ := Outcome.bind_eq_ok hended
    rw [errorIgnoreSync_sections hignored]
    unfold errorCheckAfterHandler at hchecked
    split_ifs at hchecked
    · exact congrArg _ (Except.ok.inj hchecked).symm
    · obtain ⟨processed, -, he⟩ := Outcome.map_eq_ok hchecked
      exact congrArg _ he.symm
  · exact congrArg _ (Except.ok.inj hended).symm

/-- One pass of the loop of `jet_resched` -/
theorem ShowsSections.resumeDonator (h : p.ShowsSections s) {donator : Nat}
    (hq : p.resumeDonator donator = .ok q) :
    ∃ r, s.resumeDonator donator = some r ∧ q.ShowsSections r := by
  have hselected : p.threadSelected = s.threadSelected := by
    obtain ⟨b, hb⟩ := h
    rw [hb]
    rfl
  unfold ArincPartition.resumeDonator at hq
  obtain ⟨m, hm, rfl⟩ := Outcome.map_eq_ok hq
  have hseen := (h.updateThread donator fun th => { th with
    donateTarget := none }).localInvalidate_if (p.threadSelected = some donator)
  rw [h.threads] at hm
  rw [hselected] at hm hseen
  rw [resumeDonator_eq]
  by_cases hfirst : (s.threads donator).firstDonator = none
  · rw [if_pos hfirst] at hm ⊢
    obtain rfl := Except.ok.inj hm
    refine ⟨_, rfl, ?_⟩
    have hlast := hseen.updateThread donator fun th => { th with nextDonator := none }
    rwa [updateThread_askRecheck, updateThread_updateThread] at hlast
  · rw [if_neg hfirst] at hm ⊢
    obtain ⟨r, hr, hshows⟩ :=
      (hseen.updateThread donator fun th => { th with firstDonator := none }).threadStop hm
    have hlast := hshows.updateThread donator fun th => { th with nextDonator := none }
    rw [updateThread_askRecheck, updateThread_updateThread, ← updateThread_askRecheck,
      threadStop_updateThread (by intro; rfl)] at hr
    rw [threadStop_updateThread (by intro; rfl)]
    have hstate : ((s.askRecheck (decide (s.threadSelected = some donator))).threads
        donator).state = (s.threads donator).state := rfl
    rw [hstate] at hr
    split_ifs at hr ⊢
    obtain rfl := Option.some.inj hr
    refine ⟨_, rfl, ?_⟩
    rw [updateThread_askRecheck, updateThread_askRecheck, updateThread_updateThread] at hlast
    dsimp only
    rwa [updateThread_updateThread]

theorem ShowsSections.resumeDonators {fuel donator : Nat} (h : p.ShowsSections s)
    (hq : ArincPartition.resumeDonators fuel p donator = .ok q) :
    ∃ r, SectionSystem.resumeDonators fuel s donator = some r ∧ q.ShowsSections r := by
  induction fuel generalizing p s donator with
  | zero => cases hq
  | succ fuel ih =>
    unfold ArincPartition.resumeDonators at hq
    unfold SectionSystem.resumeDonators
    obtain ⟨m, hm, hrest⟩ := Outcome.bind_eq_ok hq
    obtain ⟨r, hr, hshows⟩ := h.resumeDonator hm
    rw [h.threads] at hrest
    rw [hr, Option.bind_some]
    cases hnext : (s.threads donator).nextDonator with
    | none =>
      rw [hnext] at hrest
      exact ⟨r, rfl, Except.ok.inj hrest ▸ hshows⟩
    | some next =>
      rw [hnext] at hrest
      exact ih hshows hrest

theorem ShowsSections.checkReleased (h : p.ShowsSections s) :
    (p.onSections (·.checkReleased)).ShowsSections s.checkReleased := by
  obtain ⟨b, hb⟩ := h
  refine ⟨b, ?_⟩
  change p.toSectionSystem.checkReleased = _
  rw [hb, checkReleased_askRecheck]

/-- `jet_resched` -/
theorem jetResched_sections (h : p.jetResched c = .ok q) :
    ∃ r, p.toSectionSystem.resched c = some r ∧ q.ShowsSections r := by
  have hchecked := p.showsSections_self.checkReleased
  unfold jetResched at h
  unfold resched
  cases hdonator : (p.threads c).firstDonator with
  | none =>
    rw [hdonator] at h
    exact ⟨_, rfl, Except.ok.inj h ▸ hchecked⟩
  | some donator =>
    rw [hdonator] at h
    dsimp only at h ⊢
    split_ifs at h ⊢
    · obtain ⟨m, hm, hrest⟩ := Outcome.bind_eq_ok h
      obtain ⟨r, hr, hshows⟩ := (hchecked.updateThread c _).threadStop hm
      rw [hr, Option.bind_some]
      exact hshows.resumeDonators hrest
    · exact ⟨_, rfl, Except.ok.inj h ▸ hchecked⟩

/-- The end of `msection_leave` -/
theorem checkFlags_sections (h : p.leaveCheckFlags c = .ok (q, errno)) :
    ∃ r, p.threadKernel c (p.threads c) (.checkFlags exit) = some (r, exit) ∧
      q.ShowsSections r := by
  unfold leaveCheckFlags at h
  simp only [threadKernel]
  cases hpoint : (p.threads c).point with
  | discounted sec =>
    rw [hpoint] at h
    dsimp only at h ⊢
    split_ifs at h with hmust
    unfold MustResched at hmust
    rw [if_pos hmust]
    obtain ⟨m, hm, rfl⟩ := Outcome.map_eq_ok (ok_of_returning h)
    obtain ⟨r, hr, hshows⟩ := jetResched_sections hm
    exact ⟨_, by rw [hr]; rfl, hshows.updateThread c _⟩
  | _ =>
    rw [hpoint] at h
    cases h

/-- `jet_msection_enter_helper` -/
theorem enterHelper_sections (h : p.msectionEnterHelper c = .ok (q, errno)) :
    p.threadKernel c (p.threads c) (.enterHelper exit) = some (q.toSectionSystem, exit) := by
  unfold ArincPartition.msectionEnterHelper at h
  simp only [threadKernel]
  cases hpoint : (p.threads c).point with
  | readOther sec =>
    rw [hpoint] at h
    obtain rfl := congrArg Prod.fst (Except.ok.inj h)
    rfl
  | _ =>
    rw [hpoint] at h
    cases h

theorem ShowsSections.threadWaitCommon {duration now : Int} {arith : TimeArith}
    (h : p.ShowsSections s) (hq : p.threadWaitCommon t duration now arith = .ok q) :
    q.ShowsSections (s.updateThread t fun th => { th with state := .waiting }) := by
  have hwait : ∀ {q'}, p.threadWait t = .ok q' →
      q'.ShowsSections (s.updateThread t fun th => { th with state := .waiting }) := by
    intro q' hq'
    unfold threadWait at hq'
    split_ifs at hq'
    obtain rfl := Except.ok.inj hq'
    exact (h.updateThread t _).threadSetUneligible t
  unfold ArincPartition.threadWaitCommon at hq
  split_ifs at hq
  · exact hwait hq
  · unfold threadWaitTimed at hq
    split_ifs at hq
    obtain ⟨m, hm, rfl⟩ := Outcome.map_eq_ok hq
    exact (hwait hm).same rfl

theorem ShowsSections.updateSection (h : p.ShowsSections s) (sec : Nat) (f : Msection → Msection) :
    (p.onSections fun s => s.updateSection sec f).ShowsSections (s.updateSection sec f) := by
  obtain ⟨b, hb⟩ := h
  refine ⟨b, ?_⟩
  change p.toSectionSystem.updateSection sec f = _
  rw [hb]
  rfl

/-- `jet_msection_wait` -/
theorem wait_sections {timeout now : Int} {arith : TimeArith}
    (hpoint : (p.threads c).point = .running)
    (h : p.msectionWait c sec timeout now arith = .ok (q, errno)) :
    q = p ∨ ∃ r, p.threadKernel c (p.threads c) (.wait sec false exit) = some (r, exit) ∧
      q.ShowsSections r := by
  have hself := p.showsSections_self
  unfold ArincPartition.msectionWait at h
  split_ifs at h with howner hrefused hdonator
  · exact .inl (congrArg Prod.fst (Except.ok.inj h)).symm
  all_goals
    refine .inr ?_
    simp only [threadKernel]
    rw [if_pos ⟨hpoint, howner⟩, if_neg Bool.false_ne_true]
    refine ⟨_, rfl, ?_⟩
    unfold SectionSystem.msectionWait
  · rw [if_pos hdonator]
    obtain rfl := congrArg Prod.fst (Except.ok.inj h)
    exact hself.updateThread c _
  · rw [if_neg hdonator]
    obtain ⟨m, hm, rfl⟩ := Outcome.map_eq_ok (ok_of_returning h)
    have hlast := (((hself.updateThread c _).updateSection sec _).threadWaitCommon
      hm).localInvalidate
    rwa [updateSection_updateThread, updateThread_updateThread] at hlast

/-- The threads that a notification finds are those of its list that still wait. -/
theorem ShowsSections.msectionNotifyAll {targets : List Nat} (h : p.ShowsSections s)
    (hq : ArincPartition.msectionNotifyAll sec targets p = .ok q) :
    ∃ found r, found.Sublist targets ∧ SectionSystem.msectionNotify sec s found = some r ∧
      q.ShowsSections r := by
  induction targets generalizing p s with
  | nil => exact ⟨[], s, .slnil, rfl, Except.ok.inj hq ▸ h⟩
  | cons t ts ih =>
    unfold ArincPartition.msectionNotifyAll at hq
    rw [h.threads] at hq
    split_ifs at hq with hused hwaiting hentering
    · obtain ⟨found, r, hsub, hr, hshows⟩ := ih h hq
      exact ⟨found, r, hsub.cons t, hr, hshows⟩
    · obtain ⟨m, hm, hrest⟩ := Outcome.bind_eq_ok hq
      obtain ⟨r, hr, hshows⟩ := h.threadWakeUp hm .ok
      obtain ⟨found, r', hsub, hr', hshows'⟩ := ih hshows hrest
      refine ⟨t :: found, r', hsub.cons_cons t, ?_, hshows'⟩
      unfold SectionSystem.msectionNotify
      rw [if_pos (not_not.mp hentering), hr]
      exact hr'

/-- `jet_msection_notify` and `jet_msection_wq_notify` -/
theorem notify_sections {targets : List Nat} (hpoint : (p.threads c).point = .running)
    (h : p.msectionNotify c sec targets = .ok (q, errno)) :
    ∃ found r, found.Sublist targets ∧
      p.threadKernel c (p.threads c) (.notify sec found exit) = some (r, exit) ∧
      q.ShowsSections r := by
  unfold ArincPartition.msectionNotify at h
  split_ifs at h with howner
  obtain ⟨found, r, hsub, hr, hshows⟩ :=
    p.showsSections_self.msectionNotifyAll (ok_of_returning h)
  refine ⟨found, r, hsub, ?_, hshows⟩
  simp only [threadKernel]
  rw [if_pos ⟨hpoint, howner⟩, hr]
  rfl

end ArincPartition

end Chpok
