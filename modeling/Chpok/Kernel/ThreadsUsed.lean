import Chpok.Kernel.ReleasePoints

/-! The threads that exist. Only the creation of a process or of the error handler adds one. -/

namespace Chpok

namespace ArincPartition

open Outcome

variable {p q r : ArincPartition} {c : Nat} {hm : PartitionHm}

/-- The same threads exist. -/
structure SameThreads (p q : ArincPartition) : Prop where
  used : q.nthreadsUsed = p.nthreadsUsed
  error : q.threadError = p.threadError

theorem SameThreads.refl (p : ArincPartition) : SameThreads p p := ⟨rfl, rfl⟩

theorem SameThreads.trans (h : SameThreads p q) (h' : SameThreads q r) : SameThreads p r :=
  ⟨h'.used.trans h.used, h'.error.trans h.error⟩

theorem KeepsFrame.sameThreads {armed : Nat → Prop} (h : KeepsFrame armed p q) :
    SameThreads p q := ⟨h.used, h.error⟩

/-- What a call does to the threads that exist. -/
def Grows (p : ArincPartition) (call : ArincCall) (r : ArincPartition × PokErrno) : Prop :=
  match call with
  | .create _ _ _ =>
    if r.2 = .ok then r.1.nthreadsUsed = p.nthreadsUsed + 1 ∧ r.1.threadError = p.threadError
    else SameThreads p r.1
  | .createError _ _ =>
    SameThreads p r.1 ∨ p.threadError = none ∧ r.1.nthreadsUsed = p.nthreadsUsed + 1 ∧
      r.1.threadError = some p.nthreadsUsed
  | _ => SameThreads p r.1

theorem pokThreadCreate_grows {attr : ThreadAttr} {entryOk stackOk : Bool} :
    Sat (fun _ => True) (Grows p (.create attr entryOk stackOk))
      (p.pokThreadCreate attr entryOk stackOk) := by
  refine Sat.ite (fun _ => ⟨rfl, rfl⟩) fun _ => Sat.ite (fun _ => ⟨rfl, rfl⟩) fun _ => ?_
  split
  next errno herrno =>
    have hne : errno ≠ .ok := by
      rintro rfl
      unfold attrErrno at herrno
      split_ifs at herrno <;> cases herrno
    rw [sat_ok, Grows]
    rw [if_neg hne]
    exact ⟨rfl, rfl⟩
  next =>
    exact Sat.ite (fun _ => ⟨rfl, rfl⟩) fun _ => Sat.ite (fun _ => ⟨rfl, rfl⟩) fun _ =>
      Sat.ite (fun _ => ⟨rfl, rfl⟩) fun _ => ⟨rfl, rfl⟩

theorem errorThreadCreate_grows {entryOk stackOk : Bool} :
    Sat (fun _ => True) (Grows p (.createError entryOk stackOk))
      (p.errorThreadCreate entryOk stackOk) := by
  refine Sat.ite (fun _ => .inl (SameThreads.refl p)) fun _ =>
    Sat.ite (fun _ => .inl (SameThreads.refl p)) fun herror =>
      Sat.ite (fun _ => .inl (SameThreads.refl p)) fun _ =>
        Sat.ite (fun _ => .inl (SameThreads.refl p)) fun _ =>
          Sat.ite (fun _ => .inl ⟨rfl, rfl⟩) fun _ => .inr ⟨not_not.mp herror, rfl, rfl⟩

theorem partitionSetMode_sameThreads {mode : PartitionMode} {now start : Int} :
    Sat (fun _ => True) (fun r => SameThreads p r.1) (p.partitionSetMode mode now start) := by
  have hreset : ∀ {m : PartitionMode}, Sat (fun _ => True) (fun r : ArincPartition × PokErrno =>
      SameThreads p r.1) (returning .ok (p.partitionReset m)) :=
    Sat.map (Sat.ite (fun _ => trivial) fun _ => trivial) fun r (hr : SameThreads p r) => hr
  cases mode with
  | initWarm => exact Sat.ite (fun _ => SameThreads.refl p) fun _ => hreset
  | initCold => exact hreset
  | idle => trivial
  | normal =>
    refine Sat.ite (fun _ => SameThreads.refl p) fun _ => ?_
    apply Sat.map (releaseThreads_keeps fun _ => trivial)
    exact fun q (hk : Keeps (fun _ => True) _ q) => ⟨hk.choice.used, hk.choice.error⟩

theorem call_grows {call : ArincCall} (hfree : HandlerFree p) :
    Sat (fun _ => True) (Grows p call) (p.call hm c call) := by
  have hchoice : ∀ {m : Except PartitionExit (ArincPartition × PokErrno)},
      Sat (fun _ => True) (fun r => KeepsChoice (fun _ => True) p r.1) m →
        Sat (fun _ => True) (fun r => SameThreads p r.1) m :=
    fun hm => hm.weaken fun _ hk => hk.toKeepsFrame.sameThreads
  cases call with
  | create => exact Sat.ite (fun _ => trivial) fun _ => pokThreadCreate_grows
  | createError => exact Sat.ite (fun _ => trivial) fun _ => errorThreadCreate_grows
  | stop => exact Sat.ite (fun _ => trivial) fun _ => hchoice pokThreadStop_keeps
  | incLockLevel =>
    refine Sat.ite (fun _ => trivial) fun _ => ?_
    unfold ArincPartition.incLockLevel
    split_ifs <;> exact ⟨rfl, rfl⟩
  | decLockLevel =>
    refine Sat.ite (fun _ => trivial) fun _ => ?_
    unfold ArincPartition.decLockLevel
    split_ifs <;> exact ⟨rfl, rfl⟩
  | setMode => exact Sat.ite (fun _ => trivial) fun _ => partitionSetMode_sameThreads
  | raiseApplicationError =>
    exact Sat.ite (fun _ => trivial) fun _ => hchoice raiseApplicationError_keeps
  | raiseOsError => exact Sat.ite (fun _ => trivial) fun _ => hchoice raiseOsError_keeps
  | errorGet =>
    refine Sat.ite (fun _ => trivial) fun _ => ?_
    have hframe : Sat (fun _ => True) (fun r => KeepsFrame (fun _ => True) p r.1) (p.errorGet c) :=
      errorGet_frame
    exact hframe.map fun _ hk => hk.sameThreads
  | _ =>
    apply hchoice
    apply Sat.weaken (call_keeps (by trivial) hfree fun _ _ => trivial)
    exact fun _ (hk : Keeps (fun _ => True) p _) => hk.choice

theorem drain_sameThreads {events : List DrainedEvent} :
    Sat (fun _ => True) (SameThreads p) (drain hm events p) :=
  drain_keeps.weaken fun _ (hk : KeepsChoice (fun _ => True) p _) => hk.toKeepsFrame.sameThreads

theorem reschedule_sameThreads : Sat (fun _ => True) (SameThreads p) p.reschedule := by
  refine Sat.ite (fun _ => ?_) fun _ => SameThreads.refl p
  apply (schedRule_ruled.mono (fun _ _ => trivial) fun _ hn => hn).bind
  intro n hn
  apply selectAndSwitch_switched.mono (fun _ _ => trivial)
  intro q hs
  have hruled : SameThreads p n.1 := by
    cases hn with
    | init | handler | normal => exact ⟨rfl, rfl⟩
    | start e => exact ⟨rfl, rfl⟩
  exact hruled.trans ⟨hs.used, hs.error⟩

/-- A step is a call, of which something comes back, and what keeps the threads. -/
theorem run_threads {e : ArincInput} (hfree : HandlerFree p) (hrun : p.run hm e = .ok q) :
    (∃ call events c r, e = .call call events ∧ p.threadCurrent = some c ∧
      p.call hm c call = .ok r ∧ Grows p call r ∧ SameThreads r.1 q) ∨
    (∀ call events, e ≠ .call call events) ∧ SameThreads p q := by
  have hdrained : ∀ {r : ArincPartition} {events : List DrainedEvent}, SameThreads p r →
      Sat (fun _ => True) (SameThreads p) (drain hm events r) :=
    fun hr => drain_sameThreads.weaken fun _ hd => hr.trans hd
  have hscheduled : ∀ {m : Except PartitionExit ArincPartition},
      Sat (fun _ => True) (SameThreads p) m →
        Sat (fun _ => True) (SameThreads p) (m.bind reschedule) :=
    fun hm => hm.bind fun _ hr => reschedule_sameThreads.weaken fun _ hs => hr.trans hs
  have hother (hno : ∀ call events, e ≠ .call call events)
      (hm : Sat (fun _ => True) (SameThreads p) (p.run hm e)) :
      (∀ call events, e ≠ .call call events) ∧ SameThreads p q := ⟨hno, hm.of_ok hrun⟩
  cases e with
  | restart => cases hrun
  | user e =>
    refine .inr (hother (by simp) (Sat.ite (fun _ => trivial) fun _ =>
      withCurrent_of_forall fun c _ => ?_))
    unfold liftSections
    split
    · trivial
    · rename_i s hs
      have hkeeps : Keeps (fun _ => True) p (p.onSections fun _ => s) := userStep_keeps hs
      exact hkeeps.choice.toKeepsFrame.sameThreads
  | onEvent =>
    refine .inr (hother (by simp) (Sat.ite (fun _ => trivial) fun _ => hscheduled ?_))
    have hrecorded : Keeps (fun _ => True) p (p.onSections (·.recordEntering)) := recordEntering_keeps
    exact hdrained hrecorded.choice.toKeepsFrame.sameThreads
  | recheck =>
    exact .inr (hother (by simp) (Sat.ite (fun _ => trivial) fun _ =>
      hscheduled (hdrained (SameThreads.refl p))))
  | fault =>
    refine .inr (hother (by simp) (Sat.ite (fun _ => trivial) fun _ => hscheduled ?_))
    exact withCurrent_of_forall fun c _ => Sat.bind processError_keeps
      fun r (hk : KeepsChoice (fun _ => True) p r) => hdrained hk.toKeepsFrame.sameThreads
  | deadlineOor =>
    refine .inr (hother (by simp) (Sat.ite (fun _ => trivial) fun _ => hscheduled ?_))
    exact Sat.bind emitDeadlineOor_keeps
      fun r (hk : KeepsChoice (fun _ => True) p r) => hdrained hk.toKeepsFrame.sameThreads
  | call call events =>
    left
    unfold run at hrun
    split_ifs at hrun
    cases hcurrent : p.threadCurrent with
    | none =>
      simp only [beforeRecheck, withCurrent, hcurrent] at hrun
      cases hrun
    | some c =>
      simp only [beforeRecheck, withCurrent, hcurrent] at hrun
      cases hcall : p.call hm c call with
      | error exit =>
        rw [hcall] at hrun
        cases hrun
      | ok r =>
        rw [hcall] at hrun
        have hafter : Sat (fun _ => True) (SameThreads r.1)
            ((drain hm events r.1).bind reschedule) :=
          drain_sameThreads.bind fun _ hd => reschedule_sameThreads.weaken fun _ hs => hd.trans hs
        exact ⟨call, events, c, r, rfl, rfl, hcall, (call_grows hfree).of_ok hcall,
          hafter.of_ok hrun⟩

end ArincPartition

end Chpok
