import Chpok.Kernel.EligibleModes
import Chpok.Kernel.ThreadSelect

/-! The calls about sections, the events that are drained and the steps in user space keep
the lists of threads. -/

namespace Chpok

namespace ArincPartition

open Outcome

variable {p q : ArincPartition} {t u c : Nat} {hm : PartitionHm}

/-! The calls about sections -/

theorem Caller.main_thread (h : Caller p c) (hmode : p.mode ≠ .normal) : c = 0 := (h.main hmode).1

theorem ListsSound.updateSection {sec : Nat} {f : Msection → Msection} (h : ListsSound p) :
    ListsSound (p.onSections (·.updateSection sec f)) :=
  h.sections_same (s := p.toSectionSystem.updateSection sec f) rfl rfl rfl (fun h => h)
    (fun _ => ⟨rfl, rfl, rfl, rfl⟩) fun _ _ _ => ⟨rfl, rfl⟩

theorem msectionEnterHelper_sound (h : ListsSound p) (hc : Caller p c) :
    Sat QueueExit (fun r => ListsSound r.1) (p.msectionEnterHelper c) := by
  unfold msectionEnterHelper
  split
  · rename_i sec _
    have hentered : ListsSound (p.updateThread c fun th => { th with point := .acquired sec }) :=
      h.updateCaller hc.main_thread rfl rfl rfl rfl
    have hwaiting : ListsSound ((p.updateThread c fun th => { th with
        point := .acquired sec }).updateThread c fun th => { th with msectionEntering := some sec }) :=
      hentered.updateCaller hc.main_thread rfl rfl rfl rfl
    rw [sat_ok]
    change ListsSound ((p.updateThread c fun th => { th with point := .acquired sec }).onSections
      (·.msectionEnterHelper c sec))
    generalize p.updateThread c (fun th => { th with point := .acquired sec }) = r at *
    rcases onSections_msectionEnterHelper (p := r) with he | he
    · rwa [he]
    · rw [he]
      exact hwaiting.localInvalidate
  · trivial

theorem msectionWait_sound {sec : Nat} {timeout now : Int} (h : ListsSound p) (hc : Caller p c) :
    Sat QueueExit (fun r => ListsSound r.1) (p.msectionWait c sec timeout now) := by
  refine Sat.ite (fun _ => ?_) fun _ => Sat.ite (fun _ => h) fun hfree =>
    Sat.ite (fun _ => ?_) fun _ => sat_returning ?_
  · exact (by decide : Assertion.msectionWait ∉ stateAssertions)
  · exact h.updateCaller hc.main_thread rfl rfl rfl rfl
  · rw [not_or] at hfree
    have hmode : p.mode = .normal := by
      by_contra hne
      exact hfree.1 (hc.main hne).2
    have hreleased : ListsSound ((p.updateThread c fun th => { th with
        msectionEntering := some sec, point := .waiting sec }).onSections fun s =>
          s.updateSection sec fun m => { m with owner := none }) :=
      (h.updateCaller hc.main_thread rfl rfl rfl rfl).updateSection
    refine Sat.map ?_ fun q (hq : ListsSound q) => hq.localInvalidate
    exact threadWaitCommon_sound (hreleased.sound.except c) hreleased.placed hmode
      (hc.hasThread hmode hfree.2) (hc.free h.sound).1

theorem ListsSound.waits (h : ListsSound p) (hlt : t < p.nthreadsUsed)
    (hw : (p.threads t).state = .waiting) (hentering : (p.threads t).msectionEntering ≠ none) :
    p.Waits t := by
  have hthread := h.sound.waiting t (by simp) hlt hw
  refine ⟨?_, hthread, hw⟩
  by_contra hne
  exact hentering (h.placed.init hne t hthread).2.2

theorem msectionNotifyAll_sound {sec : Nat} {targets : List Nat} (h : ListsSound p) :
    Sat QueueExit ListsSound (msectionNotifyAll sec targets p) := by
  induction targets generalizing p with
  | nil => exact h
  | cons t targets ih =>
    refine Sat.ite (fun _ => ?_) fun hlt => Sat.ite (fun _ => ih h) fun hw =>
      Sat.ite (fun _ => ?_) fun hentering => ?_
    · exact (by decide : Assertion.msectionNotify ∉ stateAssertions)
    · exact (by decide : Assertion.msectionNotify ∉ stateAssertions)
    · rw [not_not] at hlt hw hentering
      obtain ⟨q, hq, -, hlists⟩ := threadWakeUp_lists h (h.waits hlt hw (by simp [hentering]))
      rw [hq]
      exact ih hlists.setWaitResult

theorem msectionNotify_sound {sec : Nat} {targets : List Nat} (h : ListsSound p) :
    Sat QueueExit (fun r => ListsSound r.1) (p.msectionNotify c sec targets) := by
  refine Sat.ite (fun _ => sat_returning (msectionNotifyAll_sound h)) fun _ => ?_
  exact (by decide : Assertion.msectionNotify ∉ stateAssertions)

/-- Every call of a runnable thread keeps the lists. -/
theorem call_sound {call : ArincCall} (h : ListsSound p) (hc : Caller p c) :
    Sat QueueExit (fun r => ListsSound r.1) (p.call hm c call) := by
  cases call with
  | enterHelper => exact msectionEnterHelper_sound h hc
  | checkFlags => exact leaveCheckFlags_sound h hc
  | create => exact Sat.ite (fun _ => trivial) fun _ => pokThreadCreate_sound h
  | createError => exact Sat.ite (fun _ => trivial) fun _ => errorThreadCreate_sound h
  | delayedStart => exact Sat.ite (fun _ => trivial) fun _ => pokThreadDelayedStart_sound h
  | stopTarget => exact Sat.ite (fun _ => trivial) fun _ => pokThreadStopTarget_sound h hc
  | stop => exact Sat.ite (fun _ => trivial) fun _ => pokThreadStop_sound h hc
  | suspendTarget => exact Sat.ite (fun _ => trivial) fun _ => pokThreadSuspendTarget_sound h
  | suspend => exact Sat.ite (fun _ => trivial) fun _ => pokThreadSuspend_sound h hc
  | resume => exact Sat.ite (fun _ => trivial) fun _ => pokThreadResume_sound h
  | setPriority => exact Sat.ite (fun _ => trivial) fun _ => pokThreadSetPriority_sound h
  | yield => exact Sat.ite (fun _ => trivial) fun _ => sat_returning h.threadYield
  | sleep => exact Sat.ite (fun _ => trivial) fun _ => pokThreadSleep_sound h hc
  | endPeriod => exact Sat.ite (fun _ => trivial) fun _ => pokSchedEndPeriod_sound h hc
  | replenish => exact Sat.ite (fun _ => trivial) fun _ => pokSchedReplenish_sound h
  | portWait => exact Sat.ite (fun _ => trivial) fun _ => pokPortWait_sound h hc
  | incLockLevel => exact Sat.ite (fun _ => trivial) fun _ => incLockLevel_sound h hc
  | decLockLevel => exact Sat.ite (fun _ => trivial) fun _ => decLockLevel_sound h
  | setMode => exact Sat.ite (fun _ => trivial) fun _ => partitionSetMode_sound h
  | raiseApplicationError => exact Sat.ite (fun _ => trivial) fun _ => raiseApplicationError_sound h
  | raiseOsError => exact Sat.ite (fun _ => trivial) fun _ => raiseOsError_sound h
  | errorGet => exact Sat.ite (fun _ => trivial) fun _ => (errorGet_sound h).map fun _ hr => hr
  | msectionWait => exact Sat.ite (fun _ => trivial) fun _ => msectionWait_sound h hc
  | msectionNotify => exact Sat.ite (fun _ => trivial) fun _ => msectionNotify_sound h

/-! The events -/

theorem ListsSound.dropEvent {event : DelayedEvent} {rest : List DelayedEvent}
    (h : ListsSound p) (he : p.delayedEvents = event :: rest) :
    ListsSound { p with delayedEvents := rest } where
  sound := {
    h.sound with
    delayed := by
      rintro u hu ⟨e, hmem, hkind⟩
      exact h.sound.delayed u hu ⟨e, by simp [he, hmem], hkind⟩
    resumes := by
      rintro u hu ⟨e, hmem, hkind⟩
      exact h.sound.resumes u hu ⟨e, by simp [he, hmem], hkind⟩
    unique := by
      have hunique := h.sound.unique
      rw [he, List.map_cons] at hunique
      exact (List.nodup_cons.mp hunique).2 }
  placed := h.placed.same rfl rfl rfl rfl

theorem ListsSound.not_active_dropEvent {event : DelayedEvent} {rest : List DelayedEvent}
    (h : ListsSound p) (he : p.delayedEvents = event :: rest) :
    ¬ DelayedEventActive { p with delayedEvents := rest } event.thread event.kind := by
  rintro ⟨e, hmem, hthread, hkind⟩
  have hunique := h.sound.unique
  rw [he, List.map_cons] at hunique
  apply (List.nodup_cons.mp hunique).1
  rw [← hthread, ← hkind]
  exact List.mem_map.mpr ⟨e, hmem, rfl⟩

theorem processEvent_sound {event : DelayedEvent} {rest : List DelayedEvent}
    (h : ListsSound p) (he : p.delayedEvents = event :: rest) :
    Sat QueueExit ListsSound (processEvent hm { p with delayedEvents := rest } event) := by
  have hdropped := h.dropEvent he
  have hinactive := h.not_active_dropEvent he
  unfold processEvent
  cases hkind : event.kind with
  | deadline => exact emitDeadlineMissed_sound hdropped
  | delayed =>
    have hactive : p.DelayedEventActive event.thread .delayed :=
      ⟨event, by simp [he], rfl, hkind⟩
    have hw : p.Waits event.thread := h.sound.delayed _ (by simp) hactive
    dsimp only
    cases hfunc : (p.sched event.thread).delayedFunc with
    | wakeUp =>
      obtain ⟨q, hq, -, hlists⟩ := threadWakeUp_lists (t := event.thread) hdropped hw
      rw [hq]
      exact hlists
    | resumeWaited =>
      have hfree := h.sound.resumes _ (by simp) hactive hfunc
      obtain ⟨q, hq, hmoves, hsound⟩ := threadResumeWaited_sound (t := event.thread)
        hdropped.sound hw (hkind ▸ hinactive) hfree
      rw [hq]
      exact ⟨hsound, hdropped.placed.moves_normal hmoves hw.1⟩

theorem delayedEventQueueCheck_sound {now : Int} {n : Nat} (h : ListsSound p) :
    Sat QueueExit ListsSound (delayedEventQueueCheck hm now n p) := by
  induction n generalizing p with
  | zero => exact h
  | succ n ih =>
    rw [delayedEventQueueCheck]
    split
    · exact h
    · rename_i event rest he
      exact Sat.ite (fun _ => h) fun _ => (processEvent_sound h he).bind fun q hq => ih hq

theorem portQueuingFired_sound {port served : Nat} (h : ListsSound p) :
    Sat QueueExit ListsSound (portQueuingFired port served p) := by
  induction served generalizing p with
  | zero => exact h
  | succ served ih =>
    rw [portQueuingFired]
    split
    · exact h
    · rename_i t rest he
      obtain ⟨hlt, hlink⟩ := (h.sound.waiters port t).mp (by simp [he])
      have hw : p.Waits t := h.sound.linked t (by simp) hlt (by simp [hlink])
      have hmoves : Moves t p (p.threadWqRemove t) := moves_threadWqRemove
      have hout : t ∉ (p.threadWqRemove t).eligibleThreads := by
        simpa using notMem_of_not_eligible h.sound hw.not_eligible
      have hw' : (p.threadWqRemove t).Waits t :=
        ⟨hmoves.mode.trans hw.1, hmoves.hasThread.mpr hw.2.1, by simpa using hw.2.2⟩
      obtain ⟨q, hq, hwoken, hsound⟩ := threadWakeUp_sound (hmoves.sound (h.sound.except t)) hout hw'
      rw [hq]
      apply ih
      have hplaced := (h.placed.moves_normal hmoves hw.1).moves_normal hwoken hw'.1
      exact ListsSound.setWaitResult ⟨hsound, hplaced⟩

theorem drain_sound {events : List DrainedEvent} (h : ListsSound p) :
    Sat QueueExit ListsSound (drain hm events p) := by
  induction events generalizing p with
  | nil => exact h
  | cons event events ih =>
    have hdrained : Sat QueueExit ListsSound (p.processDrained hm event) := by
      cases event with
      | timer => exact delayedEventQueueCheck_sound h
      | port => exact portQueuingFired_sound h
    exact hdrained.bind fun q hq => ih hq

theorem ListsSound.recordEntering (h : ListsSound p) :
    ListsSound (p.onSections (·.recordEntering)) := by
  unfold onSections SectionSystem.recordEntering
  dsimp only
  cases hcurrent : p.threadCurrent with
  | none => exact h
  | some c =>
    dsimp only
    cases (p.threads c).sharedEntering with
    | none => exact h
    | some sec =>
      refine ListsSound.updateCaller h ?_ rfl rfl rfl rfl
      exact fun hmode => (h.placed.main hmode).1 c hcurrent

theorem userStep_sound {e : SectionInput} {s : SectionSystem} (h : ListsSound p)
    (hcurrent : p.threadCurrent = some c) (hs : p.userStep c e = some s) :
    ListsSound (p.onSections fun _ => s) := by
  have hgoes := userStep_goesOn hs
  apply h.sections_same hgoes.used hgoes.error hgoes.current fun hr => hgoes.recheck.trans hr
  · intro u
    by_cases hu : u = c
    · subst hu
      exact ⟨hgoes.state, hgoes.target, hgoes.firstDonator, hgoes.nextDonator⟩
    · rw [hgoes.others u hu]
      exact ⟨rfl, rfl, rfl, rfl⟩
  · intro hmode u hthread
    have hne : u ≠ c := by
      rw [(h.placed.main hmode).1 c hcurrent]
      exact Nat.pos_iff_ne_zero.mp hthread.1
    rw [hgoes.others u hne]
    exact ⟨rfl, rfl⟩

end ArincPartition

end Chpok
