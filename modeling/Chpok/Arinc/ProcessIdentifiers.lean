import Chpok.Arinc.Processes
import Chpok.Kernel.ProcessFrame

/-! Identifiers of processes. Every service looks the 8 bits of the identifier up among the threads
that exist, and acts on the one it has found. -/

namespace Chpok

namespace ProcessService

open ArincPartition

variable {p q : ArincPartition} {service : ProcessService} {c : Nat} {id : Int}
  {code : ReturnCode}

/-- The library itself refuses the arguments. -/
def Refuses (id : Int) : ProcessService → Prop
  | .getProcessStatus => False
  | .setPriority priority => id = 0 ∨ priority < minPriorityValue ∨ maxPriorityValue < priority
  | _ => id = 0

instance (id : Int) : DecidablePred (Refuses id) := by
  intro service
  cases service <;> unfold Refuses <;> infer_instance

/-- The thread that a service finds. -/
def found (p : ArincPartition) (id : Int) (service : ProcessService) : Option Nat :=
  if service.Refuses id then none
  else if p.HasThread (coreThreadId id) then some (coreThreadId id) else none

theorem call_refused (h : service.Refuses id) :
    service.call p c id = .ok (p, .invalidParam) := by
  cases service with
  | getProcessStatus => exact h.elim
  | setPriority priority =>
    rw [call, ArincPartition.setPriority, checkProcessId]
    obtain hid | hrange := h
    · rw [if_pos hid]
    · rw [if_pos hrange, ite_self]
  | _ => exact if_pos h

theorem checkProcessId_passed {r : Except PartitionExit (ArincPartition × ReturnCode)}
    (h : id ≠ 0) : p.checkProcessId id r = r := if_neg h

theorem call_unknown (h : ¬ service.Refuses id) (hthread : ¬ p.HasThread (coreThreadId id)) :
    service.call p c id = .ok (p, .invalidParam) := by
  have hnone (f : Nat → Except PartitionExit (ArincPartition × PokErrno)) :
      p.withThread (coreThreadId id) f = .ok (p, .param) := if_neg hthread
  cases service with
  | getProcessStatus =>
    rw [call, ArincPartition.getProcessStatus, pokThreadGetStatus, if_neg hthread]
  | setPriority priority =>
    obtain ⟨hid, hrange⟩ := not_or.mp h
    rw [call, ArincPartition.setPriority, checkProcessId_passed hid, if_neg hrange,
      pokThreadSetPriority, hnone]
    rfl
  | suspend =>
    rw [call, ArincPartition.suspend, checkProcessId_passed h, pokThreadSuspendTarget, hnone]
    rfl
  | resume =>
    rw [call, ArincPartition.resume, checkProcessId_passed h, pokThreadResume, hnone]
    rfl
  | stop =>
    rw [call, ArincPartition.stop, checkProcessId_passed h, pokThreadStopTarget, hnone]
    rfl
  | start now processingStart =>
    rw [call, ArincPartition.start, ArincPartition.delayedStart, checkProcessId_passed h,
      pokThreadDelayedStart, hnone]
    rfl
  | delayedStart delay now processingStart =>
    rw [call, ArincPartition.delayedStart, checkProcessId_passed h, pokThreadDelayedStart, hnone]
    rfl

end ProcessService

namespace ArincPartition

open Outcome

variable {p q : ArincPartition} {c t id : Nat}

/-- A call that acts on the thread that it has found, or is refused. -/
def Acts (c t : Nat) (p : ArincPartition) (m : Except PartitionExit (ArincPartition × PokErrno)) :
    Prop :=
  Sat (fun _ => True) (fun r => ActsOn c t p r.1) m

theorem acts_of_confined {errno : PokErrno} {m : Except PartitionExit ArincPartition}
    (h : ∀ q, m = .ok q → Confined t p q) : Acts c t p (returning errno m) :=
  Sat.map (Sat.of_forall h) fun _ hq => hq.actsOn c

theorem acts_same {errno : PokErrno} : Acts c t p (.ok (p, errno)) := (Confined.refl t p).actsOn c

theorem pokThreadSetPriority_acts {priority : Nat} (hid : p.HasThread id) :
    Acts c id p (p.pokThreadSetPriority id priority) := by
  unfold pokThreadSetPriority withThread
  rw [if_pos hid]
  refine Sat.ite (fun _ => acts_same) fun _ => Sat.ite (fun _ => acts_same) fun _ => ?_
  exact acts_of_confined fun q hq => confined_updateSched.trans (confined_threadYield hq)

theorem pokThreadResume_acts (hid : p.HasThread id) : Acts c id p (p.pokThreadResume c id) := by
  unfold pokThreadResume withThread
  rw [if_pos hid]
  refine Sat.ite (fun _ => acts_same) fun _ => Sat.ite (fun _ => acts_same) fun _ =>
    Sat.ite (fun _ => acts_same) fun _ => Sat.ite (fun _ => acts_same) fun _ => ?_
  exact acts_of_confined fun q hq => confined_threadResume hq

theorem pokThreadSuspendTarget_acts (hid : p.HasThread id) :
    Acts c id p (p.pokThreadSuspendTarget c id) := by
  unfold pokThreadSuspendTarget withThread
  rw [if_pos hid]
  refine Sat.ite (fun _ => acts_same) fun _ => Sat.ite (fun _ => acts_same) fun _ =>
    Sat.ite (fun _ => acts_same) fun _ => Sat.ite (fun _ => acts_same) fun _ =>
      Sat.ite (fun _ => acts_same) fun _ => ?_
  exact (confined_updateSched.trans confined_threadSetUneligible).actsOn c

theorem pokThreadStopTarget_acts (hid : p.HasThread id) :
    Acts c id p (p.pokThreadStopTarget c id) := by
  unfold pokThreadStopTarget withThread
  rw [if_pos hid]
  refine Sat.ite (fun _ => acts_same) fun _ => Sat.ite (fun _ => acts_same) fun _ => ?_
  split
  · exact confined_updateThread.donate.localInvalidate
  · refine Sat.ite (fun _ => confined_updateThread.donate.localInvalidate) fun _ =>
      Sat.ite (fun _ => ?_) fun _ => acts_of_confined fun q hq => confined_threadStop hq
    have hinterrupted : Sat (fun _ => True) (Confined id p) (p.interruptWait id) :=
      Sat.of_forall fun q hq => confined_interruptWait hq
    refine Sat.map (Sat.map hinterrupted fun q hq => ?_) fun r hr => hr
    exact (hq.trans confined_updateThread).donate.localInvalidate

theorem confined_setNextActivation {next : Int} : Confined t p (p.setNextActivation t next) := by
  unfold setNextActivation
  split_ifs
  · exact Confined.refl t p
  · exact confined_updateSched

theorem confined_setStartDeadline {start : Int} : Confined t p (p.setStartDeadline t start) := by
  unfold setStartDeadline
  split_ifs
  · exact Confined.refl t p
  · exact confined_delayedEventAdd

theorem confined_resetStarted : Confined t p (p.resetStarted t) :=
  confined_updateSched.trans confined_updateThread

theorem pokThreadDelayedStart_acts {delay now start : Int} (hid : p.HasThread id) :
    Acts c id p (p.pokThreadDelayedStart id delay now start) := by
  unfold pokThreadDelayedStart withThread
  rw [if_pos hid]
  refine Sat.ite (fun _ => acts_same) fun _ => ?_
  unfold threadDelayedStartInternal
  refine Sat.ite (fun _ => trivial) fun _ => Sat.ite (fun _ => acts_same) fun _ =>
    Sat.ite (fun _ => acts_same) fun _ => Sat.ite (fun _ => ?_) fun _ => ?_
  · exact ((confined_resetStarted.trans confined_updateSched).trans confined_updateThread).actsOn c
  · refine acts_of_confined fun q hq => ?_
    have harmed {next : Int} : Confined id p
        (((p.resetStarted id).setNextActivation id next).setStartDeadline id
          (p.startTime id delay now start)) :=
      confined_resetStarted.trans (confined_setNextActivation.trans confined_setStartDeadline)
    split_ifs at hq
    · exact (harmed.trans confined_updateThread).trans (confined_setEligibleUnlessSuspended hq)
    · exact harmed.trans (confined_threadWaitTimed hq)

theorem Acts.mapError {m : Except PartitionExit (ArincPartition × PokErrno)}
    (h : Acts c t p m) {code : PokErrno → ReturnCode} {r : ArincPartition × ReturnCode}
    (hr : mapError m code = .ok r) : ActsOn c t p r.1 :=
  (Sat.map h fun _ ha => ha : Sat (fun _ => True) (fun r => ActsOn c t p r.1)
    (ArincPartition.mapError m code)).of_ok hr

end ArincPartition

namespace ProcessService

open ArincPartition

variable {p q : ArincPartition} {service : ProcessService} {c : Nat} {id : Int}
  {code : ReturnCode}

theorem call_actsOn (h : ¬ service.Refuses id) (hthread : p.HasThread (coreThreadId id))
    (hcall : service.call p c id = .ok (q, code)) : ActsOn c (coreThreadId id) p q := by
  cases service with
  | getProcessStatus =>
    obtain ⟨rfl, -⟩ := Prod.mk.inj (Except.ok.inj hcall)
    exact (Confined.refl _ p).actsOn c
  | setPriority priority =>
    obtain ⟨hid, hrange⟩ := not_or.mp h
    rw [call, ArincPartition.setPriority, checkProcessId_passed hid, if_neg hrange] at hcall
    exact (pokThreadSetPriority_acts hthread).mapError hcall
  | suspend =>
    rw [call, ArincPartition.suspend, checkProcessId_passed h] at hcall
    exact (pokThreadSuspendTarget_acts hthread).mapError hcall
  | resume =>
    rw [call, ArincPartition.resume, checkProcessId_passed h] at hcall
    exact (pokThreadResume_acts hthread).mapError hcall
  | stop =>
    rw [call, ArincPartition.stop, checkProcessId_passed h] at hcall
    exact (pokThreadStopTarget_acts hthread).mapError hcall
  | start now processingStart =>
    rw [call, ArincPartition.start, ArincPartition.delayedStart, checkProcessId_passed h] at hcall
    exact (pokThreadDelayedStart_acts hthread).mapError hcall
  | delayedStart delay now processingStart =>
    rw [call, ArincPartition.delayedStart, checkProcessId_passed h] at hcall
    exact (pokThreadDelayedStart_acts hthread).mapError hcall

/-- The identifier means what `CREATE_PROCESS` has said it does: the process that has got it is the
one acted on, and without such a process the call is refused and changes nothing. Arguments that
are refused before the identifier is read do not count. -/
structure Respects (h : ProcessHistory) (c : Nat) (service : ProcessService) (id : Int) : Prop where
  finds : ¬ service.Refuses id → ∀ t, (id, t) ∈ h.created →
    service.found h.partition id = some t ∧
      ∀ q code, service.call h.partition c id = .ok (q, code) → ActsOn c t h.partition q
  tells : service = .getProcessStatus → ∀ t, (id, t) ∈ h.created →
    h.partition.getProcessStatus id = (.noError, some (h.partition.threadStatus t))
  refuses : (∀ t, (id, t) ∉ h.created) →
    service.found h.partition id = none ∧
      service.call h.partition c id = .ok (h.partition, .invalidParam)

/-- The library refuses the call, or the identifier is no other name of a process. -/
def Sound (p : ArincPartition) (service : ProcessService) (id : Int) : Prop :=
  service.Refuses id ∨ NarrowName.Unshared 256 p.HasThread id

end ProcessService

namespace ProcessHistory

/-- The identifiers that have been returned are those of the processes that exist. -/
structure Noted (h : ProcessHistory) : Prop where
  created : ∀ id t, (id, t) ∈ h.created ↔
    h.partition.HasThread t ∧ NarrowName.ofEntry 256 t = id
  positive : 0 < h.partition.nthreadsUsed
  error : ∀ e, h.partition.threadError = some e → e < h.partition.nthreadsUsed
  free : h.partition.HandlerFree

theorem Noted.not_created_iff {h : ProcessHistory} (hn : h.Noted) (id : Int) :
    (∀ t, (id, t) ∉ h.created) ↔
      ∀ t, h.partition.HasThread t → NarrowName.ofEntry 256 t ≠ id := by
  constructor
  · intro hno t ht hname
    exact hno t ((hn.created id t).mpr ⟨ht, hname⟩)
  · intro hno t hmem
    obtain ⟨ht, hname⟩ := (hn.created id t).mp hmem
    exact hno t ht hname

end ProcessHistory

namespace ProcessService

open ArincPartition

variable {h : ProcessHistory} {service : ProcessService} {c : Nat} {id : Int}

theorem respects_iff (hn : h.Noted) :
    service.Respects h c id ↔ service.Sound h.partition id := by
  by_cases hrefuses : service.Refuses id
  · refine iff_of_true ⟨fun hpassed => absurd hrefuses hpassed, ?_, fun _ => ?_⟩ (.inl hrefuses)
    · rintro rfl
      exact hrefuses.elim
    · exact ⟨if_pos hrefuses, call_refused hrefuses⟩
  have hright : NarrowName.Right 256 h.partition.HasThread id
      (if h.partition.HasThread (coreThreadId id) then some (coreThreadId id) else none) ↔
        NarrowName.Unshared 256 h.partition.HasThread id :=
    NarrowName.right_iff 256 h.partition.HasThread id (by decide)
  have hfound : service.found h.partition id =
      if h.partition.HasThread (coreThreadId id) then some (coreThreadId id) else none :=
    if_neg hrefuses
  have hsound : service.Sound h.partition id ↔
      NarrowName.Unshared 256 h.partition.HasThread id := or_iff_right hrefuses
  rw [hsound, ← hright]
  constructor
  · intro hr
    refine ⟨fun t ht hname => ?_, fun hno => ?_⟩
    · exact hfound.symm.trans (hr.finds hrefuses t ((hn.created id t).mpr ⟨ht, hname⟩)).1
    · exact hfound.symm.trans (hr.refuses ((hn.not_created_iff id).mpr hno)).1
  · intro hr
    have hsome : ∀ t, (id, t) ∈ h.created →
        h.partition.HasThread (coreThreadId id) ∧ coreThreadId id = t := by
      intro t hmem
      obtain ⟨ht, hname⟩ := (hn.created id t).mp hmem
      have hfinds := hr.finds t ht hname
      by_cases hlive : h.partition.HasThread (coreThreadId id)
      · rw [if_pos hlive] at hfinds
        exact ⟨hlive, Option.some.inj hfinds⟩
      · rw [if_neg hlive] at hfinds
        cases hfinds
    refine ⟨fun _ t hmem => ?_, ?_, fun hno => ?_⟩
    · obtain ⟨hlive, rfl⟩ := hsome t hmem
      exact ⟨hfound.trans (if_pos hlive), fun q code hcall => call_actsOn hrefuses hlive hcall⟩
    · rintro - t hmem
      obtain ⟨hlive, rfl⟩ := hsome t hmem
      rw [ArincPartition.getProcessStatus, pokThreadGetStatus, if_pos hlive]
    · have hnone := hr.refuses ((hn.not_created_iff id).mp hno)
      have hdead : ¬ h.partition.HasThread (coreThreadId id) := by
        intro hlive
        rw [if_pos hlive] at hnone
        cases hnone
      exact ⟨hfound.trans (if_neg hdead), call_unknown hrefuses hdead⟩

end ProcessService

namespace ProcessHistory

open ArincPartition

variable {h h' : ProcessHistory} {hm : PartitionHm} {e : ArincInput}

theorem noted_start (p : ArincPartition) : (ProcessHistory.mk p.partitionArincStart []).Noted where
  created id t := by
    refine ⟨fun hmem => (List.not_mem_nil hmem).elim, ?_⟩
    rintro ⟨⟨hpositive, hlt, -⟩, -⟩
    have hlt : t < 1 := hlt
    omega
  positive := Nat.one_pos
  error _ h := by
    have hnone : p.partitionArincStart.threadError = none := rfl
    exact absurd (h.symm.trans hnone) (Option.some_ne_none _)
  free _ h := by
    have hnone : p.partitionArincStart.threadError = none := rfl
    exact absurd (h.symm.trans hnone) (Option.some_ne_none _)

theorem Noted.of_same {q : ArincPartition} (hn : h.Noted) (hsame : SameThreads h.partition q)
    (hfree : q.HandlerFree) : (ProcessHistory.mk q h.created).Noted where
  created id t := by
    rw [hn.created id t, SectionSystem.HasThread, SectionSystem.HasThread, hsame.used, hsame.error]
  positive := hsame.used ▸ hn.positive
  error e he := by
    rw [hsame.used]
    exact hn.error e (hsame.error ▸ he)
  free := hfree

/-- A process has been created. -/
theorem Noted.create {q : ArincPartition} (hn : h.Noted)
    (hused : q.nthreadsUsed = h.partition.nthreadsUsed + 1)
    (herror : q.threadError = h.partition.threadError) (hfree : q.HandlerFree) :
    (ProcessHistory.mk q (h.created ++ [(NarrowName.ofEntry 256 h.partition.nthreadsUsed,
      h.partition.nthreadsUsed)])).Noted where
  created id t := by
    have hnew : h.partition.threadError ≠ some h.partition.nthreadsUsed :=
      fun he => Nat.lt_irrefl _ (hn.error _ he)
    have hpositive := hn.positive
    have hthread : q.HasThread t ↔ h.partition.HasThread t ∨ t = h.partition.nthreadsUsed := by
      rw [SectionSystem.HasThread, SectionSystem.HasThread, hused, herror]
      constructor
      · rintro ⟨hpos, hlt, hne⟩
        by_cases ht : t = h.partition.nthreadsUsed
        · exact .inr ht
        · exact .inl ⟨hpos, by omega, hne⟩
      · rintro (⟨hpos, hlt, hne⟩ | rfl)
        · exact ⟨hpos, by omega, hne⟩
        · exact ⟨hpositive, by omega, hnew⟩
    have hmem := hn.created id t
    simp only [List.mem_append, List.mem_singleton, Prod.mk.injEq, hthread, hmem]
    constructor
    · rintro (⟨ht, hname⟩ | ⟨rfl, rfl⟩)
      · exact ⟨.inl ht, hname⟩
      · exact ⟨.inr rfl, rfl⟩
    · rintro ⟨ht | rfl, hname⟩
      · exact .inl ⟨ht, hname⟩
      · exact .inr ⟨hname.symm, rfl⟩
  positive := hused ▸ Nat.succ_pos _
  error e he := by
    rw [hused]
    exact Nat.lt_succ_of_lt (hn.error e (herror ▸ he))
  free := hfree

theorem Noted.createError {q : ArincPartition} (hn : h.Noted)
    (hnone : h.partition.threadError = none)
    (hused : q.nthreadsUsed = h.partition.nthreadsUsed + 1)
    (herror : q.threadError = some h.partition.nthreadsUsed) (hfree : q.HandlerFree) :
    (ProcessHistory.mk q h.created).Noted where
  created id t := by
    rw [hn.created id t, SectionSystem.HasThread, SectionSystem.HasThread, hused, herror, hnone]
    have hlt : t < h.partition.nthreadsUsed ∧ (none : Option Nat) ≠ some t ↔
        t < h.partition.nthreadsUsed + 1 ∧ some h.partition.nthreadsUsed ≠ some t := by
      simp only [ne_eq, reduceCtorEq, not_false_eq_true, and_true, Option.some.injEq]
      omega
    rw [hlt]
  positive := hused ▸ Nat.succ_pos _
  error e he := by
    rw [hused, ← Option.some.inj (herror.symm.trans he)]
    exact Nat.lt_succ_self _
  free := hfree

theorem newProcess_create {p : ArincPartition} {attr : ThreadAttr} {entryOk stackOk : Bool}
    {events : List DrainedEvent} {r : ArincPartition × PokErrno}
    (hr : p.pokThreadCreate attr entryOk stackOk = .ok r) :
    newProcess p (.call (.create attr entryOk stackOk) events) =
      if r.2 = .ok then [(NarrowName.ofEntry 256 p.nthreadsUsed, p.nthreadsUsed)] else [] := by
  obtain ⟨q, errno⟩ := r
  rw [newProcess, hr]
  cases errno <;> rfl

theorem newProcess_nil {p : ArincPartition}
    (hno : ∀ attr entryOk stackOk events, e ≠ .call (.create attr entryOk stackOk) events) :
    newProcess p e = [] := by
  unfold newProcess
  split
  · exact (hno _ _ _ _ rfl).elim
  · rfl

theorem Noted.run {q : ArincPartition} (hn : h.Noted) (hrun : h.partition.run hm e = .ok q) :
    (ProcessHistory.mk q (h.created ++ newProcess h.partition e)).Noted := by
  have hfree := (run_free hn.free).of_ok hrun
  obtain ⟨call, events, c, r, rfl, -, hcall, hgrows, hsame⟩ | ⟨hno, hsame⟩ :=
    run_threads hn.free hrun
  · cases call with
    | create attr entryOk stackOk =>
      have hcreate : h.partition.pokThreadCreate attr entryOk stackOk = .ok r := by
        have hmay : (if (h.partition.threads c).point ≠ .running then .error .refused
          else h.partition.pokThreadCreate attr entryOk stackOk) = .ok r := hcall
        split_ifs at hmay
        exact hmay
      rw [newProcess_create hcreate]
      rw [Grows] at hgrows
      split_ifs at hgrows ⊢ with hok
      · exact hn.create (hsame.used.trans hgrows.1) (hsame.error.trans hgrows.2) hfree
      · rw [List.append_nil]
        exact hn.of_same (hgrows.trans hsame) hfree
    | createError entryOk stackOk =>
      rw [newProcess_nil (by simp), List.append_nil]
      obtain hkept | ⟨hnone, hused, herror⟩ := hgrows
      · exact hn.of_same (hkept.trans hsame) hfree
      · exact hn.createError hnone (hsame.used.trans hused) (hsame.error.trans herror) hfree
    | _ =>
      rw [newProcess_nil (by simp), List.append_nil]
      exact hn.of_same (SameThreads.trans hgrows hsame) hfree
  · rw [newProcess_nil (fun attr entryOk stackOk events => hno _ events), List.append_nil]
    exact hn.of_same hsame hfree

theorem Noted.step (hn : h.partition.halted = false → h.Noted) (hstep : h.step hm e = some h') :
    h'.partition.halted = false → h'.Noted := by
  have hends : Ends (h.partition.run hm e) := run_ends
  unfold ProcessHistory.step at hstep
  intro hhalted
  split at hstep
  · rename_i q hq
    obtain rfl := Option.some.inj hstep
    exact (hn (running_of_ok hq)).run hq
  · obtain rfl := Option.some.inj hstep
    exact noted_start _
  · rename_i q hq
    obtain rfl := Option.some.inj hstep
    have hexit : StepExit (.idle q) := Outcome.Sat.of_error hends hq
    rw [show q.halted = true from hexit] at hhalted
    cases hhalted
  · rename_i q hq
    obtain rfl := Option.some.inj hstep
    have hexit : StepExit (.forever q) := Outcome.Sat.of_error hends hq
    rw [show q.halted = true from hexit] at hhalted
    cases hhalted
  · cases hstep
  · cases hstep

end ProcessHistory

namespace ArincPartition

variable {p : ArincPartition} {attributes : ProcessAttribute} {entryOk stackOk : Bool}

/-- The base priority is one that a process may have. -/
def PriorityAllowed (priority : Int) : Prop :=
  (minPriorityValue : Int) ≤ priority ∧ priority ≤ maxPriorityValue

instance : DecidablePred PriorityAllowed := fun _ => inferInstanceAs (Decidable (_ ∧ _))

/-- A process is created only with a base priority that is allowed, and with that one. -/
def CreatesRight (p : ArincPartition) (attributes : ProcessAttribute) (entryOk stackOk : Bool) :
    Prop :=
  ∀ q id, p.createProcess attributes entryOk stackOk = .ok (q, .noError, some id) →
    PriorityAllowed attributes.basePriority ∧
      ((q.sched p.nthreadsUsed).basePriority : Int) = attributes.basePriority ∧
      (q.sched p.nthreadsUsed).priority = (q.sched p.nthreadsUsed).basePriority

/-- Everything but the base priority is in order for the creation of a process. -/
structure CreationReady (p : ArincPartition) (attributes : ProcessAttribute)
    (entryOk stackOk : Bool) : Prop where
  named : attributes.name.headD 0 ≠ 0
  deadline : attributes.deadline ≠ none
  mode : p.mode ≠ .normal
  room : p.nthreadsUsed ≠ p.nthreads
  period : attributes.period ≠ 0
  timeCapacity : attributes.timeCapacity ≠ 0
  periodic : timeIsInfinity attributes.period = false →
    timeIsInfinity attributes.timeCapacity = false ∧ attributes.timeCapacity ≤ attributes.period
  entry : entryOk = true
  new : p.findThread attributes.name = none
  stack : stackOk = true

theorem attrErrno_eq_none {attr : ThreadAttr} :
    attrErrno attr = none ↔ (minPriorityValue ≤ attr.priority ∧ attr.priority ≤ maxPriorityValue) ∧
      attr.period ≠ 0 ∧ attr.timeCapacity ≠ 0 ∧ (timeIsInfinity attr.period = false →
        timeIsInfinity attr.timeCapacity = false ∧ attr.timeCapacity ≤ attr.period) := by
  unfold attrErrno
  by_cases hpriority : attr.priority > maxPriorityValue ∨ attr.priority < minPriorityValue
  · rw [if_pos hpriority]
    simp only [reduceCtorEq, false_iff]
    omega
  by_cases hperiod : attr.period = 0
  · simp [hpriority, hperiod]
  by_cases hcapacity : attr.timeCapacity = 0
  · simp [hpriority, hperiod, hcapacity]
  have hrange : minPriorityValue ≤ attr.priority ∧ attr.priority ≤ maxPriorityValue := by omega
  cases hp : timeIsInfinity attr.period with
  | true => simp [hpriority, hperiod, hcapacity, hrange]
  | false =>
    cases hc : timeIsInfinity attr.timeCapacity with
    | true => simp [hpriority, hperiod, hcapacity]
    | false => simp [hpriority, hperiod, hcapacity, hrange]

theorem findThread_congr {q : ArincPartition} {name : List UInt8}
    (hused : q.nthreadsUsed = p.nthreadsUsed) (herror : q.threadError = p.threadError)
    (hsched : ∀ t, t ≠ p.nthreadsUsed → q.sched t = p.sched t) :
    q.findThread name = p.findThread name := by
  unfold findThread
  rw [hused, herror, ← List.head?_filter, ← List.head?_filter]
  congr 1
  apply List.filter_congr
  intro t ht
  have hne : t ≠ p.nthreadsUsed := Nat.ne_of_lt (List.mem_range.mp ht)
  rw [hsched t hne]

/-- The thread that is created with the attributes. -/
def filled (p : ArincPartition) (attr : ThreadAttr) : ArincPartition :=
  (p.updateSched p.nthreadsUsed fun th => { th with
    basePriority := attr.priority, period := attr.period,
    timeCapacity := attr.timeCapacity }).updateSched p.nthreadsUsed fun th =>
      { th with name := attr.name }

theorem findThread_filled {attr : ThreadAttr} {name : List UInt8} :
    (p.filled attr).findThread name = p.findThread name := by
  refine findThread_congr rfl rfl fun t ht => ?_
  simp only [filled, updateSched_sched, Function.update_of_ne ht]

theorem pokThreadCreate_ok {attr : ThreadAttr} {q : ArincPartition} :
    p.pokThreadCreate attr entryOk stackOk = .ok (q, .ok) ↔
      (p.mode ≠ .normal ∧ p.nthreadsUsed ≠ p.nthreads ∧ attrErrno attr = none ∧ entryOk = true ∧
        p.findThread attr.name = none ∧ stackOk = true) ∧
      ((p.filled attr).threadCreate p.nthreadsUsed).onSections (fun s => { s with
        nthreadsUsed := p.nthreadsUsed + 1 }) = q := by
  have hfind : (p.filled attr).findThread attr.name = p.findThread attr.name := findThread_filled
  unfold filled at hfind
  unfold pokThreadCreate
  by_cases hmode : p.mode = .normal
  · simp [hmode]
  by_cases hroom : p.nthreadsUsed = p.nthreads
  · simp [hmode, hroom]
  cases hattr : attrErrno attr with
  | some errno =>
    have hne : errno ≠ .ok := by
      rintro rfl
      unfold attrErrno at hattr
      split_ifs at hattr
      all_goals simp at hattr
    simp [hmode, hroom, hne]
  | none =>
    cases entryOk
    · simp [hmode, hroom]
    cases hname : p.findThread attr.name with
    | some t => simp [hmode, hroom, hfind, hname]
    | none =>
      cases stackOk
      · simp [hmode, hroom, hfind, hname]
      · simp [hmode, hroom, hfind, hname, filled]

/-- The partition after a successful creation. -/
def afterCreate (p : ArincPartition) (attr : ThreadAttr) : ArincPartition :=
  ((p.filled attr).threadCreate p.nthreadsUsed).onSections fun s => { s with
    nthreadsUsed := p.nthreadsUsed + 1 }

theorem attrErrno_coreAttr : attrErrno (coreAttr attributes) = none ↔
    PriorityAllowed (attributes.basePriority % 256) ∧ attributes.period ≠ 0 ∧
      attributes.timeCapacity ≠ 0 ∧ (timeIsInfinity attributes.period = false →
        timeIsInfinity attributes.timeCapacity = false ∧
          attributes.timeCapacity ≤ attributes.period) := by
  have hbyte : (((attributes.basePriority % 256).toNat : Nat) : Int) =
      attributes.basePriority % 256 := by omega
  rw [attrErrno_eq_none, PriorityAllowed, ← hbyte, Int.ofNat_le, Int.ofNat_le]
  rfl

/-- A process is created when everything is in order, and the low byte of its base priority is a
priority. -/
theorem createProcess_ok {q : ArincPartition} {id : Int} :
    p.createProcess attributes entryOk stackOk = .ok (q, .noError, some id) ↔
      (p.CreationReady attributes entryOk stackOk ∧
        PriorityAllowed (attributes.basePriority % 256)) ∧
      p.afterCreate (coreAttr attributes) = q ∧ NarrowName.ofEntry 256 p.nthreadsUsed = id := by
  unfold createProcess
  by_cases hname : attributes.name.headD 0 = 0
  · rw [if_pos hname]
    exact iff_of_false (by simp) fun h => h.1.1.named hname
  by_cases hdeadline : attributes.deadline = none
  · rw [if_neg hname, if_pos hdeadline]
    exact iff_of_false (by simp) fun h => h.1.1.deadline hdeadline
  rw [if_neg hname, if_neg hdeadline]
  have hcreated (q : ArincPartition) :
      p.pokThreadCreate (coreAttr attributes) entryOk stackOk = .ok (q, .ok) ↔
        (p.CreationReady attributes entryOk stackOk ∧
          PriorityAllowed (attributes.basePriority % 256)) ∧
        p.afterCreate (coreAttr attributes) = q := by
    rw [pokThreadCreate_ok, attrErrno_coreAttr]
    refine and_congr_left fun _ => ?_
    constructor
    · rintro ⟨hmode, hroom, ⟨hpriority, hperiod, hcapacity, hperiodic⟩, hentry, hnew, hstack⟩
      exact ⟨⟨hname, hdeadline, hmode, hroom, hperiod, hcapacity, hperiodic, hentry, hnew, hstack⟩,
        hpriority⟩
    · rintro ⟨h, hpriority⟩
      exact ⟨h.mode, h.room, ⟨hpriority, h.period, h.timeCapacity, h.periodic⟩, h.entry, h.new,
        h.stack⟩
  rw [← and_assoc, ← hcreated]
  constructor
  · intro h
    cases hkernel : p.pokThreadCreate (coreAttr attributes) entryOk stackOk with
    | error exit =>
      rw [hkernel] at h
      cases h
    | ok r =>
      obtain ⟨r, errno⟩ := r
      rw [hkernel] at h
      cases errno
      case ok =>
        cases h
        exact ⟨rfl, rfl⟩
      all_goals cases h
  · rintro ⟨hcreate, rfl⟩
    rw [hcreate]
    rfl

theorem createsRight_iff : p.CreatesRight attributes entryOk stackOk ↔
    PriorityAllowed attributes.basePriority ∨
      ¬ PriorityAllowed (attributes.basePriority % 256) ∨
      ¬ p.CreationReady attributes entryOk stackOk := by
  unfold CreatesRight
  constructor
  · intro h
    by_contra hno
    obtain ⟨hwrong, hbyte, hready⟩ : ¬ PriorityAllowed attributes.basePriority ∧
        PriorityAllowed (attributes.basePriority % 256) ∧
        p.CreationReady attributes entryOk stackOk := by
      simpa only [not_or, not_not] using hno
    exact hwrong (h _ _ (createProcess_ok.mpr ⟨⟨hready, hbyte⟩, rfl, rfl⟩)).1
  · intro h q id hcreate
    obtain ⟨⟨hready, hbyte⟩, rfl, -⟩ := createProcess_ok.mp hcreate
    have hallowed : PriorityAllowed attributes.basePriority :=
      (h.resolve_right fun hno => hno.elim (absurd hbyte) (absurd hready))
    have hsame : attributes.basePriority % 256 = attributes.basePriority := by
      obtain ⟨hlow, hhigh⟩ := hallowed
      unfold minPriorityValue at hlow
      unfold maxPriorityValue at hhigh
      omega
    have hpositive : 0 ≤ attributes.basePriority := by
      obtain ⟨hlow, -⟩ := hallowed
      omega
    have hcreated : (p.afterCreate (coreAttr attributes)).sched p.nthreadsUsed =
        { p.sched p.nthreadsUsed with
          basePriority := attributes.basePriority.toNat, period := attributes.period,
          timeCapacity := attributes.timeCapacity, name := attributes.name,
          priority := attributes.basePriority.toNat, suspended := false, waitElem := none } := by
      show ((p.filled (coreAttr attributes)).threadCreate p.nthreadsUsed).sched p.nthreadsUsed = _
      simp only [threadCreate_sched, filled, updateSched_sched,
        Function.update_self, coreAttr, hsame]
    rw [hcreated]
    exact ⟨hallowed, Int.toNat_of_nonneg hpositive, rfl⟩

end ArincPartition

open ArincPartition

theorem ProcessHistory.noted {hm : PartitionHm} {nthreads : Nat} {es : List ArincInput}
    {h : ProcessHistory} (hrun : Run.exec (ProcessHistory.step hm) (.boot nthreads) es = some h)
    (hhalted : h.partition.halted = false) : h.Noted := by
  have hkept : h.partition.halted = false → h.Noted := by
    refine @Run.invariant _ _ (ProcessHistory.step hm)
      (fun h => h.partition.halted = false → h.Noted) ?_ _ _ _ ?_ hrun
    · exact fun _ _ _ hn hstep => ProcessHistory.Noted.step hn hstep
    · exact fun _ => ProcessHistory.noted_start _
  exact hkept hhalted

/-- One process is created, the partition being in its `INIT` mode. -/
def oneProcessRun : List ArincInput := [.call (.create ⟨[65], 5, 10, 10⟩ true true) []]

end Chpok
