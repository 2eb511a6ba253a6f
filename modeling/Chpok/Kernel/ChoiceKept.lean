import Chpok.Kernel.ThreadMoves
import Chpok.Kernel.ThreadSelect

/-! The functions of the kernel keep what the rule of `sched_arinc` would choose, or have it
rechecked. Those that raise no error also leave alone what error handling reads. -/

namespace Chpok

namespace ArincPartition

open Outcome

variable {p q r : ArincPartition} {t u c : Nat} {hm : PartitionHm} {armed : Nat → Prop}

/-- The error handler is no target of donators. -/
def HandlerFree (p : ArincPartition) : Prop :=
  ∀ e, p.threadError = some e → (p.threads e).firstDonator = none

/-- Only times of threads that are `armed` are set. -/
structure KeepsFrame (armed : Nat → Prop) (p q : ArincPartition) : Prop where
  mode : q.mode = p.mode
  used : q.nthreadsUsed = p.nthreadsUsed
  times : ∀ u, ¬ armed u → (q.sched u).times = (p.sched u).times
  attr : ∀ u, (q.sched u).attrTimes = (p.sched u).attrTimes
  ordered : p.OrderedEvents → q.OrderedEvents
  error : q.threadError = p.threadError
  selected : q.threadSelected = p.threadSelected
  recheck : p.recheckNeeded = true → q.recheckNeeded = true
  handler : HandlerFree p → HandlerFree q

/-- The rule reads the list of errors, the state of the error handler, the preemption lock
and the first of the eligible threads. -/
structure KeepsChoice (armed : Nat → Prop) (p q : ArincPartition) : Prop extends
    KeepsFrame armed p q where
  errors : q.recheckNeeded = true ∨ q.errorList = p.errorList
  stopped : q.recheckNeeded = true ∨ ∀ e, p.threadError = some e →
    ((q.threads e).state = .stopped ↔ (p.threads e).state = .stopped)
  rule : q.recheckNeeded = true ∨ q.normalRule = p.normalRule

/-- Errors and their handler are left alone. Only deadlines of threads that are `armed` are
set. -/
structure KeepsErrors (armed : Nat → Prop) (p q : ArincPartition) : Prop where
  mode : q.mode = p.mode
  recheck : p.recheckNeeded = true → q.recheckNeeded = true
  list : q.errorList = p.errorList
  bits : ∀ u, (q.errors u).errorBits = (p.errors u).errorBits
  handler : q.isErrorHandler = p.isErrorHandler
  log : q.errorLog = p.errorLog
  unique : p.UniqueEvents → q.UniqueEvents
  deadline : ∀ u, q.DelayedEventActive u .deadline → p.DelayedEventActive u .deadline ∨ armed u

/-- The choice and the errors are kept. -/
structure Keeps (armed : Nat → Prop) (p q : ArincPartition) : Prop where
  choice : KeepsChoice armed p q
  errors : KeepsErrors armed p q

theorem KeepsFrame.refl (p : ArincPartition) : KeepsFrame armed p p :=
  ⟨rfl, rfl, fun _ _ => rfl, fun _ => rfl, fun h => h, rfl, rfl, fun h => h, fun h => h⟩

theorem KeepsFrame.trans (h : KeepsFrame armed p q) (h' : KeepsFrame armed q r) :
    KeepsFrame armed p r where
  mode := h'.mode.trans h.mode
  used := h'.used.trans h.used
  times u hu := (h'.times u hu).trans (h.times u hu)
  attr u := (h'.attr u).trans (h.attr u)
  ordered hp := h'.ordered (h.ordered hp)
  error := h'.error.trans h.error
  selected := h'.selected.trans h.selected
  recheck hr := h'.recheck (h.recheck hr)
  handler hp := h'.handler (h.handler hp)

theorem KeepsFrame.invalidate (h : KeepsFrame armed p q) :
    KeepsChoice armed p q.localInvalidate where
  mode := h.mode
  used := h.used
  times := h.times
  attr := h.attr
  ordered := h.ordered
  error := h.error
  selected := h.selected
  recheck _ := rfl
  handler := h.handler
  errors := Or.inl rfl
  stopped := Or.inl rfl
  rule := Or.inl rfl

theorem KeepsChoice.refl (p : ArincPartition) : KeepsChoice armed p p where
  toKeepsFrame := KeepsFrame.refl p
  errors := Or.inr rfl
  stopped := Or.inr fun _ _ => Iff.rfl
  rule := Or.inr rfl

theorem KeepsChoice.trans (h : KeepsChoice armed p q) (h' : KeepsChoice armed q r) :
    KeepsChoice armed p r where
  toKeepsFrame := h.toKeepsFrame.trans h'.toKeepsFrame
  errors := by
    rcases h'.errors with hr | he'
    · exact Or.inl hr
    · rcases h.errors with hr | he
      · exact Or.inl (h'.recheck hr)
      · exact Or.inr (he'.trans he)
  stopped := by
    rcases h'.stopped with hr | hs'
    · exact Or.inl hr
    · rcases h.stopped with hr | hs
      · exact Or.inl (h'.recheck hr)
      · right
        intro e he
        exact (hs' e (h.error.trans he)).trans (hs e he)
  rule := by
    rcases h'.rule with hr | he'
    · exact Or.inl hr
    · rcases h.rule with hr | he
      · exact Or.inl (h'.recheck hr)
      · exact Or.inr (he'.trans he)

theorem KeepsErrors.refl (p : ArincPartition) : KeepsErrors armed p p :=
  ⟨rfl, fun h => h, rfl, fun _ => rfl, rfl, rfl, fun h => h, fun _ h => Or.inl h⟩

theorem KeepsErrors.trans (h : KeepsErrors armed p q) (h' : KeepsErrors armed q r) :
    KeepsErrors armed p r where
  mode := h'.mode.trans h.mode
  recheck hr := h'.recheck (h.recheck hr)
  list := h'.list.trans h.list
  bits u := (h'.bits u).trans (h.bits u)
  handler := h'.handler.trans h.handler
  log := h'.log.trans h.log
  unique hp := h'.unique (h.unique hp)
  deadline u hu := by
    rcases h'.deadline u hu with hq | ha
    · exact h.deadline u hq
    · exact Or.inr ha

theorem Keeps.refl (p : ArincPartition) : Keeps armed p p :=
  ⟨KeepsChoice.refl p, KeepsErrors.refl p⟩

theorem Keeps.trans (h : Keeps armed p q) (h' : Keeps armed q r) : Keeps armed p r :=
  ⟨h.choice.trans h'.choice, h.errors.trans h'.errors⟩

theorem Moves.keepsFrame (h : Moves t p q) : KeepsFrame armed p q where
  mode := h.mode
  used := h.used
  times u _ := h.times u
  attr u := SchedThread.attrTimes_of_times (h.times u)
  ordered := h.ordered
  error := h.error
  selected := h.selected
  recheck := h.recheck
  handler hp e he := by
    rw [h.error] at he
    by_cases het : e = t
    · subst het
      rw [h.firstDonator]
      exact hp e he
    · rw [h.threads e het]
      exact hp e he

theorem Moves.keepsChoice (h : Moves t p q) (hstopped : p.threadError = some t →
    ((q.threads t).state = .stopped ↔ (p.threads t).state = .stopped)) : KeepsChoice armed p q where
  toKeepsFrame := h.keepsFrame
  errors := Or.inr h.errorList
  stopped := by
    right
    intro e he
    by_cases het : e = t
    · subst het
      exact hstopped he
    · rw [h.threads e het]
  rule := by
    rcases h.head with hr | hhead
    · exact Or.inl hr
    · rcases h.lock with hlock | ⟨-, hr, -⟩
      · right
        simp only [normalRule, hlock, h.locked, hhead]
      · exact Or.inl hr

theorem Moves.keepsErrors (h : Moves t p q) : KeepsErrors armed p q :=
  ⟨h.mode, h.recheck, h.errorList, h.bits, h.handler, h.log, h.unique,
    fun u hu => Or.inl (h.deadline u hu)⟩

theorem Moves.keeps (h : Moves t p q) (hstopped : p.threadError = some t →
    ((q.threads t).state = .stopped ↔ (p.threads t).state = .stopped)) : Keeps armed p q :=
  ⟨h.keepsChoice hstopped, h.keepsErrors⟩

theorem Moves.keeps_of_ne (h : Moves t p q) (hne : p.threadError ≠ some t) : Keeps armed p q :=
  h.keeps fun he => absurd he hne

/-- Only data change that the rule does not read. -/
theorem keepsChoice_of_eq (hsections : q.toSectionSystem = p.toSectionSystem)
    (hmode : q.mode = p.mode) (herrors : q.errorList = p.errorList)
    (heligible : q.eligibleThreads = p.eligibleThreads) (hlock : q.lockLevel = p.lockLevel)
    (hlocked : q.threadLocked = p.threadLocked)
    (htimes : ∀ u, ¬ armed u → (q.sched u).times = (p.sched u).times)
    (hattr : ∀ u, (q.sched u).attrTimes = (p.sched u).attrTimes)
    (hordered : p.OrderedEvents → q.OrderedEvents) : KeepsChoice armed p q where
  mode := hmode
  used := by rw [hsections]
  times := htimes
  attr := hattr
  ordered := hordered
  error := by rw [hsections]
  selected := by rw [hsections]
  recheck := by rw [hsections]; exact fun h => h
  handler := by
    unfold HandlerFree
    rw [hsections]
    exact fun h => h
  errors := Or.inr herrors
  stopped := by
    right
    intro e _
    rw [hsections]
  rule := by
    right
    simp only [normalRule, hlock, hlocked, heligible]

theorem keepsErrors_of_eq (hsections : q.toSectionSystem = p.toSectionSystem)
    (hmode : q.mode = p.mode) (hlist : q.errorList = p.errorList) (herrors : q.errors = p.errors)
    (hhandler : q.isErrorHandler = p.isErrorHandler) (hlog : q.errorLog = p.errorLog)
    (hevents : q.delayedEvents = p.delayedEvents) : KeepsErrors armed p q where
  mode := hmode
  recheck := by rw [hsections]; exact fun h => h
  list := hlist
  bits _ := by rw [herrors]
  handler := hhandler
  log := hlog
  unique := by
    unfold UniqueEvents
    rw [hevents]
    exact fun h => h
  deadline u := by
    unfold DelayedEventActive
    rw [hevents]
    exact Or.inl

/-- The sections change, and no thread starts or stops. -/
theorem keeps_sections {s : SectionSystem} (hused : s.nthreadsUsed = p.nthreadsUsed) (herror : s.threadError = p.threadError)
    (hselected : s.threadSelected = p.threadSelected)
    (hrecheck : p.recheckNeeded = true → s.recheckNeeded = true)
    (hstate : ∀ u, (s.threads u).state = (p.threads u).state)
    (hfirst : ∀ e, p.threadError = some e → (p.threads e).firstDonator = none →
      (s.threads e).firstDonator = none) : Keeps armed p (p.onSections fun _ => s) where
  errors := ⟨rfl, hrecheck, rfl, fun _ => rfl, rfl, rfl, fun h => h, fun _ h => Or.inl h⟩
  choice := {
    mode := rfl
    used := hused
    times _ _ := rfl
    attr _ := rfl
    ordered h := h
    error := herror
    selected := hselected
    recheck := hrecheck
    handler := by
      intro hp e he
      have he' : p.threadError = some e := herror ▸ he
      exact hfirst e he' (hp e he')
    errors := Or.inr rfl
    stopped := by
      right
      intro e _
      simp only [onSections, hstate]
    rule := Or.inr rfl }

theorem keeps_updateThread {f : SectionThread → SectionThread}
    (hstate : (f (p.threads t)).state = (p.threads t).state)
    (hfirst : p.threadError = some t → (p.threads t).firstDonator = none →
      (f (p.threads t)).firstDonator = none) : Keeps armed p (p.updateThread t f) := by
  apply keeps_sections (s := p.toSectionSystem.updateThread t f) rfl rfl rfl (fun h => h)
  · intro u
    by_cases hu : u = t
    · subst hu
      rw [SectionSystem.updateThread_threads_self, hstate]
    · rw [SectionSystem.updateThread_threads_ne hu]
  · intro e he hnone
    by_cases het : e = t
    · subst het
      rw [SectionSystem.updateThread_threads_self]
      exact hfirst he hnone
    · rw [SectionSystem.updateThread_threads_ne het]
      exact hnone

theorem keeps_updateSched {g : SchedThread → SchedThread}
    (hattr : (g (p.sched t)).attrTimes = (p.sched t).attrTimes)
    (hg : ¬ armed t → (g (p.sched t)).times = (p.sched t).times) : Keeps armed p (p.updateSched t g) where
  choice := by
    refine keepsChoice_of_eq rfl rfl rfl rfl rfl rfl (fun u hu => ?_) (fun u => ?_) fun h => h
    · by_cases hut : u = t
      · subst hut
        exact updateSched_times (hg hu) u
      · rw [updateSched_sched, Function.update_of_ne hut]
    · by_cases hut : u = t
      · subst hut
        rw [updateSched_sched, Function.update_self, hattr]
      · rw [updateSched_sched, Function.update_of_ne hut]
  errors := keepsErrors_of_eq rfl rfl rfl rfl rfl rfl rfl

theorem keeps_localInvalidate : Keeps armed p p.localInvalidate where
  choice := (KeepsFrame.refl p).invalidate
  errors := ⟨rfl, fun _ => rfl, rfl, fun _ => rfl, rfl, rfl, fun h => h, fun _ h => Or.inl h⟩

theorem keeps_threadSetDeadline {time : Int} (ht : armed t) :
    Keeps armed p (p.threadSetDeadline t time) where
  choice := keepsChoice_of_eq rfl rfl rfl rfl rfl rfl (fun _ _ => rfl) (fun _ => rfl) ordered_delayedEventAdd
  errors := {
    (KeepsErrors.refl p : KeepsErrors armed p p) with
    unique := unique_delayedEventAdd
    deadline := by
      intro u hu
      rcases active_delayedEventAdd.mp hu with ⟨hut, -⟩ | hp
      · exact Or.inr (hut ▸ ht)
      · exact Or.inl hp }

theorem keeps_delayedEventRemove {kind : DelayedKind} : Keeps armed p (p.delayedEventRemove t kind) :=
  moves_delayedEventRemove.keeps fun _ => Iff.rfl

/-- A function that keeps the choice, if it comes back. -/
def Choosing (armed : Nat → Prop) (p : ArincPartition) (m : Except PartitionExit ArincPartition) :
    Prop :=
  Sat (fun _ => True) (KeepsChoice armed p) m

def Keeping (armed : Nat → Prop) (p : ArincPartition) (m : Except PartitionExit ArincPartition) :
    Prop :=
  Sat (fun _ => True) (Keeps armed p) m

def KeepingCall (armed : Nat → Prop) (p : ArincPartition)
    (m : Except PartitionExit (ArincPartition × PokErrno)) : Prop :=
  Sat (fun _ => True) (fun r => Keeps armed p r.1) m

theorem Choosing.after {m : Except PartitionExit ArincPartition} (h : KeepsChoice armed p q)
    (hm : Choosing armed q m) : Choosing armed p m :=
  hm.weaken fun _ hr => h.trans hr

theorem Choosing.bind {m : Except PartitionExit ArincPartition}
    {f : ArincPartition → Except PartitionExit ArincPartition} (hm : Choosing armed p m)
    (hf : ∀ q, Choosing armed q (f q)) : Choosing armed p (m.bind f) :=
  Sat.bind hm fun q hq => Choosing.after hq (hf q)

theorem Keeping.choosing {m : Except PartitionExit ArincPartition}
    (hm : Keeping armed p m) : Choosing armed p m :=
  hm.weaken fun _ hr => hr.choice

theorem Keeping.of_moves {m : Except PartitionExit ArincPartition}
    (h : ∀ q, m = .ok q → Moves t p q) (hne : p.threadError ≠ some t) : Keeping armed p m :=
  Sat.of_forall fun q hq => (h q hq).keeps_of_ne hne

theorem Keeping.after {m : Except PartitionExit ArincPartition} (h : Keeps armed p q)
    (hm : Keeping armed q m) : Keeping armed p m :=
  hm.weaken fun _ hr => h.trans hr

theorem Keeping.bind {m : Except PartitionExit ArincPartition}
    {f : ArincPartition → Except PartitionExit ArincPartition} (hm : Keeping armed p m)
    (hf : ∀ q, Keeps armed p q → Keeping armed q (f q)) : Keeping armed p (m.bind f) :=
  Sat.bind hm fun q hq => Keeping.after hq (hf q hq)

theorem Keeping.map {m : Except PartitionExit ArincPartition} {f : ArincPartition → ArincPartition}
    (hm : Keeping armed p m) (hf : ∀ q, Keeps armed p q → Keeps armed q (f q)) :
    Keeping armed p (m.map f) :=
  Sat.map hm fun q hq => hq.trans (hf q hq)

theorem KeepingCall.returning {errno : PokErrno} {m : Except PartitionExit ArincPartition}
    (hm : Keeping armed p m) : KeepingCall armed p (returning errno m) :=
  Sat.map hm fun _ hq => hq

/-! Threads that wait are not stopped. -/

theorem threadWakeUp_keeps : Keeping armed p (p.threadWakeUp t) := by
  apply Sat.of_forall
  intro q hq
  apply (threadWakeUp_moves hq).keeps
  intro _
  have hrunnable := threadWakeUp_state hq
  unfold threadWakeUp at hq
  split_ifs at hq with hw
  rw [hrunnable, hw]
  simp

theorem threadSetEligible_threads (h : p.threadSetEligible t = .ok q) : q.threads = p.threads := by
  unfold threadSetEligible at h
  split_ifs at h
  obtain rfl := Except.ok.inj h
  simp

theorem threadResumeWaited_keeps : Keeping armed p (p.threadResumeWaited t) := by
  apply Sat.of_forall
  intro q hq
  apply (threadResumeWaited_moves hq).keeps
  intro _
  unfold threadResumeWaited at hq
  split_ifs at hq with hw
  have hthreads := threadSetEligible_threads hq
  rw [hthreads, hw]
  simp [setWaitResult, setState]

theorem threadYield_keeps : Keeping armed p (p.threadYield t) := by
  apply Sat.of_forall
  intro q hq
  apply (threadYield_moves hq).keeps
  intro _
  unfold threadYield at hq
  split_ifs at hq
  · have hthreads := threadSetEligible_threads hq
    rw [hthreads]
    simp [threadSetUneligible]
  · obtain rfl := Except.ok.inj hq
    rfl

theorem setWaitResult_keeps {waitResult : WaitResult} :
    Keeps armed p (p.setWaitResult t waitResult) :=
  moves_setWaitResult.keeps fun _ => by simp [setWaitResult]

theorem threadStop_keeps (hne : p.threadError ≠ some t) : Keeping armed p (p.threadStop t) :=
  Keeping.of_moves (fun _ hq => threadStop_moves hq) hne

/-! Errors -/

theorem threadAddErrorBit_keeps {bit : ErrorBit} : Choosing armed p (p.threadAddErrorBit t bit) := by
  refine Sat.ite (fun _ => trivial) fun _ => Sat.ite (fun _ => ?_) fun _ => ?_
  · exact keepsChoice_of_eq rfl rfl rfl rfl rfl rfl (fun _ _ => rfl) (fun _ => rfl) fun h => h
  · exact KeepsFrame.invalidate ⟨rfl, rfl, fun _ _ => rfl, fun _ => rfl, fun h => h, rfl, rfl, fun h => h, fun h => h⟩

theorem threadSetUnrecoverable_keeps : KeepsChoice armed p (p.threadSetUnrecoverable t) := by
  unfold threadSetUnrecoverable
  split_ifs
  · exact KeepsChoice.refl p
  · exact keepsChoice_of_eq rfl rfl rfl rfl rfl rfl (fun _ _ => rfl) (fun _ => rfl) fun h => h

theorem threadEmitSyncError_keeps {errorId : ErrorId} {failedAddr : Nat} :
    Choosing armed p (p.threadEmitSyncError t errorId failedAddr) := by
  have hset : KeepsChoice armed p { p with syncError := errorId, syncErrorFailedAddr := failedAddr } :=
    keepsChoice_of_eq rfl rfl rfl rfl rfl rfl (fun _ _ => rfl) (fun _ => rfl) fun h => h
  exact Choosing.after hset threadAddErrorBit_keeps

theorem processError_keeps {errorId : ErrorId} {failedAddr : Nat} :
    Choosing armed p (p.processError hm c errorId failedAddr) := by
  apply Sat.bind_of_forall
  intro processed
  refine Sat.ite (fun _ => KeepsChoice.refl p) fun _ => Sat.ite (fun _ => trivial) fun _ => ?_
  exact threadEmitSyncError_keeps

theorem emitDeadlineMissed_keeps : Choosing armed p (p.emitDeadlineMissed hm t) := by
  apply Sat.bind_of_forall
  intro processed
  exact Sat.ite (fun _ => KeepsChoice.refl p) fun _ => threadAddErrorBit_keeps

theorem emitDeadlineOor_keeps : Choosing armed p (p.emitDeadlineOor hm t) := by
  apply Sat.bind_of_forall
  intro processed
  refine Sat.ite (fun _ => threadSetUnrecoverable_keeps) fun _ => ?_
  exact Choosing.after threadSetUnrecoverable_keeps threadAddErrorBit_keeps

/-! Events -/

theorem processEvent_keeps {event : DelayedEvent} : Choosing armed p (processEvent hm p event) := by
  unfold processEvent
  split
  · exact emitDeadlineMissed_keeps
  · split
    · exact threadWakeUp_keeps.choosing
    · exact threadResumeWaited_keeps.choosing

theorem delayedEventQueueCheck_keeps {now : Int} {n : Nat} :
    Choosing armed p (delayedEventQueueCheck hm now n p) := by
  induction n generalizing p with
  | zero => exact KeepsChoice.refl p
  | succ n ih =>
    rw [delayedEventQueueCheck]
    split
    · exact KeepsChoice.refl p
    · rename_i event rest hevents
      refine Sat.ite (fun _ => KeepsChoice.refl p) fun _ => ?_
      have hdropped : KeepsChoice armed p { p with delayedEvents := rest } := by
        refine keepsChoice_of_eq rfl rfl rfl rfl rfl rfl (fun _ _ => rfl) (fun _ => rfl) fun h => ?_
        unfold OrderedEvents at h
        rw [hevents] at h
        exact h.of_cons
      exact Choosing.after hdropped (processEvent_keeps.bind fun _ => ih)

theorem threadWqRemove_keeps : Keeps armed p (p.threadWqRemove t) :=
  moves_threadWqRemove.keeps fun _ => by simp

theorem portQueuingFired_keeps {port served : Nat} :
    Keeping armed p (portQueuingFired port served p) := by
  induction served generalizing p with
  | zero => exact Keeps.refl p
  | succ served ih =>
    rw [portQueuingFired]
    split
    · exact Keeps.refl p
    · apply Keeping.bind (Keeping.after threadWqRemove_keeps threadWakeUp_keeps)
      intro q _
      exact Keeping.after setWaitResult_keeps ih

theorem drain_keeps {events : List DrainedEvent} : Choosing armed p (drain hm events p) := by
  induction events generalizing p with
  | nil => exact KeepsChoice.refl p
  | cons event events ih =>
    have hevent : Choosing armed p (p.processDrained hm event) := by
      cases event with
      | timer => exact delayedEventQueueCheck_keeps
      | port => exact portQueuingFired_keeps.choosing
    exact hevent.bind fun _ => ih

end ArincPartition

end Chpok
