import Chpok.Kernel.ArincExits
import Chpok.Kernel.ChoiceCalls
import Chpok.Library.FlaggedQueue
import Chpok.Library.Run

/-! The errors of processes. A thread is in the list of errors as long as it has error bits,
and each error that is raised is fetched once, or cancelled when the error handler stops. -/

namespace Chpok

namespace ArincPartition

open Outcome

variable {p q : ArincPartition} {t u c : Nat} {hm : PartitionHm} {bit : ErrorBit}
  {armed : Nat → Prop}

/-- The list of errors and the error bits of its threads -/
def errorQueue (p : ArincPartition) : FlaggedQueue Nat ErrorBit :=
  ⟨fun t => (p.errors t).errorBits, p.errorList⟩

/-- What `pok_error_get` and the assertions about error bits rely on. A process whose deadline
error is pending has no deadline. -/
structure ErrorsListed (p : ArincPartition) : Prop where
  listed : p.errorQueue.Listed
  first : p.errorQueue.OnlyFirst .sync
  logged : ∀ e, p.errorLog.raised.count e =
    p.errorLog.fetched.count e + p.errorLog.cancelled.count e + p.errorQueue.pending e
  unique : p.UniqueEvents
  deadline : ∀ t, .deadline ∈ (p.errors t).errorBits → ¬ p.DelayedEventActive t .deadline

/-- The error handler runs, or the scheduler is going to start it. -/
structure ErrorsSound (p : ArincPartition) : Prop extends ErrorsListed p where
  handled : p.errorList ≠ [] → p.mode = .normal ∧ (p.isErrorHandler = true ∨ p.recheckNeeded = true)

def ErrorExit : PartitionExit → Prop
  | .failed assertion => assertion ∉ errorAssertions
  | .reset p | .idle p | .forever p => ErrorsListed p
  | .refused => True

theorem Quiet.errors {α : Type} {post : α → Prop} {m : Except PartitionExit α} (hm : Quiet m)
    (hpost : Sat (fun _ => True) post m) : Sat ErrorExit post m := by
  cases m with
  | ok a => exact hpost
  | error e =>
    cases e with
    | failed => exact hm
    | refused => trivial
    | reset | idle | forever => exact hm.elim

theorem ErrorsListed.of_eq (h : ErrorsListed p) (hqueue : q.errorQueue = p.errorQueue)
    (hlog : q.errorLog = p.errorLog) (hevents : q.delayedEvents = p.delayedEvents) :
    ErrorsListed q where
  listed := hqueue ▸ h.listed
  first := hqueue ▸ h.first
  logged := by
    rw [hqueue, hlog]
    exact h.logged
  unique := by
    unfold UniqueEvents
    rw [hevents]
    exact h.unique
  deadline t := by
    have hbits : (q.errors t).errorBits = (p.errors t).errorBits :=
      congrFun (congrArg FlaggedQueue.flags hqueue) t
    unfold DelayedEventActive
    rw [hbits, hevents]
    exact h.deadline t

theorem KeepsErrors.errorQueue (hk : KeepsErrors armed p q) : q.errorQueue = p.errorQueue := by
  unfold ArincPartition.errorQueue
  rw [hk.list, funext hk.bits]

theorem KeepsErrors.listed (hk : KeepsErrors armed p q) (h : ErrorsListed p)
    (harmed : ∀ t, armed t → .deadline ∉ (p.errors t).errorBits) : ErrorsListed q where
  listed := hk.errorQueue ▸ h.listed
  first := hk.errorQueue ▸ h.first
  logged := by
    rw [hk.errorQueue, hk.log]
    exact h.logged
  unique := hk.unique h.unique
  deadline t hbit hactive := by
    rw [hk.bits] at hbit
    rcases hk.deadline t hactive with hp | ha
    · exact h.deadline t hbit hp
    · exact harmed t ha hbit

theorem KeepsErrors.sound (hk : KeepsErrors armed p q) (h : ErrorsSound p)
    (harmed : ∀ t, armed t → .deadline ∉ (p.errors t).errorBits) : ErrorsSound q where
  toErrorsListed := hk.listed h.toErrorsListed harmed
  handled hne := by
    rw [hk.list] at hne
    obtain ⟨hmode, hruns⟩ := h.handled hne
    rw [hk.mode, hk.handler]
    exact ⟨hmode, hruns.imp_right hk.recheck⟩

theorem ErrorsSound.bits_of_init (h : ErrorsSound p) (hmode : p.mode ≠ .normal) (t : Nat) :
    (p.errors t).errorBits = ∅ := by
  apply h.listed.flags_eq_empty (q := p.errorQueue)
  by_contra hne
  exact hmode (h.handled hne).1

/-! The list of errors -/

theorem errorQueue_eq {bits : Finset ErrorBit} {order : List Nat}
    (herrors : q.errors = Function.update p.errors t { p.errors t with errorBits := bits })
    (horder : q.errorList = order) :
    q.errorQueue = ⟨Function.update p.errorQueue.flags t bits, order⟩ := by
  unfold errorQueue
  congr 1
  funext v
  rw [herrors]
  by_cases hv : v = t
  · subst hv
    simp
  · simp [Function.update_of_ne hv]

theorem threadAddErrorBit_raises (hbit : bit ∉ (p.errors t).errorBits) :
    ∃ q, p.threadAddErrorBit t bit = .ok q ∧ q.errorQueue = p.errorQueue.raise t bit ∧
      q.errorLog = ⟨p.errorLog.raised ++ [(t, bit)], p.errorLog.fetched, p.errorLog.cancelled⟩ ∧
      q.delayedEvents = p.delayedEvents ∧ q.mode = p.mode ∧
      q.isErrorHandler = p.isErrorHandler ∧
      (q.recheckNeeded = true ∨ q.recheckNeeded = p.recheckNeeded ∧ p.errorList ≠ []) := by
  unfold threadAddErrorBit
  rw [if_neg hbit]
  dsimp only
  split_ifs with hmem
  · refine ⟨_, rfl, ?_, rfl, rfl, rfl, rfl, Or.inr ⟨rfl, List.ne_nil_of_mem hmem⟩⟩
    exact errorQueue_eq rfl (if_pos hmem).symm
  · refine ⟨_, rfl, ?_, rfl, rfl, rfl, rfl, Or.inl rfl⟩
    exact errorQueue_eq rfl (if_neg hmem).symm

theorem threadClearErrorBit_clears (h : p.errorQueue.Listed) (hbit : bit ∈ (p.errors t).errorBits) :
    ∃ q, p.threadClearErrorBit t bit = .ok q ∧ q.errorQueue = p.errorQueue.clear t bit ∧
      q.errorLog = p.errorLog ∧ q.delayedEvents = p.delayedEvents ∧ q.mode = p.mode ∧
      q.isErrorHandler = p.isErrorHandler ∧ q.recheckNeeded = p.recheckNeeded := by
  have hmem : t ∈ p.errorList := (h.mem t).mp (Finset.ne_empty_of_mem hbit)
  have hcleared : ((p.updateErrors t fun th => { th with
      errorBits := th.errorBits.erase bit }).errors t).errorBits =
        (p.errors t).errorBits.erase bit := by
    simp [updateErrors]
  unfold threadClearErrorBit
  rw [if_pos ⟨hbit, hmem⟩]
  dsimp only
  rw [hcleared]
  split_ifs with hempty
  · refine ⟨_, rfl, ?_, rfl, rfl, rfl, rfl, rfl⟩
    exact errorQueue_eq rfl (if_pos hempty).symm
  · refine ⟨_, rfl, ?_, rfl, rfl, rfl, rfl, rfl⟩
    exact errorQueue_eq rfl (if_neg hempty).symm

theorem errorBits_eq (p : ArincPartition) (t : Nat) : (p.errors t).errorBits = p.errorQueue.flags t :=
  rfl

theorem threadAddErrorBit_errors (h : ErrorsSound p) (hbit : bit ∉ (p.errors t).errorBits)
    (hfirst : bit = .sync → p.errorList = [])
    (hdeadline : bit = .deadline → ¬ p.DelayedEventActive t .deadline) (hmode : p.mode = .normal) :
    Sat ErrorExit ErrorsSound (p.threadAddErrorBit t bit) := by
  obtain ⟨q, hq, hqueue, hlog, hevents, hqmode, hhandler, hrecheck⟩ := threadAddErrorBit_raises hbit
  rw [hq]
  have hfirst' : q.errorQueue.OnlyFirst .sync := by
    rw [hqueue]
    by_cases hsync : bit = .sync
    · exact FlaggedQueue.OnlyFirst.raise_of_nil (hfirst hsync)
    · exact h.first.raise_of_ne h.listed.mem hsync
  have hlogged : ∀ e, q.errorLog.raised.count e =
      q.errorLog.fetched.count e + q.errorLog.cancelled.count e + q.errorQueue.pending e := by
    intro e
    simp only [hqueue, hlog, FlaggedQueue.pending_raise (q := p.errorQueue) hbit, List.count_append,
      h.logged e]
    omega
  have hunique : q.UniqueEvents := by
    unfold UniqueEvents
    rw [hevents]
    exact h.unique
  have hinactive : ∀ u, .deadline ∈ (q.errors u).errorBits → ¬ q.DelayedEventActive u .deadline := by
    intro u hu
    unfold DelayedEventActive
    rw [hevents]
    rw [errorBits_eq, hqueue] at hu
    by_cases hut : u = t
    · subst hut
      rw [FlaggedQueue.raise_flags, Function.update_self, Finset.mem_insert] at hu
      rcases hu with hb | hold
      · exact hdeadline hb.symm
      · exact h.deadline u hold
    · rw [FlaggedQueue.raise_flags, Function.update_of_ne hut] at hu
      exact h.deadline u hu
  refine ⟨⟨hqueue ▸ h.listed.raise, hfirst', hlogged, hunique, hinactive⟩, fun _ => ?_⟩
  refine ⟨hqmode.trans hmode, ?_⟩
  rw [hhandler]
  rcases hrecheck with hr | ⟨hr, hne⟩
  · exact Or.inr hr
  · rw [hr]
    exact (h.handled hne).2

/-- An error that is cleared is logged as fetched or as cancelled. -/
theorem threadClearErrorBit_errors (h : ErrorsSound p) (hbit : bit ∈ (p.errors t).errorBits)
    (log : ErrorLog) (hraised : log.raised = p.errorLog.raised)
    (hdone : ∀ e, log.fetched.count e + log.cancelled.count e =
      p.errorLog.fetched.count e + p.errorLog.cancelled.count e + [(t, bit)].count e) :
    Sat ErrorExit (fun q => ErrorsSound { q with errorLog := log }) (p.threadClearErrorBit t bit) := by
  obtain ⟨q, hq, hqueue, -, hevents, hqmode, hhandler, hrecheck⟩ :=
    threadClearErrorBit_clears h.listed hbit
  rw [hq]
  have hsub : ∀ u, (q.errors u).errorBits ⊆ (p.errors u).errorBits := by
    intro u
    rw [errorBits_eq, hqueue, FlaggedQueue.clear_flags]
    by_cases hut : u = t
    · subst hut
      rw [Function.update_self]
      exact Finset.erase_subset ..
    · rw [Function.update_of_ne hut]
      exact Finset.Subset.refl _
  have hlogged : ∀ e, log.raised.count e =
      log.fetched.count e + log.cancelled.count e + q.errorQueue.pending e := by
    intro e
    have hp := h.logged e
    rw [FlaggedQueue.pending_clear (q := p.errorQueue) hbit, ← hqueue] at hp
    rw [hraised, hdone]
    omega
  have hunique : q.UniqueEvents := by
    unfold UniqueEvents
    rw [hevents]
    exact h.unique
  have hinactive : ∀ u, .deadline ∈ (q.errors u).errorBits → ¬ q.DelayedEventActive u .deadline := by
    intro u hu
    unfold DelayedEventActive
    rw [hevents]
    exact h.deadline u (hsub u hu)
  refine ⟨⟨hqueue ▸ h.listed.clear, hqueue ▸ h.first.clear, hlogged, hunique, hinactive⟩, ?_⟩
  intro hne
  have hlist : p.errorList ≠ [] := (List.ne_nil_of_mem ((h.listed.mem t).mp (Finset.ne_empty_of_mem hbit)))
  obtain ⟨hmode, hruns⟩ := h.handled hlist
  refine ⟨hqmode.trans hmode, ?_⟩
  change q.isErrorHandler = true ∨ q.recheckNeeded = true
  rw [hhandler, hrecheck]
  exact hruns

/-! Errors -/

theorem partitionReset_errors {mode : PartitionMode} {post : ArincPartition → Prop}
    (h : ErrorsListed p) : Sat ErrorExit post (p.partitionReset mode) :=
  Sat.ite (fun _ => h.of_eq rfl rfl rfl) fun _ =>
    (by decide : Assertion.partitionReset ∉ errorAssertions)

theorem takeFixedAction_errors {action : ErrorAction} (h : ErrorsListed p) :
    Sat ErrorExit (fun q => q = p) (p.takeFixedAction action) := by
  cases action with
  | ignore => rfl
  | idle => exact h.of_eq rfl rfl rfl
  | coldStart => exact partitionReset_errors h
  | warmStart =>
    refine Sat.ite (fun _ => ?_) fun _ => partitionReset_errors h
    exact (by decide : Assertion.takeFixedAction ∉ errorAssertions)

theorem processErrorPartition_errors {state : SystemState} {errorId : ErrorId}
    (h : ErrorsListed p) : Sat ErrorExit (fun processed => processed = false →
      state = .user ∧ p.mode = .normal) (processErrorPartition hm p state errorId) := by
  refine Sat.ite (fun hleft _ => ⟨hleft.1, hleft.2.2.1⟩) fun _ => ?_
  apply (takeFixedAction_errors h).bind
  rintro q rfl
  refine Sat.ite (fun _ => nofun) fun _ => ?_
  have hcleared : ErrorsListed { q with nthreadsUnrecoverable := 0 } := h.of_eq rfl rfl rfl
  apply (takeFixedAction_errors hcleared).bind
  rintro r rfl
  exact h.of_eq rfl rfl rfl

theorem threadEmitSyncError_errors {errorId : ErrorId} {failedAddr : Nat} (h : ErrorsSound p)
    (hnil : p.errorList = []) (hmode : p.mode = .normal) :
    Sat ErrorExit ErrorsSound (p.threadEmitSyncError c errorId failedAddr) := by
  have hset : ErrorsSound { p with syncError := errorId, syncErrorFailedAddr := failedAddr } :=
    ⟨h.toErrorsListed.of_eq rfl rfl rfl, h.handled⟩
  refine threadAddErrorBit_errors hset ?_ (fun _ => hnil) (fun hd => by cases hd) hmode
  have hempty : p.errorQueue.flags c = ∅ := h.listed.flags_eq_empty hnil
  change ErrorBit.sync ∉ p.errorQueue.flags c
  simp [hempty]

/-- At the end of a step the error handler runs if there is an error. -/
def ErrorsHandled (p : ArincPartition) : Prop :=
  p.errorList ≠ [] → p.mode = .normal ∧ p.isErrorHandler = true

theorem ErrorsHandled.nil (h : p.ErrorsHandled) (hnot : p.isErrorHandler ≠ true) :
    p.errorList = [] := by
  by_contra hne
  exact hnot (h hne).2

theorem processError_errors {errorId : ErrorId} {failedAddr : Nat} (h : ErrorsSound p)
    (hhandled : p.ErrorsHandled) :
    Sat ErrorExit ErrorsSound (p.processError hm c errorId failedAddr) := by
  apply (processErrorPartition_errors h.toErrorsListed).bind
  intro processed hleft
  refine Sat.ite (fun _ => h) fun hnot => Sat.ite (fun _ => ?_) fun _ => ?_
  · exact (by decide : Assertion.raiseError ∉ errorAssertions)
  · obtain ⟨hstate, hmode⟩ := hleft (by simpa using hnot)
    have hidle : p.isErrorHandler ≠ true := by
      intro hruns
      simp [userState, hruns] at hstate
    exact threadEmitSyncError_errors h (hhandled.nil hidle) hmode

theorem raiseApplicationError_errors (h : ErrorsSound p) (hhandled : p.ErrorsHandled)
    (hself : p.isErrorHandler = true → p.threadError = some c) :
    Sat ErrorExit (fun r => ErrorsSound r.1) (p.raiseApplicationError hm c) := by
  apply (processErrorPartition_errors h.toErrorsListed).bind
  intro processed hleft
  refine Sat.ite (fun _ => h) fun hnot => ?_
  obtain ⟨hstate, hmode⟩ := hleft (by simpa using hnot)
  have hidle : p.isErrorHandler ≠ true := by
    intro hruns
    simp [hself hruns] at hstate
  exact (threadEmitSyncError_errors h (hhandled.nil hidle) hmode).map fun _ hq => hq

theorem raiseOsError_errors (h : ErrorsSound p) :
    Sat ErrorExit (fun r => ErrorsSound r.1) (p.raiseOsError hm) :=
  (processErrorPartition_errors h.toErrorsListed).map fun _ _ => h

theorem emitDeadlineMissed_errors (h : ErrorsSound p) (hactive : ¬ p.DelayedEventActive t .deadline)
    (hbit : .deadline ∉ (p.errors t).errorBits) :
    Sat ErrorExit ErrorsSound (p.emitDeadlineMissed hm t) := by
  apply (processErrorPartition_errors h.toErrorsListed).bind
  intro processed hleft
  refine Sat.ite (fun _ => h) fun hnot => ?_
  obtain ⟨-, hmode⟩ := hleft (by simpa using hnot)
  exact threadAddErrorBit_errors h hbit nofun (fun _ => hactive) hmode

theorem keepsErrors_threadSetUnrecoverable : KeepsErrors armed p (p.threadSetUnrecoverable t) := by
  unfold threadSetUnrecoverable
  split_ifs
  · exact KeepsErrors.refl p
  · refine ⟨rfl, fun h => h, rfl, ?_, rfl, rfl, fun h => h, fun _ h => Or.inl h⟩
    intro u
    by_cases hu : u = t
    · subst hu
      simp [updateErrors]
    · simp [updateErrors, Function.update_of_ne hu]

theorem emitDeadlineOor_errors (h : ErrorsSound p) (hbit : .deadlineOor ∉ (p.errors t).errorBits) :
    Sat ErrorExit ErrorsSound (p.emitDeadlineOor hm t) := by
  have hk : KeepsErrors (fun _ => False) p (p.threadSetUnrecoverable t) :=
    keepsErrors_threadSetUnrecoverable
  have hset : ErrorsSound (p.threadSetUnrecoverable t) := hk.sound h fun _ hf => hf.elim
  apply (processErrorPartition_errors hset.toErrorsListed).bind
  intro processed hleft
  refine Sat.ite (fun _ => hset) fun hnot => ?_
  obtain ⟨-, hmode⟩ := hleft (by simpa using hnot)
  exact threadAddErrorBit_errors hset (hk.bits t ▸ hbit) nofun nofun hmode

theorem pendingError_of_mem (h : ErrorsListed p) (ht : t ∈ p.errorList) :
    ∃ report, p.pendingError t = some report ∧ report.failedThread = t ∧
      report.bit ∈ (p.errors t).errorBits := by
  obtain ⟨bit, hbit⟩ := Finset.nonempty_iff_ne_empty.mpr ((h.listed.mem t).mpr ht)
  have hbit' : bit ∈ (p.errors t).errorBits := hbit
  unfold pendingError
  split_ifs with hsync hdeadline hoor
  · exact ⟨_, rfl, rfl, hsync⟩
  · exact ⟨_, rfl, rfl, hdeadline⟩
  · exact ⟨_, rfl, rfl, hoor⟩
  · cases bit with
    | sync => exact absurd hbit' hsync
    | deadline => exact absurd hbit' hdeadline
    | deadlineOor => exact absurd hbit' hoor

theorem errorGet_errors (h : ErrorsSound p) :
    Sat ErrorExit (fun r => ErrorsSound r.1) (p.errorGet c) := by
  refine Sat.ite (fun _ => h) fun _ => ?_
  split
  · exact h
  · rename_i t rest hlist
    obtain ⟨report, hreport, -, hbit⟩ :=
      pendingError_of_mem h.toErrorsListed (t := t) (by simp [hlist])
    rw [hreport]
    dsimp only
    obtain ⟨q, hq, -, hlog, -⟩ := threadClearErrorBit_clears h.listed hbit
    have hcleared := threadClearErrorBit_errors h hbit ⟨p.errorLog.raised,
      p.errorLog.fetched ++ [(t, report.bit)], p.errorLog.cancelled⟩ rfl fun e => by
        simp only [List.count_append]
        omega
    rw [hq] at hcleared ⊢
    rw [← hlog] at hcleared
    exact hcleared

theorem errorIgnoreSync_errors (h : ErrorsSound p) :
    Sat ErrorExit ErrorsSound p.errorIgnoreSync := by
  unfold errorIgnoreSync
  split
  · exact h
  · rename_i t rest _
    refine Sat.ite (fun hbit => ?_) fun _ => h
    obtain ⟨q, hq, -, hlog, -⟩ := threadClearErrorBit_clears h.listed hbit
    have hcleared := threadClearErrorBit_errors h hbit ⟨p.errorLog.raised, p.errorLog.fetched,
      p.errorLog.cancelled ++ [(t, .sync)]⟩ rfl fun e => by
        simp only [List.count_append]
        omega
    rw [hq] at hcleared ⊢
    rw [← hlog] at hcleared
    exact hcleared

end ArincPartition

end Chpok
