import Chpok.Kernel.ErrorQueue

/-! Error delivery over the runs of a partition. Pending errors are left by no start, of a
process or of the partition, and the error handler gets each of them once. -/

namespace Chpok

namespace ArincPartition

open Outcome

variable {p q : ArincPartition} {t u c : Nat} {hm : PartitionHm}

theorem Keeping.errors {armed : Nat → Prop} {m : Except PartitionExit ArincPartition}
    (hk : Keeping armed p m) (hm : Quiet m) (h : ErrorsSound p)
    (harmed : ∀ t, armed t → .deadline ∉ (p.errors t).errorBits) : Sat ErrorExit ErrorsSound m :=
  hm.errors (hk.weaken fun _ hq => hq.errors.sound h harmed)

theorem Keeping.errors_same {m : Except PartitionExit ArincPartition}
    (hk : Keeping (fun _ => False) p m) (hm : Quiet m) (h : ErrorsSound p) :
    Sat ErrorExit ErrorsSound m :=
  hk.errors hm h fun _ hf => hf.elim

theorem ErrorsSound.localInvalidate (h : ErrorsSound p) : ErrorsSound p.localInvalidate where
  toErrorsListed := h.toErrorsListed.of_eq rfl rfl rfl
  handled hne := ⟨(h.handled hne).1, Or.inr rfl⟩

/-! System calls -/

theorem pokThreadStop_errors (h : ErrorsSound p) :
    Sat ErrorExit (fun r => ErrorsSound r.1) (p.pokThreadStop hm c) := by
  refine Sat.ite (fun _ => ?_) fun _ => ?_
  · exact (by decide : Assertion.pokThreadStop ∉ errorAssertions)
  have hstopped : Sat ErrorExit ErrorsSound (p.threadStop c) := by
    apply threadStop_quiet.errors
    apply Sat.of_forall
    intro q hq
    have hk : KeepsErrors (fun _ => False) p q := (threadStop_moves hq).keepsErrors
    exact hk.sound h fun _ hf => hf.elim
  refine Sat.map (hstopped.bind fun q hq => ?_) fun r (hr : ErrorsSound r) => hr
  refine Sat.map (Sat.ite (fun _ => ?_) fun _ => hq) fun r (hr : ErrorsSound r) => hr.localInvalidate
  have hchecked : Sat ErrorExit (fun r => r = q) (q.errorCheckAfterHandler hm) :=
    Sat.ite (fun _ => rfl) fun _ =>
      (processErrorPartition_errors hq.toErrorsListed).map fun _ _ => rfl
  apply hchecked.bind
  rintro r rfl
  exact errorIgnoreSync_errors hq

theorem partitionSetMode_errors {mode : PartitionMode} {now start : Int} (h : ErrorsSound p) :
    Sat ErrorExit (fun r => ErrorsSound r.1) (p.partitionSetMode mode now start) := by
  have hreset : ∀ {m : PartitionMode}, Sat ErrorExit (fun r : ArincPartition × PokErrno =>
      ErrorsSound r.1) (returning .ok (p.partitionReset m)) :=
    Sat.map (partitionReset_errors h.toErrorsListed) fun _ hr => hr
  cases mode with
  | initWarm => exact Sat.ite (fun _ => h) fun _ => hreset
  | initCold => exact hreset
  | idle => exact h.toErrorsListed.of_eq rfl rfl rfl
  | normal =>
    refine Sat.ite (fun _ => h) fun hmode => ?_
    -- No error is pending yet, so that all deadlines may be set.
    have hempty := h.bits_of_init hmode
    have hentered : ErrorsSound { p with mode := .normal, lockLevel := 0 }.localInvalidate :=
      ⟨h.toErrorsListed.of_eq rfl rfl rfl, fun _ => ⟨rfl, Or.inr rfl⟩⟩
    have hreleased : Keeping (fun _ => True) { p with mode := .normal, lockLevel := 0 }.localInvalidate
        (p.partitionSetModeNormal now start) := releaseThreads_keeps fun _ => trivial
    have harmed : ∀ t, ErrorBit.deadline ∉ (p.errors t).errorBits := by
      intro t
      simp [hempty t]
    have hsound : Sat ErrorExit ErrorsSound (p.partitionSetModeNormal now start) :=
      hreleased.errors releaseThreads_quiet hentered fun t _ => harmed t
    exact hsound.map fun _ hq => hq

/-- What a call may do without an error that is pending being lost. -/
def CallFetched (p : ArincPartition) (c : Nat) (call : ArincCall) : Prop :=
  (call = .raiseApplicationError → p.isErrorHandler = true → p.threadError = some c) ∧
    ∀ t, p.setsDeadline c call = some t → .deadline ∉ (p.errors t).errorBits

theorem CallFetched.times {call : ArincCall} (hok : p.CallFetched c call) (h : ErrorsSound p)
    (ht : p.setsTimes c call = some t) : .deadline ∉ (p.errors t).errorBits := by
  cases call with
  | delayedStart id delay now start =>
    by_cases hmode : p.mode = .normal
    · apply hok.2 t
      simpa [setsDeadline, setsTimes, hmode] using ht
    · rw [h.bits_of_init hmode]
      simp
  | _ => exact hok.2 t ht

theorem call_errors {call : ArincCall} (h : ErrorsSound p) (hhandled : p.ErrorsHandled)
    (hfree : HandlerFree p) (hok : p.CallFetched c call) :
    Sat ErrorExit (fun r => ErrorsSound r.1) (p.call hm c call) := by
  have hcreated : ∀ {m : Except PartitionExit (ArincPartition × PokErrno)}, Quiet m →
      Sat (fun _ => True) (fun r => HandlerFree r.1 ∧ KeepsErrors (fun _ => False) p r.1) m →
        Sat ErrorExit (fun r => ErrorsSound r.1) m :=
    fun hm hk => hm.errors (hk.weaken fun _ hr => hr.2.sound h fun _ hf => hf.elim)
  cases call with
  | create =>
    exact Sat.ite (fun _ => trivial) fun _ =>
      hcreated pokThreadCreate_quiet (pokThreadCreate_keeps hfree)
  | createError =>
    exact Sat.ite (fun _ => trivial) fun _ =>
      hcreated errorThreadCreate_quiet (errorThreadCreate_keeps hfree)
  | stop => exact Sat.ite (fun _ => trivial) fun _ => pokThreadStop_errors h
  | incLockLevel =>
    refine Sat.ite (fun _ => trivial) fun _ => ?_
    unfold ArincPartition.incLockLevel
    split_ifs
    · exact h
    · exact h
    · exact ⟨h.toErrorsListed.of_eq rfl rfl rfl, h.handled⟩
  | decLockLevel =>
    refine Sat.ite (fun _ => trivial) fun _ => ?_
    have hlevel : ErrorsSound { p with lockLevel := p.lockLevel - 1 } :=
      ⟨h.toErrorsListed.of_eq rfl rfl rfl, h.handled⟩
    unfold ArincPartition.decLockLevel
    split_ifs
    · exact h
    · exact h
    · exact hlevel.localInvalidate
    · exact hlevel
  | setMode => exact Sat.ite (fun _ => trivial) fun _ => partitionSetMode_errors h
  | raiseApplicationError =>
    exact Sat.ite (fun _ => trivial) fun _ => raiseApplicationError_errors h hhandled (hok.1 rfl)
  | raiseOsError => exact Sat.ite (fun _ => trivial) fun _ => raiseOsError_errors h
  | errorGet => exact Sat.ite (fun _ => trivial) fun _ => (errorGet_errors h).map fun _ hr => hr
  | _ =>
    apply (call_quiet id).errors
    apply (call_keeps (by trivial) hfree fun _ ht => hok.times h ht).weaken
    exact fun _ hr => hr.errors.sound h fun _ ht => ht

/-! Events -/

theorem UniqueEvents.not_active {event : DelayedEvent} {rest : List DelayedEvent}
    (h : p.UniqueEvents) (hevents : p.delayedEvents = event :: rest) :
    ¬ { p with delayedEvents := rest }.DelayedEventActive event.thread event.kind := by
  unfold UniqueEvents at h
  rw [hevents, List.map_cons, List.nodup_cons] at h
  rintro ⟨other, hmem, hthread, hkind⟩
  apply h.1
  rw [← hthread, ← hkind]
  exact List.mem_map_of_mem hmem

theorem delayedEventQueueCheck_errors {now : Int} {n : Nat} (h : ErrorsSound p) :
    Sat ErrorExit ErrorsSound (delayedEventQueueCheck hm now n p) := by
  induction n generalizing p with
  | zero => exact h
  | succ n ih =>
    rw [delayedEventQueueCheck]
    split
    · exact h
    · rename_i event rest hevents
      refine Sat.ite (fun _ => h) fun _ => ?_
      have hinactive := h.unique.not_active hevents
      have hbefore : p.DelayedEventActive event.thread event.kind :=
        ⟨event, by simp [hevents], rfl, rfl⟩
      have hdropped : ErrorsSound { p with delayedEvents := rest } := by
        refine ⟨⟨h.listed, h.first, h.logged, ?_, ?_⟩, h.handled⟩
        · have hunique := h.unique
          unfold UniqueEvents at hunique
          rw [hevents, List.map_cons] at hunique
          exact hunique.of_cons
        · rintro t hbit ⟨other, hmem, hother⟩
          exact h.deadline t hbit ⟨other, by simp [hevents, hmem], hother⟩
      apply Sat.bind _ fun q hq => ih hq
      unfold processEvent
      split
      · rename_i hkind
        rw [hkind] at hinactive hbefore
        exact emitDeadlineMissed_errors hdropped hinactive fun hbit => h.deadline _ hbit hbefore
      · split
        · exact threadWakeUp_keeps.errors_same threadWakeUp_quiet hdropped
        · exact threadResumeWaited_keeps.errors_same threadResumeWaited_quiet hdropped

theorem drain_errors {events : List DrainedEvent} (h : ErrorsSound p) :
    Sat ErrorExit ErrorsSound (drain hm events p) := by
  induction events generalizing p with
  | nil => exact h
  | cons event events ih =>
    have hevent : Sat ErrorExit ErrorsSound (p.processDrained hm event) := by
      cases event with
      | timer => exact delayedEventQueueCheck_errors h
      | port => exact portQueuingFired_keeps.errors_same portQueuingFired_quiet h
    exact hevent.bind fun q hq => ih hq

/-- The scheduler starts the error handler if there is an error. -/
theorem reschedule_errors (h : ErrorsSound p) :
    Sat ErrorExit (fun q => ErrorsSound q ∧ q.ErrorsHandled) p.reschedule := by
  unfold reschedule
  by_cases hr : p.recheckNeeded = true
  · rw [if_pos hr]
    have hquiet : ∀ {assertion : Assertion} (e : PartitionExit), e = .failed assertion →
        assertion ∉ errorAssertions → ErrorExit e := by
      rintro assertion e rfl hnot
      exact hnot
    apply (schedRule_ruled.mono (fun e he => hquiet e he (by decide)) fun _ hn => hn).bind
    intro n hn
    apply selectAndSwitch_switched.mono fun e he => hquiet e he (by decide)
    intro q hs
    have hlisted : ErrorsListed q := by
      apply h.toErrorsListed.of_eq
      · rw [hs.rest]
        cases hn <;> rfl
      · rw [hs.rest]
        cases hn <;> rfl
      · rw [hs.rest]
        cases hn <;> rfl
    have hhandled : q.ErrorsHandled := by
      intro hne
      rw [hs.rest] at hne ⊢
      cases hn with
      | init hmode => exact absurd (h.handled hne).1 hmode
      | handler e hmode => exact ⟨hmode, rfl⟩
      | start e hmode => exact ⟨hmode, rfl⟩
      | normal hmode hnil => exact absurd hnil hne
    exact ⟨⟨hlisted, fun hne => (hhandled hne).imp_right Or.inl⟩, hhandled⟩
  · rw [if_neg hr]
    refine ⟨h, fun hne => ?_⟩
    obtain ⟨hmode, hruns⟩ := h.handled hne
    exact ⟨hmode, hruns.resolve_right hr⟩

/-! The runs of a partition -/

/-- What a step may do without an error that is pending being lost -/
def FetchedBefore (p : ArincPartition) : ArincInput → Prop
  | .call call _ => ∀ c, p.threadCurrent = some c → p.CallFetched c call
  | .deadlineOor t _ => .deadlineOor ∉ (p.errors t).errorBits
  | _ => True

/-- The errors that are pending when a step restarts the partition -/
def errorsAtReset : Except PartitionExit ArincPartition → List Nat
  | .error (.reset p) => p.errorList
  | _ => []

/-- The errors of a process are fetched before it gets a new deadline, and all errors before
the partition restarts. -/
structure ErrorsFetched (hm : PartitionHm) (p : ArincPartition) (e : ArincInput) : Prop where
  before : p.FetchedBefore e
  restart : errorsAtReset (p.run hm e) = []

theorem withCurrent_errors {post : ArincPartition → Prop}
    {f : Nat → Except PartitionExit ArincPartition}
    (hf : ∀ c, p.threadCurrent = some c → Sat ErrorExit post (f c)) :
    Sat ErrorExit post (p.withCurrent f) := by
  unfold withCurrent
  split
  · trivial
  · rename_i c hc
    exact hf c hc

theorem beforeRecheck_errors {e : ArincInput} (h : ErrorsSound p) (hhandled : p.ErrorsHandled)
    (hfree : HandlerFree p) (hok : p.FetchedBefore e) :
    Sat ErrorExit ErrorsSound (p.beforeRecheck hm e) := by
  cases e with
  | onEvent =>
    have hrecorded : Keeps (fun _ => False) p (p.onSections (·.recordEntering)) :=
      recordEntering_keeps
    exact drain_errors (hrecorded.errors.sound h fun _ hf => hf.elim)
  | recheck => exact drain_errors h
  | user | restart => trivial
  | fault =>
    exact withCurrent_errors fun c _ => (processError_errors h hhandled).bind fun q hq =>
      drain_errors hq
  | deadlineOor => exact (emitDeadlineOor_errors h hok).bind fun q hq => drain_errors hq
  | call =>
    exact withCurrent_errors fun c hc => (call_errors h hhandled hfree (hok c hc)).bind fun r hr =>
      drain_errors hr

/-- Between the steps of a partition -/
structure ErrorsKept (p : ArincPartition) : Prop extends ErrorsListed p where
  running : p.halted = false → ErrorsSound p ∧ p.ErrorsHandled ∧ HandlerFree p

theorem run_errors {e : ArincInput} (h : ErrorsKept p) (hok : p.FetchedBefore e) :
    Sat ErrorExit (fun q => ErrorsSound q ∧ q.ErrorsHandled) (p.run hm e) := by
  have hstep : ∀ {m : Except PartitionExit ArincPartition}, (p.halted = false →
      Sat ErrorExit (fun q => ErrorsSound q ∧ q.ErrorsHandled) m) →
        Sat ErrorExit (fun q => ErrorsSound q ∧ q.ErrorsHandled)
          (if p.halted then .error .refused else m) :=
    fun hm => Sat.ite (fun _ => trivial) fun hhalted => hm (by simpa using hhalted)
  cases e with
  | restart => exact h.toErrorsListed.of_eq rfl rfl rfl
  | user e =>
    refine hstep fun hhalted => withCurrent_errors fun c _ => ?_
    obtain ⟨hsound, hhandled, hfree⟩ := h.running hhalted
    apply (liftSections_quiet (by decide)).errors
    unfold liftSections
    split
    · trivial
    · rename_i s hs
      have hkeeps : Keeps (fun _ => False) p (p.onSections fun _ => s) := userStep_keeps hs
      exact ⟨hkeeps.errors.sound hsound fun _ hf => hf.elim, hhandled⟩
  | onEvent | recheck | fault | deadlineOor | call =>
    refine hstep fun hhalted => ?_
    obtain ⟨hsound, hhandled, hfree⟩ := h.running hhalted
    exact (beforeRecheck_errors hsound hhandled hfree hok).bind fun q hq => reschedule_errors hq

theorem partitionArincStart_errors (h : ErrorsListed p) (hnil : p.errorList = []) :
    ErrorsKept p.partitionArincStart := by
  have hempty : ∀ t, p.errorQueue.flags t = ∅ := fun t => h.listed.flags_eq_empty hnil
  have hlisted : ErrorsListed p.partitionArincStart := by
    refine ⟨⟨fun t => ?_, List.nodup_nil⟩, nofun, h.logged, List.nodup_nil, fun t _ => nofun⟩
    change p.errorQueue.flags t ≠ ∅ ↔ t ∈ []
    simp [hempty t]
  have hnone : p.partitionArincStart.errorList = [] := rfl
  exact ⟨hlisted, fun _ => ⟨⟨hlisted, fun hne => absurd hnone hne⟩, fun hne => absurd hnone hne, nofun⟩⟩

theorem step_errors {e : ArincInput} (h : ErrorsKept p) (hok : ErrorsFetched hm p e)
    (hq : p.step hm e = some q) : ErrorsKept q := by
  have hrun : Sat ErrorExit (fun q => ErrorsSound q ∧ q.ErrorsHandled) (p.run hm e) :=
    run_errors h hok.before
  have hends : Ends (p.run hm e) := run_ends
  unfold step at hq
  split at hq
  · rename_i r he
    obtain rfl := Option.some.inj hq
    obtain ⟨hsound, hhandled⟩ := hrun.of_ok he
    have hfree := (h.running (running_of_ok he)).2.2
    exact ⟨hsound.toErrorsListed, fun _ => ⟨hsound, hhandled, (run_free hfree).of_ok he⟩⟩
  · rename_i r he
    obtain rfl := Option.some.inj hq
    have hnil := hok.restart
    rw [he] at hnil
    exact partitionArincStart_errors (hrun.of_error he) hnil
  · rename_i r he
    obtain rfl := Option.some.inj hq
    have hhalted : r.halted = true := hends.of_error he
    exact ⟨hrun.of_error he, fun hh => absurd hh (by simp [hhalted])⟩
  · rename_i r he
    obtain rfl := Option.some.inj hq
    have hhalted : r.halted = true := hends.of_error he
    exact ⟨hrun.of_error he, fun hh => absurd hh (by simp [hhalted])⟩
  · cases hq
  · cases hq

/-- GET_ERROR_STATUS by the error handler, until there are no more errors -/
def fetchErrors (c : Nat) : Nat → ArincPartition → Except PartitionExit ArincPartition
  | 0, p => .ok p
  | n + 1, p => (p.errorGet c).bind fun r => fetchErrors c n r.1

theorem errorGet_first (h : ErrorsSound p) (hc : p.threadError = some c) {rest : List Nat}
    (hlist : p.errorList = t :: rest) :
    ∃ q report, p.errorGet c = .ok (q, .ok, some report) ∧ report.failedThread = t ∧
      report.bit ∈ (p.errors t).errorBits ∧ q.errorQueue = p.errorQueue.clear t report.bit ∧
      q.errorLog = ⟨p.errorLog.raised, p.errorLog.fetched ++ [(t, report.bit)],
        p.errorLog.cancelled⟩ ∧ q.threadError = p.threadError := by
  obtain ⟨report, hreport, hthread, hbit⟩ :=
    pendingError_of_mem h.toErrorsListed (t := t) (by simp [hlist])
  obtain ⟨q, hq, hqueue, hlog, -⟩ := threadClearErrorBit_clears h.listed hbit
  have hframe : KeepsFrame (fun _ => True) p q := (threadClearErrorBit_frame.of_ok hq).1
  unfold errorGet
  rw [if_neg (not_not.mpr hc), hlist]
  dsimp only
  rw [hreport]
  dsimp only
  rw [hq]
  refine ⟨_, report, rfl, hthread, hbit, hqueue, ?_, hframe.error⟩
  rw [hlog]

theorem fetchErrors_all (h : ErrorsSound p) (hc : p.threadError = some c) :
    ∃ n q, fetchErrors c n p = .ok q ∧ ErrorsSound q ∧ q.errorList = [] ∧
      q.errorLog.raised = p.errorLog.raised ∧ q.errorLog.cancelled = p.errorLog.cancelled := by
  induction hn : p.errorQueue.size using Nat.strong_induction_on generalizing p with
  | _ n ih =>
    cases hlist : p.errorList with
    | nil => exact ⟨0, p, rfl, h, hlist, rfl, rfl⟩
    | cons t rest =>
      obtain ⟨r, report, hr, -, hbit, hqueue, hlog, herror⟩ := errorGet_first h hc hlist
      have hsound : ErrorsSound r := (errorGet_errors h).of_ok hr
      have hsize : r.errorQueue.size < n := by
        have hclear := h.listed.size_clear hbit
        rw [← hqueue] at hclear
        omega
      obtain ⟨k, q, hq, hqsound, hnil, hraised, hcancelled⟩ := ih _ hsize hsound (herror.trans hc) rfl
      refine ⟨k + 1, q, ?_, hqsound, hnil, ?_, ?_⟩
      · rw [fetchErrors, hr]
        exact hq
      · rw [hraised, hlog]
      · rw [hcancelled, hlog]

/-- What the claim of `error_arinc.c` comes to in one state -/
structure ErrorsConsistent (p : ArincPartition) : Prop where
  listed : ∀ t, (p.errors t).errorBits ≠ ∅ ↔ t ∈ p.errorList
  once : p.errorList.Nodup
  syncFirst : ∀ t ∈ p.errorList.tail, .sync ∉ (p.errors t).errorBits
  logged : ∀ t bit, p.errorLog.raised.count (t, bit) = p.errorLog.fetched.count (t, bit) +
    p.errorLog.cancelled.count (t, bit) + if bit ∈ (p.errors t).errorBits then 1 else 0

theorem ErrorsListed.consistent (h : ErrorsListed p) : ErrorsConsistent p :=
  ⟨h.listed.mem, h.listed.nodup, h.first, fun t bit => h.logged (t, bit)⟩

/-- In every run in which errors are fetched before the process that caused them gets a new
deadline, and before a restart, the list of errors is consistent, no assertion about it fails
in the next step, and the error handler can fetch every error that is not cancelled. -/
theorem error_queue {nthreads : Nat} {es : List ArincInput} {e : ArincInput}
    (hfetched : Run.Meets (step hm) (ErrorsFetched hm) (boot nthreads) (es ++ [e]))
    (h : Run.exec (step hm) (boot nthreads) es = some p) :
    ErrorsConsistent p ∧ (∀ assertion ∈ errorAssertions, p.run hm e ≠ .error (.failed assertion)) ∧
      (p.halted = false → ∀ c, p.threadError = some c → ∃ n q, fetchErrors c n p = .ok q ∧
        q.errorList = [] ∧ q.errorLog.raised = p.errorLog.raised ∧
        q.errorLog.cancelled = p.errorLog.cancelled ∧ ∀ x, q.errorLog.raised.count x =
          q.errorLog.fetched.count x + q.errorLog.cancelled.count x) := by
  obtain ⟨hrun, hlast⟩ := Run.meets_append.mp hfetched
  have hunstarted : ErrorsListed (unstarted nthreads) :=
    ⟨⟨fun t => by simp [errorQueue, unstarted], List.nodup_nil⟩, nofun,
      fun e => by simp [errorQueue, unstarted, FlaggedQueue.pending], List.nodup_nil, fun t _ => nofun⟩
  have hboot : ErrorsKept (boot nthreads) := partitionArincStart_errors hunstarted rfl
  have hkept : ErrorsKept p := Run.invariant_of_meets (fun _ _ _ hs hok => step_errors hs hok) hboot hrun h
  refine ⟨hkept.toErrorsListed.consistent, ?_, ?_⟩
  · intro assertion hassertion hfailed
    have hnot : assertion ∉ errorAssertions := (run_errors hkept (hlast p h).1.before).of_error hfailed
    exact hnot hassertion
  · intro hhalted c hc
    obtain ⟨n, q, hq, hsound, hnil, hraised, hcancelled⟩ :=
      fetchErrors_all (hkept.running hhalted).1 hc
    refine ⟨n, q, hq, hnil, hraised, hcancelled, fun x => ?_⟩
    have hempty : q.errorQueue.flags x.1 = ∅ := hsound.listed.flags_eq_empty hnil
    rw [hsound.logged x]
    simp [FlaggedQueue.pending, hempty]

instance (p : ArincPartition) : (e : ArincInput) → Decidable (p.FetchedBefore e)
  | .call call _ =>
    have : ∀ c, Decidable (p.CallFetched c call) := fun c =>
      have : Decidable (∀ t, p.setsDeadline c call = some t →
        .deadline ∉ (p.errors t).errorBits) := Option.decidableForallMem (p.setsDeadline c call)
      inferInstanceAs (Decidable (_ ∧ _))
    Option.decidableForallMem p.threadCurrent
  | .deadlineOor t _ => inferInstanceAs (Decidable (.deadlineOor ∉ (p.errors t).errorBits))
  | .onEvent _ | .recheck _ | .user _ | .fault _ _ _ | .restart => isTrue trivial

instance (hm : PartitionHm) (p : ArincPartition) (e : ArincInput) :
    Decidable (ErrorsFetched hm p e) :=
  decidable_of_iff (p.FetchedBefore e ∧ errorsAtReset (p.run hm e) = [])
    ⟨fun h => ⟨h.1, h.2⟩, fun h => ⟨h.before, h.restart⟩⟩

/-- The process misses its deadline. -/
def missedRun : List ArincInput :=
  [.call (.create ⟨[65], 5, -1, 10⟩ true true) [], .call (.createError true true) [],
    .call (.delayedStart 1 0 0 0) [], .call (.setMode .normal 0 0) [], .onEvent [.timer 10]]

/-- The partition is restarted by the error handler, which has not fetched the error. -/
def restartedRun : List ArincInput :=
  missedRun ++ [.call (.setMode .initWarm 20 20) [], .call (.create ⟨[65], 5, -1, 10⟩ true true) [],
    .call (.createError true true) [], .call (.delayedStart 1 0 0 0) [],
    .call (.setMode .normal 30 30) []]

theorem error_queue_missed :
    ∃ p, Run.exec (step lenientHm) (boot 4) missedRun = some p ∧ p.errorList = [1] ∧
      p.threadError = some 2 ∧ ErrorsConsistent p ∧ ∃ n q, fetchErrors 2 n p = .ok q ∧
        q.errorList = [] ∧ q.errorLog.fetched.count (1, .deadline) = 1 := by
  have hview : (Run.exec (step lenientHm) (boot 4) missedRun).map (fun p => (p.errorList,
      p.threadError, p.halted, p.errorLog)) =
        some ([1], some 2, false, ⟨[(1, .deadline)], [], []⟩) := by decide +kernel
  obtain ⟨p, hp, hv⟩ := Option.map_eq_some_iff.mp hview
  obtain ⟨hlist, hv⟩ := Prod.mk.inj hv
  obtain ⟨herror, hv⟩ := Prod.mk.inj hv
  obtain ⟨hhalted, hlog⟩ := Prod.mk.inj hv
  have hfetched : Run.Meets (step lenientHm) (ErrorsFetched lenientHm) (boot 4)
      (missedRun ++ [.call .errorGet []]) := Run.meets_of_checks (by decide +kernel)
  obtain ⟨hconsistent, -, hall⟩ := error_queue hfetched hp
  obtain ⟨n, q, hq, hnil, hraised, hcancelled, hcount⟩ := hall hhalted 2 herror
  refine ⟨p, hp, hlist, herror, hconsistent, n, q, hq, hnil, ?_⟩
  have hdone := hcount (1, .deadline)
  rw [hraised, hcancelled, hlog] at hdone
  simpa using hdone.symm

/-- The error bit outlives the list of errors, and the next deadline that is missed fails. -/
theorem error_queue_fails :
    ∃ p, Run.exec (step lenientHm) (boot 4) restartedRun = some p ∧
      (p.errors 1).errorBits ≠ ∅ ∧ 1 ∉ p.errorList ∧
      failure (p.run lenientHm (.onEvent [.timer 40])) = some .threadAddErrorBit := by
  have hview : (Run.exec (step lenientHm) (boot 4) restartedRun).map (fun p =>
      ((p.errors 1).errorBits, p.errorList,
        failure (p.run lenientHm (.onEvent [.timer 40])))) =
          some ({.deadline}, [], some .threadAddErrorBit) := by decide +kernel
  obtain ⟨p, hp, hv⟩ := Option.map_eq_some_iff.mp hview
  obtain ⟨hbits, hv⟩ := Prod.mk.inj hv
  obtain ⟨hlist, hfailed⟩ := Prod.mk.inj hv
  refine ⟨p, hp, ?_, ?_, hfailed⟩
  · simp [hbits]
  · simp [hlist]

end ArincPartition

end Chpok
