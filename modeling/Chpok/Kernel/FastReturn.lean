import Chpok.Kernel.ArincExits
import Chpok.Kernel.ChoiceCalls
import Chpok.Library.Run

/-! The early return of `sched_arinc`. The choice that the partition remembers is the one
that the rule would make, as long as the preemption lock is only moved by the process that
was chosen. -/

namespace Chpok

namespace ArincPartition

open Outcome

variable {p q : ArincPartition} {t c : Nat} {hm : PartitionHm}

/-- The choice in the `NORMAL` mode. -/
def fullRule (p : ArincPartition) : Option Nat :=
  match p.threadError with
  | some e => if (p.threads e).state ≠ .stopped ∨ p.errorList ≠ [] then some e else p.normalRule
  | none => p.normalRule

/-- With nothing to be rechecked, the choice is up to date and no error waits for its handler
to be started. -/
structure Cached (p : ArincPartition) : Prop where
  rule : p.mode = .normal → p.recheckNeeded = false → p.fullRule = p.threadSelected
  errors : p.mode = .normal → p.recheckNeeded = false → p.errorList = [] ∨
    ∃ e, p.threadError = some e ∧ (p.threads e).state ≠ .stopped
  handler : HandlerFree p

theorem KeepsChoice.cached (hk : KeepsChoice (fun _ => True) p q) (h : Cached p) : Cached q where
  rule hmode hr := by
    have hr' : p.recheckNeeded = false := by
      by_contra hne
      rw [hk.recheck (by simpa using hne)] at hr
      cases hr
    have herrors := hk.errors.resolve_left (by simp [hr])
    have hstopped := hk.stopped.resolve_left (by simp [hr])
    have hnormal := hk.rule.resolve_left (by simp [hr])
    rw [hk.mode] at hmode
    rw [hk.selected, ← h.rule hmode hr', fullRule, fullRule, hk.error, herrors, hnormal]
    cases he : p.threadError with
    | none => rfl
    | some e => simp only [ne_eq, hstopped e he]
  errors hmode hr := by
    have hr' : p.recheckNeeded = false := by
      by_contra hne
      rw [hk.recheck (by simpa using hne)] at hr
      cases hr
    have hstopped := hk.stopped.resolve_left (by simp [hr])
    rw [hk.mode] at hmode
    rw [hk.errors.resolve_left (by simp [hr]), hk.error]
    rcases h.errors hmode hr' with hnil | ⟨e, he, hruns⟩
    · exact Or.inl hnil
    · exact Or.inr ⟨e, he, fun hs => hruns ((hstopped e he).mp hs)⟩
  handler := hk.handler h.handler

theorem KeepsFrame.cached (hk : KeepsFrame (fun _ => True) p q) (h : HandlerFree p)
    (hr : q.mode = .normal → q.recheckNeeded = true) : Cached q where
  rule hmode hn := by
    rw [hr hmode] at hn
    cases hn
  errors hmode hn := by
    rw [hr hmode] at hn
    cases hn
  handler := hk.handler h

theorem Choosing.cached {m : Except PartitionExit ArincPartition}
    (hm : Choosing (fun _ => True) p m) (h : Cached p) : Sat (fun _ => True) Cached m :=
  hm.weaken fun _ hk => hk.cached h

/-! What the rule says of the thread that it chooses -/

theorem Cached.chosen (h : Cached p) (hmode : p.mode = .normal) (hr : p.recheckNeeded = false)
    (hselected : p.threadSelected = some c) (hne : p.threadError ≠ some c) :
    (∀ e, p.threadError = some e → (p.threads e).state = .stopped) ∧ p.errorList = [] ∧
      p.normalRule = some c := by
  have hrule := (h.rule hmode hr).trans hselected
  have hstopped : ∀ e, p.threadError = some e → (p.threads e).state = .stopped := by
    intro e he
    by_contra hruns
    rw [fullRule, he] at hrule
    simp only [ne_eq, hruns, not_false_eq_true, true_or, if_true] at hrule
    exact hne (he.trans hrule)
  have hnil : p.errorList = [] := by
    rcases h.errors hmode hr with hnil | ⟨e, he, hruns⟩
    · exact hnil
    · exact absurd (hstopped e he) hruns
  refine ⟨hstopped, hnil, ?_⟩
  rw [fullRule] at hrule
  cases he : p.threadError with
  | none => simpa [he] using hrule
  | some e => simpa [he, hstopped e he, hnil] using hrule

theorem cached_of_normalRule
    (hstopped : ∀ e, p.threadError = some e → (p.threads e).state = .stopped)
    (hnil : p.errorList = []) (hrule : p.normalRule = p.threadSelected) (hfree : HandlerFree p) :
    Cached p where
  rule _ _ := by
    rw [← hrule, fullRule]
    cases he : p.threadError with
    | none => rfl
    | some e => simp [hstopped e he, hnil]
  errors _ _ := Or.inl hnil
  handler := hfree

/-! The preemption lock -/

/-- LOCK_PREEMPTION and UNLOCK_PREEMPTION are called by the process that the scheduler has
chosen, unless they are refused. -/
def LockedBySelected (p : ArincPartition) : ArincInput → Prop
  | .call .incLockLevel _ | .call .decLockLevel _ => ∀ c, p.threadCurrent = some c →
    p.IsLockLevelBlocked c ∨ p.threadSelected = some c
  | _ => True

theorem Cached.incLockLevel (h : Cached p) (hc : p.IsLockLevelBlocked c ∨ p.threadSelected = some c) :
    Cached (p.incLockLevel c).1 := by
  unfold ArincPartition.incLockLevel
  split_ifs with hblocked hmax
  · exact h
  · exact h
  · have hselected := hc.resolve_left hblocked
    unfold IsLockLevelBlocked at hblocked
    rw [not_or, not_not] at hblocked
    by_cases hr : p.recheckNeeded = true
    · exact KeepsFrame.cached (p := p) ⟨rfl, rfl, fun _ _ => rfl, fun _ => rfl, fun h => h, rfl, rfl, fun h => h, fun h => h⟩ h.handler fun _ => hr
    · obtain ⟨hstopped, hnil, -⟩ := h.chosen hblocked.1 (by simpa using hr) hselected hblocked.2
      have hrule : normalRule { p with lockLevel := p.lockLevel + 1, threadLocked := c } =
          p.threadSelected := by
        simp [normalRule, hselected]
      exact cached_of_normalRule hstopped hnil hrule h.handler

theorem Cached.decLockLevel (h : Cached p) (hc : p.IsLockLevelBlocked c ∨ p.threadSelected = some c) :
    Cached (p.decLockLevel c).1 := by
  unfold ArincPartition.decLockLevel
  split_ifs with hblocked hzero hlast
  · exact h
  · exact h
  · exact KeepsFrame.cached (p := p) ⟨rfl, rfl, fun _ _ => rfl, fun _ => rfl, fun h => h, rfl, rfl, fun _ => rfl, fun h => h⟩ h.handler fun _ => rfl
  · have hselected := hc.resolve_left hblocked
    unfold IsLockLevelBlocked at hblocked
    rw [not_or, not_not] at hblocked
    by_cases hr : p.recheckNeeded = true
    · exact KeepsFrame.cached (p := p) ⟨rfl, rfl, fun _ _ => rfl, fun _ => rfl, fun h => h, rfl, rfl, fun h => h, fun h => h⟩ h.handler fun _ => hr
    · obtain ⟨hstopped, hnil, hrule⟩ :=
        h.chosen hblocked.1 (by simpa using hr) hselected hblocked.2
      -- Either the lock stays with its holder, or the caller is the first eligible thread.
      have hrule' : normalRule { p with lockLevel := p.lockLevel - 1 } = p.threadSelected := by
        rw [hselected]
        by_cases hlevel : p.lockLevel - 1 = 0
        · have hfirst : p.eligibleThreads.head? = some c := by
            by_contra hne
            exact hlast ⟨hlevel, hne⟩
          simp [normalRule, hlevel, hfirst]
        · have hpos : 0 < p.lockLevel - 1 := by omega
          have hpos' : 0 < p.lockLevel := by omega
          simp only [normalRule, hpos, hpos', if_true] at hrule ⊢
          exact hrule
      exact cached_of_normalRule hstopped hnil hrule' h.handler

/-! The calls that change what the rule reads of errors, threads or the mode -/

/-- The error handler fetches errors while it runs. -/
theorem Cached.errorGet (h : Cached p) :
    Sat (fun _ => True) (fun r => Cached r.1) (p.errorGet c) := by
  refine Sat.ite (fun _ => h) fun hself => ?_
  rw [not_not] at hself
  split
  · exact h
  · rename_i t rest hlist
    split
    · trivial
    · have hcleared : ∀ q, KeepsFrame (fun _ => True) p q → q.recheckNeeded = p.recheckNeeded →
          q.threads = p.threads → Cached q := by
        intro q hk hr hthreads
        by_cases hmode : p.mode = .normal
        · by_cases hrecheck : p.recheckNeeded = true
          · exact hk.cached h.handler fun _ => hr.trans hrecheck
          · have hrecheck' : p.recheckNeeded = false := by simpa using hrecheck
            -- The list is not empty, so that its handler is not stopped.
            have hruns : (p.threads c).state ≠ .stopped := by
              rcases h.errors hmode hrecheck' with hnil | ⟨e, he, hruns⟩
              · rw [hlist] at hnil
                cases hnil
              · obtain rfl := Option.some.inj (hself.symm.trans he)
                exact hruns
            have hrule := h.rule hmode hrecheck'
            refine ⟨fun _ _ => ?_, fun _ _ => Or.inr ⟨c, hk.error.trans hself, ?_⟩,
              hk.handler h.handler⟩
            · rw [hk.selected, ← hrule, fullRule, fullRule, hk.error, hself, hthreads]
              simp [hruns]
            · rw [hthreads]
              exact hruns
        · exact hk.cached h.handler fun hn => absurd (hk.mode.symm.trans hn) hmode
      apply Sat.map threadClearErrorBit_frame
      intro q hq
      exact hcleared _ (hq.1.trans ⟨rfl, rfl, fun _ _ => rfl, fun _ => rfl, fun h => h, rfl, rfl, fun h => h, fun h => h⟩) hq.2.1 hq.2.2

theorem cached_of_init (hmode : p.mode ≠ .normal) (hfree : HandlerFree p) : Cached p :=
  ⟨fun hn => absurd hn hmode, fun hn => absurd hn hmode, hfree⟩

theorem pokThreadCreate_cached {attr : ThreadAttr} {entryOk stackOk : Bool} (h : Cached p) :
    Sat (fun _ => True) (fun r => Cached r.1) (p.pokThreadCreate attr entryOk stackOk) := by
  by_cases hmode : p.mode = .normal
  · rw [pokThreadCreate, if_pos hmode]
    exact h
  · apply (pokThreadCreate_keeps h.handler).weaken
    intro r ⟨hfree, hk⟩
    exact cached_of_init (hk.mode ▸ hmode) hfree

theorem errorThreadCreate_cached {entryOk stackOk : Bool} (h : Cached p) :
    Sat (fun _ => True) (fun r => Cached r.1) (p.errorThreadCreate entryOk stackOk) := by
  by_cases hmode : p.mode = .normal
  · rw [errorThreadCreate, if_pos hmode]
    exact h
  · apply (errorThreadCreate_keeps h.handler).weaken
    intro r ⟨hfree, hk⟩
    exact cached_of_init (hk.mode ▸ hmode) hfree

theorem partitionSetMode_cached {mode : PartitionMode} {now start : Int} (h : Cached p) :
    Sat (fun _ => True) (fun r => Cached r.1) (p.partitionSetMode mode now start) := by
  have hreset : ∀ {m : PartitionMode}, Sat (fun _ => True) (fun r : ArincPartition × PokErrno =>
      Cached r.1) (returning .ok (p.partitionReset m)) := by
    intro m
    unfold partitionReset
    split_ifs
    · trivial
    · trivial
  cases mode with
  | initWarm => exact Sat.ite (fun _ => h) fun _ => hreset
  | initCold => exact hreset
  | idle => trivial
  | normal =>
    refine Sat.ite (fun _ => h) fun _ => ?_
    have hentered : HandlerFree { p with mode := .normal, lockLevel := 0 }.localInvalidate := h.handler
    have hreleased : Choosing (fun _ => True) { p with mode := .normal, lockLevel := 0 }.localInvalidate
        (p.partitionSetModeNormal now start) := (releaseThreads_keeps fun _ => trivial).choosing
    apply hreleased.map
    intro q hk
    exact hk.toKeepsFrame.cached hentered fun _ => hk.recheck rfl

theorem call_cached {call : ArincCall} (h : Cached p)
    (hlock : call = .incLockLevel ∨ call = .decLockLevel →
      p.IsLockLevelBlocked c ∨ p.threadSelected = some c) :
    Sat (fun _ => True) (fun r => Cached r.1) (p.call hm c call) := by
  have hchoice : ∀ {m : Except PartitionExit (ArincPartition × PokErrno)},
      Sat (fun _ => True) (fun r => KeepsChoice (fun _ => True) p r.1) m →
        Sat (fun _ => True) (fun r => Cached r.1) m :=
    fun hm => hm.weaken fun _ hk => hk.cached h
  cases call with
  | create => exact Sat.ite (fun _ => trivial) fun _ => pokThreadCreate_cached h
  | createError => exact Sat.ite (fun _ => trivial) fun _ => errorThreadCreate_cached h
  | stop => exact Sat.ite (fun _ => trivial) fun _ => hchoice pokThreadStop_keeps
  | incLockLevel => exact Sat.ite (fun _ => trivial) fun _ => h.incLockLevel (hlock (Or.inl rfl))
  | decLockLevel => exact Sat.ite (fun _ => trivial) fun _ => h.decLockLevel (hlock (Or.inr rfl))
  | setMode => exact Sat.ite (fun _ => trivial) fun _ => partitionSetMode_cached h
  | raiseApplicationError =>
    exact Sat.ite (fun _ => trivial) fun _ => hchoice raiseApplicationError_keeps
  | raiseOsError => exact Sat.ite (fun _ => trivial) fun _ => hchoice raiseOsError_keeps
  | errorGet => exact Sat.ite (fun _ => trivial) fun _ => h.errorGet.map fun _ hr => hr
  | _ =>
    apply hchoice
    apply Sat.weaken (call_keeps (by trivial) h.handler fun _ _ => trivial)
    exact fun _ (hk : Keeps (fun _ => True) p _) => hk.choice

/-! `sched_arinc` -/

/-- The choice that has just been made is up to date. -/
theorem Ruled.cached {n : ArincPartition × Option Nat} (hn : Ruled p n)
    (hs : Switched n.2 n.1 q) (hfree : HandlerFree p) : Cached q := by
  have hqfree : HandlerFree q := hn.free hs hfree
  have hlists : q.mode = n.1.mode ∧ q.errorList = n.1.errorList ∧ q.normalRule = n.1.normalRule := by
    rw [hs.rest]
    exact ⟨rfl, rfl, rfl⟩
  have hruns : ∀ e, n.1.threadError = some e → (n.1.threads e).state ≠ .stopped → n.2 = some e →
      Cached q := by
    intro e he hstate hchoice
    refine ⟨fun _ _ => ?_, fun _ _ => Or.inr ⟨e, hs.error.trans he, ?_⟩, hqfree⟩
    · rw [hs.selected, hchoice, fullRule, hs.error.trans he]
      simp only [hs.state]
      rw [if_pos (Or.inl hstate)]
    · rw [hs.state]
      exact hstate
  cases hn with
  | init hmode => exact cached_of_init (fun hq => hmode (hlists.1.symm.trans hq)) hqfree
  | handler e hmode he hstate => exact hruns e he hstate rfl
  | start e hmode he =>
    apply hruns e he _ rfl
    rw [startErrorHandler_self]
    simp
  | normal hmode hnil hstopped =>
    apply cached_of_normalRule _ (hlists.2.1.trans hnil) (hlists.2.2.trans hs.selected.symm) hqfree
    intro e he
    rw [hs.state]
    exact hstopped e (hs.error.symm.trans he)

theorem reschedule_cached (h : Cached p) : Sat (fun _ => True) Cached p.reschedule := by
  refine Sat.ite (fun _ => ?_) fun _ => h
  apply (schedRule_ruled.mono (fun _ _ => trivial) fun _ hn => hn).bind
  intro n hn
  apply selectAndSwitch_switched.mono (fun _ _ => trivial)
  intro q hs
  exact hn.cached hs h.handler

/-! The runs of a partition -/

theorem beforeRecheck_cached {e : ArincInput} (h : Cached p) (hok : p.LockedBySelected e) :
    Sat (fun _ => True) Cached (p.beforeRecheck hm e) := by
  cases e with
  | onEvent =>
    have hrecorded : Keeps (fun _ => True) p (p.onSections (·.recordEntering)) := recordEntering_keeps
    exact (Choosing.after hrecorded.choice drain_keeps).cached h
  | recheck => exact drain_keeps.cached h
  | user | restart => trivial
  | fault =>
    exact withCurrent_of_forall fun c _ => (processError_keeps.bind fun _ => drain_keeps).cached h
  | deadlineOor => exact (emitDeadlineOor_keeps.bind fun _ => drain_keeps).cached h
  | call call =>
    apply withCurrent_of_forall
    intro c hc
    have hlock : call = .incLockLevel ∨ call = .decLockLevel →
        p.IsLockLevelBlocked c ∨ p.threadSelected = some c := by
      rintro (rfl | rfl)
      · exact hok c hc
      · exact hok c hc
    exact (call_cached h hlock).bind fun r hr => drain_keeps.cached hr

theorem run_cached {e : ArincInput} (h : Cached p) (hok : p.LockedBySelected e) :
    Sat (fun _ => True) Cached (p.run hm e) := by
  cases e with
  | restart => trivial
  | user e =>
    refine Sat.ite (fun _ => trivial) fun _ => withCurrent_of_forall fun c _ => ?_
    unfold liftSections
    split
    · trivial
    · rename_i s hs
      have hkeeps : Keeps (fun _ => True) p (p.onSections fun _ => s) := userStep_keeps hs
      exact hkeeps.choice.cached h
  | onEvent | recheck | fault | deadlineOor | call =>
    exact Sat.ite (fun _ => trivial) fun _ =>
      (beforeRecheck_cached h hok).bind fun q hq => reschedule_cached hq

theorem partitionArincStart_cached (hmode : p.mode ≠ .normal) : Cached p.partitionArincStart :=
  cached_of_init hmode nofun

/-- The full rule agrees with what is remembered. -/
theorem Cached.schedRule (h : Cached p) (hmode : p.mode = .normal) (hr : p.recheckNeeded = false) :
    p.schedRule.map Prod.snd = .ok p.threadSelected := by
  have hrule := h.rule hmode hr
  have herrors := h.errors hmode hr
  unfold ArincPartition.schedRule
  unfold fullRule at hrule
  rw [hmode]
  dsimp only
  cases he : p.threadError with
  | none =>
    have hnil : p.errorList = [] := by
      rcases herrors with hnil | ⟨e, he', -⟩
      · exact hnil
      · rw [he] at he'
        cases he'
    simp only [he] at hrule
    simp [hnil, hrule, Except.map]
  | some e =>
    simp only [he] at hrule
    by_cases hruns : (p.threads e).state = .stopped
    · have hnil : p.errorList = [] := by
        rcases herrors with hnil | ⟨e', he', hruns'⟩
        · exact hnil
        · obtain rfl := Option.some.inj (he.symm.trans he')
          exact absurd hruns hruns'
      simpa [hruns, hnil, Except.map] using hrule
    · simpa [hruns, Except.map] using hrule

/-- In every run in which the preemption lock is moved by the chosen process only, whenever
`sched_arinc` returns early in the `NORMAL` mode, the remembered choice is that of the rule. -/
theorem fast_return {nthreads : Nat} {es : List ArincInput} {e : ArincInput}
    (hlocks : Run.Meets (step hm) LockedBySelected (boot nthreads) (es ++ [e]))
    (h : Run.exec (step hm) (boot nthreads) es = some p) (hhalted : p.halted = false)
    (hq : p.beforeRecheck hm e = .ok q) (hmode : q.mode = .normal)
    (hr : q.recheckNeeded = false) : q.schedRule.map Prod.snd = .ok q.threadSelected := by
  obtain ⟨hrun, hlast⟩ := Run.meets_append.mp hlocks
  have hstep : ∀ s e t, (s.halted = false → Cached s) → LockedBySelected s e →
      step hm s e = some t → t.halted = false → Cached t := by
    intro s e t hs hok hstep
    exact step_rule (fun hh => run_cached (hs hh) hok) (fun _ => partitionArincStart_cached) hstep
  have hstart : (boot nthreads).halted = false → Cached (boot nthreads) :=
    fun _ => partitionArincStart_cached (by simp [unstarted])
  have hcached : p.halted = false → Cached p := Run.invariant_of_meets hstep hstart hrun h
  have hlocked := (hlast p h).1
  exact ((beforeRecheck_cached (hcached hhalted) hlocked).of_ok hq).schedRule hmode hr

instance (p : ArincPartition) : (e : ArincInput) → Decidable (p.LockedBySelected e)
  | .call .incLockLevel _ | .call .decLockLevel _ => Option.decidableForallMem p.threadCurrent
  | .call (.create _ _ _) _ | .call (.createError _ _) _ | .call (.delayedStart _ _ _ _) _
  | .call (.stopTarget _) _ | .call .stop _ | .call (.suspendTarget _) _ | .call (.suspend _ _) _
  | .call (.resume _) _ | .call (.setPriority _ _) _ | .call .yield _ | .call (.sleep _ _) _
  | .call .endPeriod _ | .call (.replenish _ _) _ | .call (.portWait _ _ _ _ _) _
  | .call (.setMode _ _ _) _ | .call .raiseApplicationError _ | .call .raiseOsError _
  | .call .errorGet _ | .call .enterHelper _ | .call .checkFlags _ | .call (.msectionWait _ _ _) _
  | .call (.msectionNotify _ _) _
  | .onEvent _ | .recheck _ | .user _ | .fault _ _ _ | .deadlineOor _ _ | .restart => isTrue trivial

theorem fast_return_locked :
    ∃ p q, Run.exec (step lenientHm) (boot 4) startupRun = some p ∧
      p.beforeRecheck lenientHm (.call .incLockLevel [.timer 10]) = .ok q ∧
      q.eligibleThreads = [1, 2] ∧ q.schedRule.map Prod.snd = .ok q.threadSelected := by
  have hview : (Run.exec (step lenientHm) (boot 4) startupRun).map (fun p => (p.halted,
      (p.beforeRecheck lenientHm (.call .incLockLevel [.timer 10])).toOption.map fun q =>
        (q.mode, q.recheckNeeded, q.eligibleThreads))) = some (false, some (.normal, false, [1, 2])) := by
    decide +kernel
  obtain ⟨p, hp, hv⟩ := Option.map_eq_some_iff.mp hview
  obtain ⟨hhalted, hv⟩ := Prod.mk.inj hv
  obtain ⟨q, hq, hv⟩ := Option.map_eq_some_iff.mp hv
  obtain ⟨hmode, hv⟩ := Prod.mk.inj hv
  obtain ⟨hr, hlist⟩ := Prod.mk.inj hv
  have hq' : p.beforeRecheck lenientHm (.call .incLockLevel [.timer 10]) = .ok q :=
    ok_of_toOption hq
  have hlocks : Run.Meets (step lenientHm) LockedBySelected (boot 4)
      (startupRun ++ [.call .incLockLevel [.timer 10]]) :=
    Run.meets_of_checks (by decide +kernel)
  exact ⟨p, q, hp, hq', hlist, fast_return hlocks hp hhalted hq' hmode hr⟩

set_option synthInstance.maxSize 1000 in
/-- The process that runs in the place of the chosen one locks preemption, outside of its
sections, and the choice is not rechecked. -/
theorem fast_return_fails :
    ∃ p q, Run.exec (step lenientHm) (boot 4) staleOwnerRun = some p ∧
      p.threadCurrent = some 1 ∧ (p.threads 1).msectionCount = 0 ∧
      p.beforeRecheck lenientHm (.call .incLockLevel []) = .ok q ∧ q.mode = .normal ∧
      q.recheckNeeded = false ∧ q.threadSelected = some 2 ∧
      q.schedRule.map Prod.snd = .ok (some 1) := by
  have hview : (Run.exec (step lenientHm) (boot 4) staleOwnerRun).map (fun p =>
      (p.threadCurrent, (p.threads 1).msectionCount,
        (p.beforeRecheck lenientHm (.call .incLockLevel [])).toOption.map fun q =>
          (q.mode, q.recheckNeeded, q.threadSelected, (q.schedRule.map Prod.snd).toOption))) =
        some (some 1, 0, some (.normal, false, some 2, some (some 1))) := by
    decide +kernel
  obtain ⟨p, hp, hv⟩ := Option.map_eq_some_iff.mp hview
  obtain ⟨hcurrent, hv⟩ := Prod.mk.inj hv
  obtain ⟨hcount, hv⟩ := Prod.mk.inj hv
  obtain ⟨q, hq, hv⟩ := Option.map_eq_some_iff.mp hv
  obtain ⟨hmode, hv⟩ := Prod.mk.inj hv
  obtain ⟨hr, hv⟩ := Prod.mk.inj hv
  obtain ⟨hselected, hrule⟩ := Prod.mk.inj hv
  exact ⟨p, q, hp, hcurrent, hcount, ok_of_toOption hq, hmode, hr, hselected,
    ok_of_toOption hrule⟩

end ArincPartition

end Chpok
