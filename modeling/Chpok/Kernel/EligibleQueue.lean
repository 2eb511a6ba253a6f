import Chpok.Kernel.EligibleSystem
import Chpok.Library.Run

/-! The list of eligible threads in every run of a partition. A process that waits inside a
section and is taken for its owner is run as if it were runnable; as long as no such process
makes a system call, the list is that of the runnable processes. -/

namespace Chpok

namespace ArincPartition

open Outcome

variable {p q : ArincPartition} {t u c : Nat} {hm : PartitionHm}

/-! `sched_arinc` -/

/-- What the rule may choose. -/
def Choosable (p : ArincPartition) (t : Nat) : Prop :=
  t < p.nthreadsUsed ∧ (p.mode = .normal → 0 < t) ∧ (p.mode ≠ .normal → t = 0)

theorem normalRule_choosable (h : ListsSound p) (hmode : p.mode = .normal)
    (ht : p.normalRule = some t) : Choosable p t := by
  have hused : 0 < t ∧ t < p.nthreadsUsed := by
    unfold normalRule at ht
    split_ifs at ht with hlock
    · obtain rfl := Option.some.inj ht
      exact h.placed.locked hmode hlock
    · have hthread := ((h.sound.eligible t (by simp)).mp (List.mem_of_head? ht)).2.1
      exact ⟨hthread.1, hthread.2.1⟩
  exact ⟨hused.2, fun _ => hused.1, fun hne => absurd hmode hne⟩

theorem ListsSound.setHandler {b : Bool} (h : ListsSound p) :
    ListsSound { p with isErrorHandler := b } :=
  h.same { SameBut.refl none p with } rfl rfl rfl

/-- The error handler is in none of the lists. -/
theorem ListsSound.startErrorHandler {e : Nat} (h : ListsSound p) (hmode : p.mode = .normal)
    (he : p.threadError = some e) : ListsSound (p.startErrorHandler e) := by
  have hnot : ∀ {r : ArincPartition}, r.threadError = some e → ¬ r.HasThread e :=
    fun hr hthread => hthread.2.2 hr
  have hout : e ∉ p.eligibleThreads :=
    notMem_of_not_eligible h.sound fun hel => hnot he hel.2.1
  have hthreads : ∀ u, u ≠ e → (p.startErrorHandler e).threads u = p.threads u :=
    fun u hu => startErrorHandler_ne p hu
  have hself := startErrorHandler_self p e
  have hfree : (p.sched e).waitElem = none := by
    by_contra hl
    exact hnot he (h.sound.linked e (by simp) (h.placed.error e he).2 hl).2.1
  have hsame : SameBut (some e) p (p.startErrorHandler e) :=
    (sameBut_updateSched rfl (by simp)).trans
      { sameBut_updateThread (p := p.updateSched e _) (t := e) (by simp) with }
  have hsound := (h.sound.except e).same hsame
  have hlink : ∀ {α : Type} (a : SectionThread → α),
      a { SectionSystem.resetContext (p.threads e) with state := .runnable } = a (p.threads e) →
        ∀ u, a ((p.startErrorHandler e).threads u) = a (p.threads u) := by
    intro α a ha u
    by_cases hu : u = e
    · subst hu
      rw [hself, ha]
    · rw [hthreads u hu]
  have htarget := hlink SectionThread.donateTarget rfl
  have hfirst := hlink SectionThread.firstDonator rfl
  have hnext := hlink SectionThread.nextDonator rfl
  constructor
  · apply hsound.settle
    · exact iff_of_false hout fun hel => hnot (r := p.startErrorHandler e) he hel.2.1
    · exact hsound.pairwise_of_notMem hout
    · exact {
        delayed := by
          intro hd
          exact absurd (h.sound.delayed e (by simp) hd).2.1 (hnot he)
        resumes := by
          intro hd
          exact absurd (h.sound.delayed e (by simp) hd).2.1 (hnot he)
        linked := by
          intro _ hl
          rw [hsame.waitElem] at hl
          exact absurd hfree hl
        donated := by
          intro hlt hf
          rw [hfirst] at hf
          exact absurd (h.sound.donated e (by simp) hlt hf).1 (hnot he)
        waiting := by
          intro _ hw
          rw [hself] at hw
          cases hw }
  · exact {
      h.placed with
      main := fun hne => absurd hmode hne
      target := by
        intro u hu d hd
        rw [htarget] at hd
        exact h.placed.target u hu d hd
      firstDonator := by
        intro u hu d hd
        rw [hfirst] at hd
        exact h.placed.firstDonator u hu d hd
      nextDonator := by
        intro u hu d hd
        rw [hnext] at hd
        exact h.placed.nextDonator u hu d hd
      errorStopped := fun hne => absurd hmode hne
      init := fun hne => absurd hmode hne
      undonated := fun hne => absurd hmode hne }

theorem Ruled.sound {r : ArincPartition × Option Nat} (hr : Ruled p r)
    (h : ListsSound p.localInvalidate) : ListsSound r.1.localInvalidate ∧
      r.1.recheckNeeded = p.recheckNeeded ∧ ∀ t, r.2 = some t → Choosable r.1 t := by
  have hhandler : ∀ e, p.mode = .normal → p.threadError = some e → ∀ t, some e = some t →
      t < p.nthreadsUsed ∧ (p.mode = .normal → 0 < t) ∧ (p.mode ≠ .normal → t = 0) := by
    intro e hmode he t ht
    have hused := h.placed.error e he
    obtain rfl := Option.some.inj ht
    exact ⟨hused.2, fun _ => hused.1, fun hne => absurd hmode hne⟩
  cases hr with
  | init hmode =>
    refine ⟨h.setHandler, rfl, ?_⟩
    intro t ht
    have hzero : t = 0 := by
      dsimp only at ht
      split_ifs at ht
      exact (Option.some.inj ht).symm
    rw [hzero]
    exact ⟨h.placed.positive, fun hn => absurd hn hmode, fun _ => rfl⟩
  | handler e hmode he => exact ⟨h.setHandler, rfl, hhandler e hmode he⟩
  | start e hmode he => exact ⟨h.startErrorHandler hmode he, rfl, hhandler e hmode he⟩
  | normal hmode =>
    refine ⟨h.setHandler, rfl, ?_⟩
    intro t ht
    have hchosen : Choosable p.localInvalidate t := normalRule_choosable h hmode ht
    exact hchosen

theorem Switched.sound {choice : Option Nat} (hs : Switched choice p q)
    (h : ListsSound p.localInvalidate) (hchoice : ∀ t, choice = some t → Choosable p t) :
    ListsSound q := by
  have hcurrent : ∀ c, q.threadCurrent = some c → 0 < c ∧ c < p.nthreadsUsed ∨
      c = 0 ∧ p.mode ≠ .normal := by
    intro c hc
    obtain ⟨t, ht, howner⟩ := hs.current c hc
    have hthread := hchoice t ht
    rcases howner with rfl | howner
    · cases htarget : (p.threads t).donateTarget with
      | some d => exact Or.inl (h.placed.target t hthread.1 d htarget)
      | none =>
        by_cases hmode : p.mode = .normal
        · exact Or.inl ⟨hthread.2.1 hmode, hthread.1⟩
        · exact Or.inr ⟨hthread.2.2 hmode, hmode⟩
    · exact Or.inl ⟨howner.1, howner.2.1⟩
  have hmain : p.mode ≠ .normal → ∀ c, q.threadCurrent = some c → c = 0 := by
    intro hmode c hc
    obtain ⟨t, ht, howner⟩ := hs.current c hc
    have hthread := hchoice t ht
    rcases howner with rfl | ⟨hpos, hlt, hstate⟩
    · have hnone : (p.threads t).donateTarget = none := (h.placed.undonated hmode t hthread.1).1
      rw [hnone]
      exact hthread.2.2 hmode
    · -- No other thread is runnable before the `NORMAL` mode.
      exfalso
      by_cases he : p.threadError = some c
      · have hstopped := h.placed.errorStopped hmode c he
        have := hstopped.symm.trans hstate
        cases this
      · exact (h.placed.init hmode c ⟨hpos, hlt, he⟩).1 hstate
  rw [hs.rest]
  refine ListsSound.switchSections (p := p.localInvalidate) h ⟨hs.used, hs.error, ?_, hmain,
    hs.state, ?_, ?_, ?_, ?_, ?_, ?_⟩
  · intro hmode _ c hc
    exact (hcurrent c hc).resolve_right fun hne => hne.2 hmode
  · intro hmode u hu
    obtain ⟨-, hcount, hentering⟩ := h.placed.init hmode u hu
    exact ⟨(hs.count u).trans hcount, hs.entering u hentering⟩
  · intro hmode u hu
    rw [hs.target, hs.firstDonator]
    exact h.placed.undonated hmode u hu
  · intro u hu hf
    rw [hs.firstDonator] at hf
    exact h.sound.donated u (by simp) hu hf
  · intro u hu d hd
    rw [hs.target] at hd
    exact h.placed.target u hu d hd
  · intro u hu d hd
    rw [hs.firstDonator] at hd
    exact h.placed.firstDonator u hu d hd
  · intro u hu d hd
    rw [hs.nextDonator] at hd
    exact h.placed.nextDonator u hu d hd

theorem reschedule_sound (h : ListsSound p) :
    Sat QueueExit (fun q => ListsSound q ∧ q.recheckNeeded = false) p.reschedule := by
  refine Sat.ite (fun hr => ?_) fun hr => ⟨h, by simpa using hr⟩
  have hbase : ListsSound (p.onSections fun s => { s with recheckNeeded := false }).localInvalidate := by
    have hsame : (p.onSections fun s => { s with recheckNeeded := false }).localInvalidate = p := by
      simp only [onSections, localInvalidate, SectionSystem.invalidate, ← hr]
    rwa [hsame]
  have hruled : Sat QueueExit (Ruled (p.onSections fun s => { s with recheckNeeded := false }))
      (p.onSections fun s => { s with recheckNeeded := false }).schedRule := by
    apply schedRule_ruled.mono _ fun _ h => h
    rintro e rfl
    exact (by decide : Assertion.schedArinc ∉ stateAssertions)
  refine hruled.bind ?_
  intro r hr
  obtain ⟨hlists, hrecheck, hchoice⟩ := hr.sound hbase
  apply selectAndSwitch_switched.mono
  · rintro e rfl
    exact (by decide : Assertion.selectThread ∉ stateAssertions)
  · intro q hs
    exact ⟨hs.sound hlists hchoice, hs.recheck.trans hrecheck⟩

/-! The start, and the runs from it -/

theorem partitionArincStart_sound (hmode : p.mode ≠ .normal) :
    ListsSound p.partitionArincStart := by
  have hmain : (p.partitionArincStart.threads 0).state = .runnable ∧
      (p.partitionArincStart.threads 0).donateTarget = none ∧
      (p.partitionArincStart.threads 0).firstDonator = none ∧
      (p.partitionArincStart.threads 0).nextDonator = none := ⟨rfl, rfl, rfl, rfl⟩
  obtain ⟨hstate, htarget, hfirst, hnext⟩ := hmain
  have hfree : (p.partitionArincStart.sched 0).waitElem = none := rfl
  have hused : p.partitionArincStart.nthreadsUsed = 1 := rfl
  have hzero : ∀ u < p.partitionArincStart.nthreadsUsed, u = 0 := by
    intro u hu
    omega
  have hthread : ∀ u, ¬ p.partitionArincStart.HasThread u := by
    intro u hu
    have := hu.1
    have := hu.2.1
    omega
  constructor
  · exact {
      nodup := List.nodup_nil
      eligible := fun u _ => iff_of_false List.not_mem_nil fun he => hmode he.1
      order := List.Pairwise.nil
      arrived := nofun
      delayed := by
        rintro u _ ⟨e, he, -⟩
        cases he
      resumes := by
        rintro u _ ⟨e, he, -⟩
        cases he
      unique := List.nodup_nil
      linked := by
        intro u _ hlt hl
        rw [hzero u hlt] at hl
        exact absurd hfree hl
      waiters := by
        intro port u
        refine iff_of_false List.not_mem_nil ?_
        rintro ⟨hlt, hl⟩
        rw [hzero u hlt, hfree] at hl
        cases hl
      waitersNodup := fun _ => List.nodup_nil
      donated := by
        intro u _ hlt hf
        rw [hzero u hlt] at hf
        exact absurd hfirst hf
      waiting := by
        intro u _ hlt hw
        rw [hzero u hlt, hstate] at hw
        cases hw }
  · exact {
      positive := Nat.one_pos
      current := fun hn => absurd hn hmode
      main := by
        intro _
        refine ⟨fun c hc => (Option.some.inj hc).symm, rfl, ?_⟩
        intro hlock
        cases hlock
      locked := fun hn => absurd hn hmode
      error := nofun
      target := by
        intro u hu d hd
        rw [hzero u hu, htarget] at hd
        cases hd
      firstDonator := by
        intro u hu d hd
        rw [hzero u hu, hfirst] at hd
        cases hd
      nextDonator := by
        intro u hu d hd
        rw [hzero u hu, hnext] at hd
        cases hd
      errorStopped := nofun
      init := fun _ u hu => absurd hu (hthread u)
      undonated := by
        intro _ u hu
        rw [hzero u hu]
        exact ⟨htarget, hfirst⟩ }

/-- The system call is made by a process that is runnable. -/
def CallerRunnable (p : ArincPartition) : ArincInput → Prop
  | .call _ _ => ∀ c, p.threadCurrent = some c → (p.threads c).state = .runnable
  | _ => True

instance (p : ArincPartition) : (e : ArincInput) → Decidable (p.CallerRunnable e)
  | .call _ _ => Option.decidableForallMem p.threadCurrent
  | .onEvent _ | .recheck _ | .user _ | .fault _ _ _ | .deadlineOor _ _ | .restart => isTrue trivial

/-- What holds between two steps. -/
structure Steady (p : ArincPartition) : Prop where
  lists : ListsSound p
  checked : p.halted = false → p.mode = .normal → p.recheckNeeded = false

theorem caller_of_current (h : Steady p) (hhalted : p.halted = false)
    (hcurrent : p.threadCurrent = some c) (hstate : (p.threads c).state = .runnable) :
    Caller p c := by
  by_cases hmode : p.mode = .normal
  · have hused := h.lists.placed.current hmode (h.checked hhalted hmode) c hcurrent
    exact ⟨hused.2, fun _ => hused.1, fun hne => absurd hmode hne, hstate⟩
  · obtain ⟨hmain, -, hstopped⟩ := h.lists.placed.main hmode
    have hzero := hmain c hcurrent
    subst hzero
    refine ⟨h.lists.placed.positive, fun hn => absurd hn hmode, fun _ => ⟨rfl, ?_⟩, hstate⟩
    by_contra hlock
    have := (hstopped (by omega)).symm.trans hstate
    cases this

theorem withCurrent_sat {post : ArincPartition → Prop}
    {f : Nat → Except PartitionExit ArincPartition}
    (hf : ∀ c, p.threadCurrent = some c → Sat QueueExit post (f c)) :
    Sat QueueExit post (p.withCurrent f) := by
  unfold withCurrent
  split
  · trivial
  · rename_i c hc
    exact hf c hc

theorem beforeRecheck_sound {e : ArincInput} (h : Steady p) (hhalted : p.halted = false)
    (hok : p.CallerRunnable e) : Sat QueueExit ListsSound (p.beforeRecheck hm e) := by
  cases e with
  | onEvent => exact drain_sound h.lists.recordEntering
  | recheck => exact drain_sound h.lists
  | user | restart => trivial
  | fault =>
    exact withCurrent_sat fun c _ => (processError_sound h.lists).bind fun q hq => drain_sound hq
  | deadlineOor => exact (emitDeadlineOor_sound h.lists).bind fun q hq => drain_sound hq
  | call =>
    apply withCurrent_sat
    intro c hc
    exact (call_sound h.lists (caller_of_current h hhalted hc (hok c hc))).bind
      fun r hr => drain_sound hr

theorem run_sound {e : ArincInput} (h : Steady p) (hok : p.CallerRunnable e) :
    Sat QueueExit Steady (p.run hm e) := by
  have hrest : p.halted = false → Sat QueueExit Steady ((p.beforeRecheck hm e).bind reschedule) := by
    intro hhalted
    refine (beforeRecheck_sound h hhalted hok).bind fun q hq => (reschedule_sound hq).weaken ?_
    exact fun r hr => ⟨hr.1, fun _ _ => hr.2⟩
  cases e with
  | restart => exact PartitionMode.noConfusion
  | user e =>
    refine Sat.ite (fun _ => trivial) fun hhalted => withCurrent_sat fun c hc => ?_
    unfold liftSections
    split
    · exact (by decide : Assertion.msectionWait ∉ stateAssertions)
    · rename_i s hs
      have hgoes := userStep_goesOn hs
      refine ⟨userStep_sound h.lists hc hs, ?_⟩
      intro hhalted hmode
      exact hgoes.recheck.trans (h.checked hhalted hmode)
  | onEvent | recheck | fault | deadlineOor | call =>
    exact Sat.ite (fun _ => trivial) fun hhalted => hrest (by simpa using hhalted)

theorem step_sound {e : ArincInput} (h : Steady p) (hok : p.CallerRunnable e)
    (hstep : p.step hm e = some q) : Steady q := by
  have hrun := @run_sound p hm e h hok
  unfold step at hstep
  split at hstep
  · rename_i r he
    rw [he] at hrun
    obtain rfl := Option.some.inj hstep
    exact hrun
  · rename_i r he
    rw [he] at hrun
    obtain rfl := Option.some.inj hstep
    exact ⟨partitionArincStart_sound hrun, fun _ hmode => absurd hmode hrun⟩
  · rename_i r he
    rw [he] at hrun
    obtain rfl := Option.some.inj hstep
    refine ⟨hrun.1, ?_⟩
    intro hhalted
    rw [hrun.2] at hhalted
    cases hhalted
  · rename_i r he
    rw [he] at hrun
    obtain rfl := Option.some.inj hstep
    refine ⟨hrun.1, ?_⟩
    intro hhalted
    rw [hrun.2] at hhalted
    cases hhalted
  · cases hstep
  · cases hstep

theorem boot_steady (nthreads : Nat) : Steady (boot nthreads) where
  lists := partitionArincStart_sound (by simp [unstarted])
  checked _ hmode := by cases hmode

/-- In every run whose system calls are made by runnable processes, the eligible threads are
the runnable processes that are not suspended, in the order of the scheduler, and no
assertion about the state of a thread fails. -/
theorem eligible_queue {nthreads : Nat} {es : List ArincInput}
    (hcallers : Run.Meets (step hm) CallerRunnable (boot nthreads) es)
    (h : Run.exec (step hm) (boot nthreads) es = some p) :
    (p.mode = .normal → p.eligibleThreads.Nodup ∧
      (∀ t, t ∈ p.eligibleThreads ↔ p.HasThread t ∧ (p.threads t).state = .runnable ∧
        (p.sched t).suspended = false) ∧
      p.eligibleThreads.Pairwise p.Precedes) ∧
    ∀ e, p.CallerRunnable e → ∀ assertion ∈ stateAssertions,
      p.run hm e ≠ .error (.failed assertion) := by
  have hsteady : Steady p :=
    Run.invariant_of_meets (fun _ _ _ hs hok hstep => step_sound hs hok hstep)
      (boot_steady nthreads) hcallers h
  constructor
  · intro hmode
    refine ⟨hsteady.lists.sound.nodup, ?_, hsteady.lists.sound.pairwise⟩
    intro t
    rw [hsteady.lists.sound.eligible t (by simp), Eligible]
    exact and_iff_right hmode
  · intro e hok assertion hmem he
    have hexit : assertion ∉ stateAssertions := (run_sound hsteady hok).of_error he
    exact hexit hmem

theorem eligible_queue_startup :
    ∃ p, Run.exec (step lenientHm) (boot 4) (startupRun ++ [.onEvent [.timer 10], .call .yield []]) =
        some p ∧ p.mode = .normal ∧ p.eligibleThreads = [2, 1] ∧
      p.eligibleThreads.Pairwise p.Precedes := by
  have hview : (Run.exec (step lenientHm) (boot 4)
      (startupRun ++ [.onEvent [.timer 10], .call .yield []])).map
        (fun p => (p.mode, p.eligibleThreads)) = some (.normal, [2, 1]) := by
    decide +kernel
  obtain ⟨p, hp, hv⟩ := Option.map_eq_some_iff.mp hview
  obtain ⟨hmode, hlist⟩ := Prod.mk.inj hv
  have hcallers : Run.Meets (step lenientHm) CallerRunnable (boot 4)
      (startupRun ++ [.onEvent [.timer 10], .call .yield []]) :=
    Run.meets_of_checks (by decide +kernel)
  exact ⟨p, hp, hmode, hlist, ((eligible_queue hcallers hp).1 hmode).2.2⟩

/-- Process 1, which runs in the place of process 2, begins to wait and goes on. -/
def waitingOwnerRun : List ArincInput :=
  staleOwnerRun ++ [.call (.portWait 0 false (-1) 11 false) [], .call (.suspend 5 12) [],
    .onEvent [.timer 17]]

theorem eligible_queue_fails :
    ∃ p, Run.exec (step lenientHm) (boot 4) waitingOwnerRun = some p ∧ p.mode = .normal ∧
      failure (p.run lenientHm (.onEvent [.port 0 1])) = some .threadWakeUp := by
  have hview : (Run.exec (step lenientHm) (boot 4) waitingOwnerRun).map
      (fun p => (p.mode, failure (p.run lenientHm (.onEvent [.port 0 1])))) =
        some (.normal, some .threadWakeUp) := by
    decide +kernel
  obtain ⟨p, hp, hv⟩ := Option.map_eq_some_iff.mp hview
  exact ⟨p, hp, Prod.mk.inj hv⟩

end ArincPartition

end Chpok
