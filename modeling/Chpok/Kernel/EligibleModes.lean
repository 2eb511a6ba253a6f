import Chpok.Kernel.EligibleStops

/-! The lists of threads through errors, the preemption lock, the creation of threads and
the switch to the `NORMAL` mode. -/

namespace Chpok

namespace ArincPartition

open Outcome

variable {p q : ArincPartition} {t u c : Nat} {hm : PartitionHm}

theorem ListsSound.same (h : ListsSound p) (hsame : SameBut none p q)
    (hsections : q.toSectionSystem = p.toSectionSystem) (hlock : q.lockLevel = p.lockLevel)
    (hlocked : q.threadLocked = p.threadLocked) : ListsSound q :=
  ⟨h.sound.same hsame, h.placed.same hsections hsame.mode hlock hlocked⟩

/-! Errors -/

theorem partitionReset_exit {mode : PartitionMode} :
    Sat QueueExit ListsSound (p.partitionReset mode) := by
  refine Sat.ite (fun hmode => ?_) fun _ => ?_
  · change mode ≠ .normal
    rintro rfl
    simp at hmode
  · exact (by decide : Assertion.partitionReset ∉ stateAssertions)

theorem takeFixedAction_sound {action : ErrorAction} (h : ListsSound p) :
    Sat QueueExit ListsSound (p.takeFixedAction action) := by
  cases action with
  | ignore => exact h
  | idle => exact ⟨h.same { SameBut.refl none p with } rfl rfl rfl, rfl⟩
  | coldStart => exact partitionReset_exit
  | warmStart =>
    refine Sat.ite (fun _ => ?_) fun _ => partitionReset_exit
    exact (by decide : Assertion.takeFixedAction ∉ stateAssertions)

theorem processErrorPartition_exit {state : SystemState} {errorId : ErrorId} (h : ListsSound p) :
    Sat QueueExit (fun _ => True) (processErrorPartition hm p state errorId) := by
  refine Sat.ite (fun _ => trivial) fun _ => (takeFixedAction_sound h).bind fun q hq => ?_
  refine Sat.ite (fun _ => trivial) fun _ => ?_
  have hcleared : ListsSound { q with nthreadsUnrecoverable := 0 } :=
    hq.same { SameBut.refl none q with } rfl rfl rfl
  refine (takeFixedAction_sound hcleared).bind fun r hr => ?_
  exact ⟨hr.same { SameBut.refl none r with } rfl rfl rfl, rfl⟩

theorem ListsSound.threadSetUnrecoverable (h : ListsSound p) :
    ListsSound (p.threadSetUnrecoverable t) := by
  unfold ArincPartition.threadSetUnrecoverable
  split_ifs
  · exact h
  · exact h.same { SameBut.refl none p with } rfl rfl rfl

theorem threadAddErrorBit_sound {bit : ErrorBit} (h : ListsSound p) :
    Sat QueueExit ListsSound (p.threadAddErrorBit t bit) := by
  refine Sat.ite (fun _ => ?_) fun _ => Sat.ite (fun _ => ?_) fun _ => ?_
  · exact (by decide : Assertion.threadAddErrorBit ∉ stateAssertions)
  · exact h.same { SameBut.refl none p with } rfl rfl rfl
  · apply ListsSound.localInvalidate
    exact h.same { SameBut.refl none p with } rfl rfl rfl

theorem threadClearErrorBit_sound {bit : ErrorBit} (h : ListsSound p) :
    Sat QueueExit ListsSound (p.threadClearErrorBit t bit) := by
  refine Sat.ite (fun _ => Sat.ite (fun _ => ?_) fun _ => ?_) fun _ => ?_
  · exact h.same { SameBut.refl none p with } rfl rfl rfl
  · exact h.same { SameBut.refl none p with } rfl rfl rfl
  · exact (by decide : Assertion.threadClearErrorBit ∉ stateAssertions)

theorem threadEmitSyncError_sound {errorId : ErrorId} {failedAddr : Nat} (h : ListsSound p) :
    Sat QueueExit ListsSound (p.threadEmitSyncError t errorId failedAddr) := by
  apply threadAddErrorBit_sound
  exact h.same { SameBut.refl none p with } rfl rfl rfl

theorem processError_sound {errorId : ErrorId} {failedAddr : Nat} (h : ListsSound p) :
    Sat QueueExit ListsSound (p.processError hm c errorId failedAddr) := by
  refine (processErrorPartition_exit h).bind fun _ _ => ?_
  refine Sat.ite (fun _ => h) fun _ => Sat.ite (fun _ => ?_) fun _ => threadEmitSyncError_sound h
  exact (by decide : Assertion.raiseError ∉ stateAssertions)

theorem emitDeadlineMissed_sound (h : ListsSound p) :
    Sat QueueExit ListsSound (p.emitDeadlineMissed hm t) :=
  (processErrorPartition_exit h).bind fun _ _ =>
    Sat.ite (fun _ => h) fun _ => threadAddErrorBit_sound h

theorem emitDeadlineOor_sound (h : ListsSound p) :
    Sat QueueExit ListsSound (p.emitDeadlineOor hm t) :=
  (processErrorPartition_exit h.threadSetUnrecoverable).bind fun _ _ =>
    Sat.ite (fun _ => h.threadSetUnrecoverable) fun _ =>
      threadAddErrorBit_sound h.threadSetUnrecoverable

theorem raiseApplicationError_sound (h : ListsSound p) :
    Sat QueueExit (fun r => ListsSound r.1) (p.raiseApplicationError hm c) :=
  (processErrorPartition_exit h).bind fun _ _ =>
    Sat.ite (fun _ => h) fun _ => (threadEmitSyncError_sound h).map fun _ hq => hq

theorem raiseOsError_sound (h : ListsSound p) :
    Sat QueueExit (fun r => ListsSound r.1) (p.raiseOsError hm) :=
  (processErrorPartition_exit h).map fun _ _ => h

theorem errorCheckAfterHandler_sound (h : ListsSound p) :
    Sat QueueExit ListsSound (p.errorCheckAfterHandler hm) :=
  Sat.ite (fun _ => h) fun _ => (processErrorPartition_exit h).map fun _ _ => h

theorem errorGet_sound (h : ListsSound p) :
    Sat QueueExit (fun r => ListsSound r.1) (p.errorGet c) := by
  refine Sat.ite (fun _ => h) fun _ => ?_
  split
  · exact h
  · split
    · exact (by decide : Assertion.errorGet ∉ stateAssertions)
    · apply (threadClearErrorBit_sound h).map
      intro q hq
      exact hq.same { SameBut.refl none q with } rfl rfl rfl

theorem errorIgnoreSync_sound (h : ListsSound p) :
    Sat QueueExit ListsSound p.errorIgnoreSync := by
  unfold errorIgnoreSync
  split
  · exact h
  · refine Sat.ite (fun _ => ?_) fun _ => h
    apply (threadClearErrorBit_sound h).map
    intro q hq
    exact hq.same { SameBut.refl none q with } rfl rfl rfl

theorem pokThreadStop_sound (h : ListsSound p) (hc : Caller p c) :
    Sat QueueExit (fun r => ListsSound r.1) (p.pokThreadStop hm c) := by
  refine Sat.ite (fun _ => ?_) fun hfree => sat_returning ?_
  · exact (by decide : Assertion.pokThreadStop ∉ stateAssertions)
  rw [not_or, not_not, not_not] at hfree
  have hstate : (p.threads c).state ≠ .stopped := by
    rw [hc.runnable]
    simp
  have herror : p.mode ≠ .normal → p.threadError ≠ some c := by
    intro hmode he
    have hpos := (h.placed.error c he).1
    rw [(hc.main hmode).1] at hpos
    omega
  obtain ⟨q, hq, -, hlists⟩ := threadStop_lists h hstate hfree.2 herror
  rw [hq]
  refine Sat.map ?_ fun r (hr : ListsSound r) => hr.localInvalidate
  refine Sat.ite (fun _ => ?_) fun _ => hlists
  exact (errorCheckAfterHandler_sound hlists).bind fun _ hr => errorIgnoreSync_sound hr

/-! The preemption lock -/

theorem ListsSound.setLock {level locked : Nat} (h : ListsSound p) (hmode : p.mode = .normal)
    (hlocked : 0 < level → 0 < locked ∧ locked < p.nthreadsUsed) :
    ListsSound { p with lockLevel := level, threadLocked := locked } where
  sound := h.sound.same { SameBut.refl none p with }
  placed := {
    h.placed with
    main := fun hne => absurd hmode hne
    locked := fun _ => hlocked }

theorem incLockLevel_sound (h : ListsSound p) (hc : Caller p c) :
    ListsSound (p.incLockLevel c).1 := by
  unfold incLockLevel
  split_ifs with hblocked hmax
  · exact h
  · exact h
  · have hmode : p.mode = .normal := by
      by_contra hne
      exact hblocked (Or.inl hne)
    exact h.setLock hmode fun _ => ⟨hc.positive hmode, hc.used⟩

theorem decLockLevel_sound (h : ListsSound p) : ListsSound (p.decLockLevel c).1 := by
  unfold decLockLevel
  split_ifs with hblocked hzero hlast
  · exact h
  · exact h
  all_goals
    have hmode : p.mode = .normal := by
      by_contra hne
      exact hblocked (Or.inl hne)
    have hset : ListsSound { p with lockLevel := p.lockLevel - 1 } :=
      h.setLock hmode fun hpos => h.placed.locked hmode (by omega)
  · exact hset.localInvalidate
  · exact hset

/-! The creation of threads -/

/-- `q` is `p` with one thread more, which is stopped, and perhaps is the error handler. -/
structure OneMore (p q : ArincPartition) : Prop where
  threads : ∀ u, u ≠ p.nthreadsUsed → q.threads u = p.threads u
  sched : ∀ u, u ≠ p.nthreadsUsed → q.sched u = p.sched u
  stopped : (q.threads p.nthreadsUsed).state = .stopped
  target : (q.threads p.nthreadsUsed).donateTarget = none
  firstDonator : (q.threads p.nthreadsUsed).firstDonator = none
  nextDonator : (q.threads p.nthreadsUsed).nextDonator = none
  outside : (q.threads p.nthreadsUsed).msectionCount = 0 ∧
    (q.threads p.nthreadsUsed).msectionEntering = none
  free : (q.sched p.nthreadsUsed).waitElem = none
  used : q.nthreadsUsed = p.nthreadsUsed + 1
  mode : q.mode = p.mode
  error : q.threadError = p.threadError ∨
    p.threadError = none ∧ q.threadError = some p.nthreadsUsed
  current : q.threadCurrent = p.threadCurrent
  lockLevel : q.lockLevel = p.lockLevel
  locked : q.threadLocked = p.threadLocked
  eligibleThreads : q.eligibleThreads = p.eligibleThreads
  delayedEvents : q.delayedEvents = p.delayedEvents
  waiters : q.waiters = p.waiters

theorem oneMore_create {error : Option Nat}
    (herror : error = p.threadError ∨ p.threadError = none ∧ error = some p.nthreadsUsed) :
    OneMore p ((p.threadCreate p.nthreadsUsed).onSections fun s => { s with
      nthreadsUsed := p.nthreadsUsed + 1, threadError := error }) where
  threads _ hu := Function.update_of_ne hu _ _
  sched _ hu := Function.update_of_ne hu _ _
  stopped := by simp [onSections, threadCreate_threads]
  target := by simp [onSections, threadCreate_threads]
  firstDonator := by simp [onSections, threadCreate_threads]
  nextDonator := by simp [onSections, threadCreate_threads]
  outside := by simp [onSections, threadCreate_threads]
  free := by simp [onSections, threadCreate_sched]
  used := rfl
  mode := rfl
  error := herror
  current := rfl
  lockLevel := rfl
  locked := rfl
  eligibleThreads := rfl
  delayedEvents := rfl
  waiters := rfl

theorem OneMore.hasThread (hq : OneMore p q) (hu : u < p.nthreadsUsed) :
    q.HasThread u ↔ p.HasThread u := by
  have hlt : u < p.nthreadsUsed + 1 := by omega
  have hne : p.nthreadsUsed ≠ u := by omega
  simp only [SectionSystem.HasThread, hq.used, hlt, hu, true_and]
  rcases hq.error with he | ⟨hnone, he⟩
  · rw [he]
  · simp [he, hnone, hne]

/-- A link of a thread of `q`, which the new thread does not have, is one of `p`. -/
theorem OneMore.link (hq : OneMore p q) {α : Type} (a : SectionThread → Option α)
    (ha : a (q.threads p.nthreadsUsed) = none) (hu : u < q.nthreadsUsed) {d : α}
    (hd : a (q.threads u) = some d) : u < p.nthreadsUsed ∧ a (p.threads u) = some d := by
  have hused := hq.used
  by_cases hn : u = p.nthreadsUsed
  · rw [hn, ha] at hd
    cases hd
  · rw [hq.threads u hn] at hd
    exact ⟨by omega, hd⟩

theorem OneMore.sound (hq : OneMore p q) (h : SoundBut none p) (hmode : p.mode ≠ .normal) :
    SoundBut none q := by
  have hused := hq.used
  have hnil : q.eligibleThreads = [] := hq.eligibleThreads.trans (h.eligible_nil hmode)
  have hwaits : ∀ u, ¬ p.Waits u := fun u hu => hmode hu.1
  have hinactive : ∀ u, ¬ q.DelayedEventActive u .delayed := by
    intro u hd
    rw [DelayedEventActive, hq.delayedEvents] at hd
    exact hwaits u (h.delayed u (by simp) hd)
  have hunlinked : ∀ u < q.nthreadsUsed, (q.sched u).waitElem = none := by
    intro u hu
    by_cases hn : u = p.nthreadsUsed
    · exact hn ▸ hq.free
    · rw [hq.sched u hn]
      by_contra hl
      exact hwaits u (h.linked u (by simp) (by omega) hl)
  exact {
    nodup := by simp [hnil]
    eligible := by
      intro u _
      rw [hnil]
      exact iff_of_false (by simp) fun he => hmode (hq.mode ▸ he.1)
    order := by simp [hnil]
    arrived := by simp [hnil]
    delayed := fun u _ hd => absurd hd (hinactive u)
    resumes := fun u _ hd => absurd hd (hinactive u)
    unique := hq.delayedEvents ▸ h.unique
    linked := fun u _ hlt hl => absurd (hunlinked u hlt) hl
    waiters := by
      intro port u
      rw [hq.waiters]
      refine iff_of_false ?_ ?_
      · intro hu
        obtain ⟨hlt, hl⟩ := (h.waiters port u).mp hu
        exact hwaits u (h.linked u (by simp) hlt (by simp [hl]))
      · rintro ⟨hlt, hl⟩
        rw [hunlinked u hlt] at hl
        cases hl
    waitersNodup := hq.waiters ▸ h.waitersNodup
    donated := by
      intro u _ hlt hf
      obtain ⟨d, hd⟩ := Option.ne_none_iff_exists'.mp hf
      obtain ⟨hlt', hd'⟩ := hq.link SectionThread.firstDonator hq.firstDonator hlt hd
      rw [hq.hasThread hlt', hq.threads u (by omega)]
      exact h.donated u (by simp) hlt' (by simp [hd'])
    waiting := by
      intro u _ hlt hw
      have hn : u ≠ p.nthreadsUsed := by
        rintro rfl
        rw [hq.stopped] at hw
        cases hw
      rw [hq.hasThread (by omega)]
      rw [hq.threads u hn] at hw
      exact h.waiting u (by simp) (by omega) hw }

theorem OneMore.placed (hq : OneMore p q) (h : Placed p) (hmode : p.mode ≠ .normal) :
    Placed q := by
  have hused := hq.used
  have hpos := h.positive
  exact {
    positive := by omega
    current := fun hm' => absurd (hq.mode ▸ hm') hmode
    main := by
      intro _
      rw [hq.current, hq.lockLevel, hq.locked, hq.threads 0 (by omega)]
      exact h.main hmode
    locked := fun hm' => absurd (hq.mode ▸ hm') hmode
    error := by
      intro e he
      rcases hq.error with hsame | ⟨-, hnew⟩
      · have hold := h.error e (hsame ▸ he)
        omega
      · have hlast := Option.some.inj (hnew.symm.trans he)
        omega
    target := by
      intro u hu d hd
      obtain ⟨hlt, hd'⟩ := hq.link SectionThread.donateTarget hq.target hu hd
      have hold := h.target u hlt d hd'
      omega
    firstDonator := by
      intro u hu d hd
      obtain ⟨hlt, hd'⟩ := hq.link SectionThread.firstDonator hq.firstDonator hu hd
      have hold := h.firstDonator u hlt d hd'
      omega
    nextDonator := by
      intro u hu d hd
      obtain ⟨hlt, hd'⟩ := hq.link SectionThread.nextDonator hq.nextDonator hu hd
      have hold := h.nextDonator u hlt d hd'
      omega
    errorStopped := by
      intro _ e he
      rcases hq.error with hsame | ⟨-, hnew⟩
      · have hlt := (h.error e (hsame ▸ he)).2
        rw [hq.threads e (by omega)]
        exact h.errorStopped hmode e (hsame ▸ he)
      · rw [← Option.some.inj (hnew.symm.trans he)]
        exact hq.stopped
    init := by
      intro _ u hu
      by_cases hn : u = p.nthreadsUsed
      · subst hn
        exact ⟨by simp [hq.stopped], hq.outside⟩
      · have hlt : u < p.nthreadsUsed := by
          have hthread := hu.2.1
          omega
        rw [hq.threads u hn]
        exact h.init hmode u ((hq.hasThread hlt).mp hu)
    undonated := by
      intro _ u hu
      by_cases hn : u = p.nthreadsUsed
      · subst hn
        exact ⟨hq.target, hq.firstDonator⟩
      · rw [hq.threads u hn]
        exact h.undonated hmode u (by omega) }

/-- Threads are created outside the `NORMAL` mode, and the error handler once. -/
theorem ListsSound.create {error : Option Nat} (h : ListsSound p) (hmode : p.mode ≠ .normal)
    (herror : error = p.threadError ∨ p.threadError = none ∧ error = some p.nthreadsUsed) :
    ListsSound ((p.threadCreate p.nthreadsUsed).onSections fun s => { s with
      nthreadsUsed := p.nthreadsUsed + 1, threadError := error }) :=
  ⟨(oneMore_create herror).sound h.sound hmode, (oneMore_create herror).placed h.placed hmode⟩

theorem pokThreadCreate_sound {attr : ThreadAttr} {entryOk stackOk : Bool} (h : ListsSound p) :
    Sat QueueExit (fun r => ListsSound r.1) (p.pokThreadCreate attr entryOk stackOk) := by
  refine Sat.ite (fun _ => h) fun hmode => Sat.ite (fun _ => h) fun _ => ?_
  have hfilled : ListsSound (p.updateSched p.nthreadsUsed fun th => { th with
      basePriority := attr.priority, period := attr.period, timeCapacity := attr.timeCapacity }) :=
    h.updateSched rfl rfl rfl rfl
  split
  · exact hfilled
  · refine Sat.ite (fun _ => hfilled) fun _ => ?_
    have hnamed := hfilled.updateSched (t := p.nthreadsUsed)
      (g := fun th => { th with name := attr.name }) rfl rfl rfl rfl
    refine Sat.ite (fun _ => hnamed) fun _ => Sat.ite (fun _ => hnamed) fun _ => ?_
    exact hnamed.create hmode (Or.inl rfl)

theorem errorThreadCreate_sound {entryOk stackOk : Bool} (h : ListsSound p) :
    Sat QueueExit (fun r => ListsSound r.1) (p.errorThreadCreate entryOk stackOk) := by
  refine Sat.ite (fun _ => h) fun hmode => Sat.ite (fun _ => h) fun hnone =>
    Sat.ite (fun _ => h) fun _ => Sat.ite (fun _ => h) fun _ => ?_
  have hnamed : ListsSound (p.updateSched p.nthreadsUsed fun th => { th with
      name := errorThreadName, basePriority := 254, period := -1, timeCapacity := -1 }) :=
    h.updateSched rfl rfl rfl rfl
  refine Sat.ite (fun _ => hnamed) fun _ => ?_
  exact hnamed.create hmode (Or.inr ⟨not_not.mp hnone, rfl⟩)

/-! The `NORMAL` mode -/

/-- In the `NORMAL` mode a thread has been started or is yet to be. -/
def Releasable (p : ArincPartition) (t : Nat) : Prop :=
  (p.threads t).state = .stopped ∨ p.Waits t

theorem Releasable.moves (h : Releasable p u) (hm : Moves t p q) (hne : u ≠ t) : Releasable q u := by
  unfold Releasable Waits at *
  rwa [hm.threads u hne, hm.mode, hm.hasThread]

theorem releaseThread_sound {now start : Int} (h : ListsSound p) (ht : Releasable p t) :
    Sat QueueExit (fun q => ListsSound q ∧ ∀ u, u ≠ t → Releasable p u → Releasable q u)
      (p.releaseThread now start t) := by
  refine Sat.ite (fun _ => ⟨h, fun _ _ hu => hu⟩) fun hstate => ?_
  have hw : p.Waits t := ht.resolve_left hstate
  dsimp only
  generalize p.startTime t (p.sched t).delayedTime now start = time
  generalize TimeArith.kernel.unsigned time = next
  have hactivated : ListsSound (p.setNextActivation t next) := h.setNextActivation
  obtain ⟨hsections, hmode⟩ := @setNextActivation_same p t next
  generalize p.setNextActivation t next = r at hactivated hsections hmode ⊢
  have hkeep : ∀ u, Releasable p u → Releasable r u := by
    intro u hu
    unfold Releasable Waits at *
    rwa [hsections, hmode]
  have hrw : r.Waits t := by
    unfold Waits at *
    rwa [hsections, hmode]
  have hreleased : Sat QueueExit (fun q => ListsSound q ∧ Moves t r q)
      (if time ≤ now then r.threadWakeUp t else .ok (r.threadDelayEvent t time .wakeUp)) := by
    refine Sat.ite (fun _ => ?_) fun _ => ?_
    · obtain ⟨q, hq, hmoves, hlists⟩ := threadWakeUp_lists hactivated hrw
      rw [hq]
      exact ⟨hlists, hmoves⟩
    · have hout := notMem_of_not_eligible hactivated.sound hrw.not_eligible
      refine ⟨⟨?_, ?_⟩, moves_threadDelayEvent⟩
      · exact threadDelayEvent_sound (hactivated.sound.except t) hout hrw (by simp)
      · exact hactivated.placed.moves_normal moves_threadDelayEvent hrw.1
  apply hreleased.map
  rintro q ⟨hlists, hmoves⟩
  refine ⟨hlists.setStartDeadline, ?_⟩
  intro u hne hu
  have hq := (hkeep u hu).moves hmoves hne
  obtain ⟨hs, hm'⟩ := @setStartDeadline_same q t time
  unfold Releasable Waits at *
  rwa [hs, hm']

theorem releaseThreads_sound {now start : Int} {ts : List Nat} (h : ListsSound p)
    (hts : ts.Nodup) (hrelease : ∀ t ∈ ts, Releasable p t) :
    Sat QueueExit ListsSound (releaseThreads now start ts p) := by
  induction ts generalizing p with
  | nil => exact h
  | cons t ts ih =>
    have hnodup := List.nodup_cons.mp hts
    refine (releaseThread_sound h (hrelease t (by simp))).bind ?_
    rintro q ⟨hlists, hkeep⟩
    apply ih hlists hnodup.2
    intro u hu
    exact hkeep u (fun he => hnodup.1 (he ▸ hu)) (hrelease u (by simp [hu]))

/-- Before the `NORMAL` mode the lists are empty. -/
theorem ListsSound.enterNormal (h : ListsSound p) (hmode : p.mode ≠ .normal) :
    ListsSound { p with mode := .normal, lockLevel := 0 }.localInvalidate where
  sound := {
    nodup := h.sound.nodup
    eligible := by
      intro u _
      have hnil : p.eligibleThreads = [] := h.sound.eligible_nil hmode
      refine iff_of_false ?_ fun he => (h.placed.init hmode u he.2.1).1 he.2.2.1
      simp [ArincPartition.localInvalidate, onSections, hnil]
    order := h.sound.order
    arrived := h.sound.arrived
    delayed := fun u hu hd => absurd (h.sound.delayed u hu hd).1 hmode
    resumes := h.sound.resumes
    unique := h.sound.unique
    linked := fun u hu hlt hl => absurd (h.sound.linked u hu hlt hl).1 hmode
    waiters := h.sound.waiters
    waitersNodup := h.sound.waitersNodup
    donated := h.sound.donated
    waiting := h.sound.waiting }
  placed := {
    h.placed with
    current := fun _ hr => by cases hr
    main := fun hne => absurd rfl hne
    locked := fun _ hpos => absurd hpos (lt_irrefl 0)
    errorStopped := fun hne => absurd rfl hne
    init := fun hne => absurd rfl hne
    undonated := fun hne => absurd rfl hne }

theorem partitionSetModeNormal_sound {now start : Int} (h : ListsSound p)
    (hmode : p.mode ≠ .normal) :
    Sat QueueExit ListsSound (p.partitionSetModeNormal now start) := by
  apply releaseThreads_sound (h.enterNormal hmode) (List.nodup_range' _)
  intro t ht
  obtain ⟨hpos, hlt⟩ := List.mem_range'_1.mp ht
  have hused := h.placed.positive
  have hstate : (p.threads t).state = .stopped ∨
      p.HasThread t ∧ (p.threads t).state = .waiting := by
    by_cases he : p.threadError = some t
    · exact Or.inl (h.placed.errorStopped hmode t he)
    · have hthread : p.HasThread t := ⟨by omega, by omega, he⟩
      have hnot := (h.placed.init hmode t hthread).1
      cases hs : (p.threads t).state with
      | stopped => exact Or.inl rfl
      | runnable => exact absurd hs hnot
      | waiting => exact Or.inr ⟨hthread, rfl⟩
  rcases hstate with hs | ⟨hthread, hs⟩
  · exact Or.inl hs
  · exact Or.inr ⟨rfl, hthread, hs⟩

theorem partitionSetMode_sound {mode : PartitionMode} {now start : Int} (h : ListsSound p) :
    Sat QueueExit (fun r => ListsSound r.1) (p.partitionSetMode mode now start) := by
  cases mode with
  | initWarm => exact Sat.ite (fun _ => h) fun _ => sat_returning partitionReset_exit
  | initCold => exact sat_returning partitionReset_exit
  | idle => exact ⟨h.same { SameBut.refl none p with } rfl rfl rfl, rfl⟩
  | normal =>
    exact Sat.ite (fun _ => h) fun hmode => sat_returning (partitionSetModeNormal_sound h hmode)

end ArincPartition

end Chpok
