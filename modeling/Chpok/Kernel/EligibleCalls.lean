import Chpok.Kernel.ThreadMoves
import Chpok.Kernel.ArincSystem

/-! The system calls keep the lists of threads. Their callers are threads of the partition in
its `NORMAL` mode, and the main thread before that. -/

namespace Chpok

namespace ArincPartition

open Outcome

variable {p q : ArincPartition} {t u c : Nat} {hm : PartitionHm}

/-- The threads that the partition points at. Before the `NORMAL` mode, only the main thread
runs; it holds the preemption lock until it stops. -/
structure Placed (p : ArincPartition) : Prop where
  positive : 0 < p.nthreadsUsed
  current : p.mode = .normal → p.recheckNeeded = false → ∀ c, p.threadCurrent = some c →
    0 < c ∧ c < p.nthreadsUsed
  main : p.mode ≠ .normal → (∀ c, p.threadCurrent = some c → c = 0) ∧ p.threadLocked = 0 ∧
    (p.lockLevel = 0 → (p.threads 0).state = .stopped)
  locked : p.mode = .normal → 0 < p.lockLevel → 0 < p.threadLocked ∧
    p.threadLocked < p.nthreadsUsed
  error : ∀ e, p.threadError = some e → 0 < e ∧ e < p.nthreadsUsed
  target : ∀ u < p.nthreadsUsed, ∀ d, (p.threads u).donateTarget = some d →
    0 < d ∧ d < p.nthreadsUsed
  firstDonator : ∀ u < p.nthreadsUsed, ∀ d, (p.threads u).firstDonator = some d →
    d < p.nthreadsUsed
  nextDonator : ∀ u < p.nthreadsUsed, ∀ d, (p.threads u).nextDonator = some d →
    d < p.nthreadsUsed
  errorStopped : p.mode ≠ .normal → ∀ e, p.threadError = some e → (p.threads e).state = .stopped
  init : p.mode ≠ .normal → ∀ u, p.HasThread u → (p.threads u).state ≠ .runnable ∧
    (p.threads u).msectionCount = 0 ∧ (p.threads u).msectionEntering = none
  undonated : p.mode ≠ .normal → ∀ u < p.nthreadsUsed, (p.threads u).donateTarget = none ∧
    (p.threads u).firstDonator = none

/-- The lists of the partition are sound between two functions that change them. -/
structure ListsSound (p : ArincPartition) : Prop where
  sound : SoundBut none p
  placed : Placed p

/-- The assertions about the states of threads. -/
def stateAssertions : List Assertion :=
  [.threadSetEligible, .threadStop, .threadWakeUp, .threadResumeWaited]

def QueueExit : PartitionExit → Prop
  | .failed assertion => assertion ∉ stateAssertions
  | .idle p | .forever p => ListsSound p ∧ p.halted = true
  | .reset p => p.mode ≠ .normal
  | .refused => True

/-- A runnable thread that makes a system call. -/
structure Caller (p : ArincPartition) (c : Nat) : Prop where
  used : c < p.nthreadsUsed
  positive : p.mode = .normal → 0 < c
  main : p.mode ≠ .normal → c = 0 ∧ 0 < p.lockLevel
  runnable : (p.threads c).state = .runnable

theorem Placed.moves (h : Placed p) (hm : Moves t p q)
    (hinit : p.mode ≠ .normal → (q.threads t).state ≠ .runnable ∧
      (t = 0 → (q.threads t).state = .stopped) ∧ p.threadError ≠ some t) : Placed q where
  positive := hm.used ▸ h.positive
  current hmode hr c hc := by
    rw [hm.mode] at hmode
    rw [hm.current] at hc
    rw [hm.used]
    apply h.current hmode _ c hc
    by_contra hne
    rw [hm.recheck (by simpa using hne)] at hr
    cases hr
  main hmode := by
    rw [hm.mode] at hmode
    obtain ⟨hcurrent, hlocked, hstopped⟩ := h.main hmode
    refine ⟨hm.current ▸ hcurrent, hm.locked.trans hlocked, ?_⟩
    intro hlock
    by_cases ht : t = 0
    · subst ht
      exact (hinit hmode).2.1 rfl
    · rw [hm.threads 0 (Ne.symm ht)]
      rcases hm.lock with hsame | ⟨-, -, hheld⟩
      · exact hstopped (hsame.symm.trans hlock)
      · exact absurd (hheld.symm.trans hlocked) ht
  locked hmode hlock := by
    rw [hm.mode] at hmode
    rw [hm.locked, hm.used]
    rcases hm.lock with hsame | ⟨hzero, -, -⟩
    · exact h.locked hmode (hsame ▸ hlock)
    · omega
  error e he := by
    rw [hm.error] at he
    rw [hm.used]
    exact h.error e he
  target u hu d hd := by
    rw [hm.used] at hu ⊢
    by_cases hut : u = t
    · subst hut
      exact h.target u hu d (hm.target ▸ hd)
    · exact h.target u hu d (hm.threads u hut ▸ hd)
  firstDonator u hu d hd := by
    rw [hm.used] at hu ⊢
    by_cases hut : u = t
    · subst hut
      exact h.firstDonator u hu d (hm.firstDonator ▸ hd)
    · exact h.firstDonator u hu d (hm.threads u hut ▸ hd)
  nextDonator u hu d hd := by
    rw [hm.used] at hu ⊢
    by_cases hut : u = t
    · subst hut
      exact h.nextDonator u hu d (hm.nextDonator ▸ hd)
    · exact h.nextDonator u hu d (hm.threads u hut ▸ hd)
  errorStopped hmode e he := by
    rw [hm.mode] at hmode
    rw [hm.error] at he
    have hne : e ≠ t := fun het => (hinit hmode).2.2 (het ▸ he)
    rw [hm.threads e hne]
    exact h.errorStopped hmode e he
  init hmode u hu := by
    rw [hm.mode] at hmode
    rw [hm.hasThread] at hu
    obtain ⟨hstate, hcount, hentering⟩ := h.init hmode u hu
    by_cases hut : u = t
    · subst hut
      refine ⟨(hinit hmode).1, hm.count.trans hcount, ?_⟩
      rcases hm.entering with he | he
      · exact he.trans hentering
      · exact he
    · rw [hm.threads u hut]
      exact ⟨hstate, hcount, hentering⟩
  undonated hmode u hu := by
    rw [hm.mode] at hmode
    rw [hm.used] at hu
    by_cases hut : u = t
    · subst hut
      rw [hm.target, hm.firstDonator]
      exact h.undonated hmode u hu
    · rw [hm.threads u hut]
      exact h.undonated hmode u hu

theorem Placed.moves_normal (h : Placed p) (hm : Moves t p q) (hmode : p.mode = .normal) :
    Placed q :=
  h.moves hm fun hne => absurd hmode hne

theorem Caller.hasThread (h : Caller p c) (hmode : p.mode = .normal)
    (hc : p.threadError ≠ some c) : p.HasThread c :=
  ⟨h.positive hmode, h.used, hc⟩

theorem Caller.waiting_allowed (h : Caller p c) :
    p.threadIsWaitingAllowed c = .error (.failed .threadIsWaitingAllowed) ∨
      p.threadIsWaitingAllowed c = .ok false ∨
        p.threadIsWaitingAllowed c = .ok true ∧ p.mode = .normal ∧ p.HasThread c := by
  unfold threadIsWaitingAllowed
  by_cases hlock : 0 < p.lockLevel ∨ p.threadError = some c
  · exact Or.inr (Or.inl (if_pos hlock))
  · rw [if_neg hlock]
    by_cases hcount : (p.threads c).msectionCount = 0 ∧ (p.threads c).firstDonator = none
    · rw [if_pos hcount]
      rw [not_or] at hlock
      have hmode : p.mode = .normal := by
        by_contra hne
        exact hlock.1 (h.main hne).2
      exact Or.inr (Or.inr ⟨rfl, hmode, h.hasThread hmode hlock.2⟩)
    · rw [if_neg hcount]
      exact Or.inl rfl

theorem Caller.sat_waiting_allowed (h : Caller p c) {f : Bool → Except PartitionExit (ArincPartition × PokErrno)}
    {post : ArincPartition × PokErrno → Prop} (hrefused : Sat QueueExit post (f false))
    (hallowed : p.mode = .normal → p.HasThread c → Sat QueueExit post (f true)) :
    Sat QueueExit post ((p.threadIsWaitingAllowed c).bind f) := by
  rcases h.waiting_allowed with hr | hr | ⟨hr, hmode, hthread⟩
  · rw [hr]
    exact (by decide : Assertion.threadIsWaitingAllowed ∉ stateAssertions)
  · rw [hr]
    exact hrefused
  · rw [hr]
    exact hallowed hmode hthread

theorem Caller.free (h : Caller p c) (hs : SoundBut none p) :
    ¬ p.DelayedEventActive c .delayed ∧ (p.sched c).waitElem = none := by
  have hnot : ¬ p.Waits c := by
    intro hw
    have := h.runnable.symm.trans hw.2.2
    cases this
  constructor
  · exact fun hd => hnot (hs.delayed c (by simp) hd)
  · by_contra hl
    exact hnot (hs.linked c (by simp) h.used hl)

theorem sat_returning {errno : PokErrno} {m : Except PartitionExit ArincPartition}
    (h : Sat QueueExit ListsSound m) :
    Sat QueueExit (fun r => ListsSound r.1) (returning errno m) :=
  h.map fun _ hp => hp

theorem SoundBut.eligible_nil (h : SoundBut none p) (hmode : p.mode ≠ .normal) :
    p.eligibleThreads = [] := by
  apply List.eq_nil_iff_forall_not_mem.mpr
  intro u hu
  exact hmode ((h.eligible u (by simp)).mp hu).1

theorem Placed.same (h : Placed p) (hsections : q.toSectionSystem = p.toSectionSystem)
    (hmode : q.mode = p.mode) (hlock : q.lockLevel = p.lockLevel)
    (hlocked : q.threadLocked = p.threadLocked) : Placed q := by
  have hthread : ∀ u, q.HasThread u ↔ p.HasThread u := by
    intro u
    simp only [hsections]
  constructor
  · simpa only [hsections] using h.positive
  · simpa only [hsections, hmode] using h.current
  · simpa only [hsections, hmode, hlock, hlocked] using h.main
  · simpa only [hsections, hmode, hlock, hlocked] using h.locked
  · simpa only [hsections] using h.error
  · simpa only [hsections] using h.target
  · simpa only [hsections] using h.firstDonator
  · simpa only [hsections] using h.nextDonator
  · simpa only [hsections, hmode] using h.errorStopped
  · simpa only [hsections, hmode] using h.init
  · simpa only [hsections, hmode] using h.undonated

theorem ListsSound.threadSetDeadline {time : Int} (h : ListsSound p) :
    ListsSound (p.threadSetDeadline t time) where
  sound := h.sound.delayedEventAdd (by simp)
  placed := h.placed.same rfl rfl rfl rfl

theorem ListsSound.setStartDeadline {start : Int} (h : ListsSound p) :
    ListsSound (p.setStartDeadline t start) := by
  unfold ArincPartition.setStartDeadline
  split_ifs
  · exact h
  · exact h.threadSetDeadline

theorem setStartDeadline_same {start : Int} :
    (p.setStartDeadline t start).toSectionSystem = p.toSectionSystem ∧
      (p.setStartDeadline t start).mode = p.mode := by
  unfold ArincPartition.setStartDeadline
  split_ifs
  · exact ⟨rfl, rfl⟩
  · exact ⟨rfl, rfl⟩

theorem ListsSound.updateSched {g : SchedThread → SchedThread} (h : ListsSound p)
    (hlink : (g (p.sched t)).waitElem = (p.sched t).waitElem)
    (hsuspended : (g (p.sched t)).suspended = (p.sched t).suspended)
    (hpriority : (g (p.sched t)).priority = (p.sched t).priority)
    (hfunc : (g (p.sched t)).delayedFunc = (p.sched t).delayedFunc) :
    ListsSound (p.updateSched t g) where
  sound := h.sound.same (sameBut_updateSched hlink fun _ => ⟨hsuspended, hpriority, hfunc⟩)
  placed := h.placed.same rfl rfl rfl rfl

theorem setNextActivation_same {next : Int} :
    (p.setNextActivation t next).toSectionSystem = p.toSectionSystem ∧
      (p.setNextActivation t next).mode = p.mode := by
  unfold ArincPartition.setNextActivation
  split_ifs
  · exact ⟨rfl, rfl⟩
  · exact ⟨rfl, rfl⟩

theorem ListsSound.setNextActivation {next : Int} (h : ListsSound p) :
    ListsSound (p.setNextActivation t next) := by
  unfold ArincPartition.setNextActivation
  split_ifs
  · exact h
  · exact h.updateSched rfl rfl rfl rfl

theorem ListsSound.delayedEventRemove {kind : DelayedKind} (h : ListsSound p) :
    ListsSound (p.delayedEventRemove t kind) where
  sound := h.sound.delayedEventRemove
  placed := h.placed.same rfl rfl rfl rfl

theorem ListsSound.moves (h : ListsSound p) {m : Except PartitionExit ArincPartition}
    (hinit : p.mode = .normal) (hm : ∃ q, m = .ok q ∧ Moves t p q ∧ SoundBut none q) :
    Sat QueueExit ListsSound m := by
  obtain ⟨q, rfl, hmoves, hsound⟩ := hm
  exact ⟨hsound, h.placed.moves_normal hmoves hinit⟩

/-! START -/

theorem sameBut_resetStarted : SameBut (some t) p (p.resetStarted t) :=
  (sameBut_updateSched (by simp) (by simp)).trans (sameBut_updateThread (by simp))

@[simp]
theorem resetStarted_sched : (p.resetStarted t).sched =
    Function.update p.sched t { p.sched t with priority := (p.sched t).basePriority } := rfl

@[simp]
theorem resetStarted_threads : (p.resetStarted t).threads =
    Function.update p.threads t { SectionSystem.resetContext (p.threads t) with
      msectionCount := 0, sharedEntering := none, killed := false } := rfl

/-- A field that the start of a thread does not set again. -/
theorem resetStarted_field {α : Type} (f : SectionThread → α)
    (hf : ∀ th, f { SectionSystem.resetContext th with
      msectionCount := 0, sharedEntering := none, killed := false } = f th) (u : Nat) :
    f ((p.resetStarted t).threads u) = f (p.threads u) := by
  rw [resetStarted_threads]
  by_cases ht : u = t
  · subst ht
    rw [Function.update_self, hf]
  · rw [Function.update_of_ne ht]

theorem ListsSound.resetStarted (h : ListsSound p) (hstopped : (p.threads t).state = .stopped) :
    ListsSound (p.resetStarted t) where
  sound := by
    have hkept := h.sound.kept t
    have hnot : ¬ p.Waits t := by
      intro hw
      have := hstopped.symm.trans hw.2.2
      cases this
    have hout : t ∉ p.eligibleThreads := by
      apply notMem_of_not_eligible h.sound
      intro he
      have := hstopped.symm.trans he.2.2.1
      cases this
    have hs : SoundBut (some t) (p.resetStarted t) := (h.sound.except t).same sameBut_resetStarted
    apply hs.settle (iff_of_false hout _) (hs.pairwise_of_notMem hout)
    · exact {
        delayed := fun hd => absurd (hkept.delayed hd) hnot
        resumes := fun hd => absurd (hkept.delayed hd) hnot
        linked := by
          intro hlt hl
          rw [resetStarted_sched, Function.update_self] at hl
          exact absurd (hkept.linked hlt hl) hnot
        donated := by
          intro hlt hf
          rw [resetStarted_threads, Function.update_self] at hf
          exact absurd hstopped (hkept.donated hlt hf).2
        waiting := by
          intro hlt hw
          rw [resetStarted_threads, Function.update_self] at hw
          exact hkept.waiting hlt hw }
    · intro he
      have hstate := he.2.2.1
      rw [resetStarted_threads, Function.update_self] at hstate
      have := hstopped.symm.trans hstate
      cases this
  placed := {
    h.placed with
    main := by
      intro hmode
      obtain ⟨hcurrent, hlocked, hmain⟩ := h.placed.main hmode
      refine ⟨hcurrent, hlocked, fun hlock => ?_⟩
      rw [resetStarted_field SectionThread.state fun _ => rfl]
      exact hmain hlock
    target := by
      intro u hu d
      rw [resetStarted_field SectionThread.donateTarget fun _ => rfl]
      exact h.placed.target u hu d
    firstDonator := by
      intro u hu d
      rw [resetStarted_field SectionThread.firstDonator fun _ => rfl]
      exact h.placed.firstDonator u hu d
    nextDonator := by
      intro u hu d
      rw [resetStarted_field SectionThread.nextDonator fun _ => rfl]
      exact h.placed.nextDonator u hu d
    errorStopped := by
      intro hmode e he
      rw [resetStarted_field SectionThread.state fun _ => rfl]
      exact h.placed.errorStopped hmode e he
    init := by
      intro hmode u hu
      obtain ⟨hstate, hcount, hentering⟩ := h.placed.init hmode u hu
      rw [resetStarted_field SectionThread.state fun _ => rfl,
        resetStarted_field SectionThread.msectionEntering fun _ => rfl]
      refine ⟨hstate, ?_, hentering⟩
      rw [resetStarted_threads]
      by_cases ht : u = t
      · subst ht
        rw [Function.update_self]
      · rw [Function.update_of_ne ht]
        exact hcount
    undonated := by
      intro hmode u hu
      rw [resetStarted_field SectionThread.donateTarget fun _ => rfl,
        resetStarted_field SectionThread.firstDonator fun _ => rfl]
      exact h.placed.undonated hmode u hu }

theorem SoundBut.stopped_free (h : SoundBut none p) (hthread : p.HasThread t)
    (hstopped : (p.threads t).state = .stopped) :
    t ∉ p.eligibleThreads ∧ ¬ p.DelayedEventActive t .delayed ∧
      (p.sched t).waitElem = none ∧ (p.threads t).firstDonator = none := by
  have hnot : ¬ p.Waits t := by
    intro hw
    have := hstopped.symm.trans hw.2.2
    cases this
  refine ⟨?_, fun hd => hnot (h.delayed t (by simp) hd), ?_, ?_⟩
  · apply notMem_of_not_eligible h
    intro he
    have := hstopped.symm.trans he.2.2.1
    cases this
  · by_contra hl
    exact hnot (h.linked t (by simp) hthread.2.1 hl)
  · by_contra hf
    exact (h.donated t (by simp) hthread.2.1 hf).2 hstopped

theorem threadDelayedStartInternal_sound {delay now start : Int} (h : ListsSound p)
    (hthread : p.HasThread t) :
    Sat QueueExit (fun r => ListsSound r.1) (p.threadDelayedStartInternal t delay now start) := by
  unfold threadDelayedStartInternal
  refine Sat.ite (fun _ => ?_) fun _ => ?_
  · exact (by decide : Assertion.threadDelayedStart ∉ stateAssertions)
  refine Sat.ite (fun _ => h) fun hstopped => ?_
  rw [not_not] at hstopped
  refine Sat.ite (fun _ => h) fun _ => ?_
  have hreset : ListsSound (p.resetStarted t) := h.resetStarted hstopped
  have hthread' : (p.resetStarted t).HasThread t := hthread
  have hstopped' : ((p.resetStarted t).threads t).state = .stopped := by
    rw [resetStarted_threads, Function.update_self]
    exact hstopped
  obtain ⟨hout, hinactive, hfree, hdonated⟩ := hreset.sound.stopped_free hthread' hstopped'
  refine Sat.ite (fun hmode => ?_) fun hmode => ?_
  · have hdelayed : ListsSound ((p.resetStarted t).updateSched t fun th => { th with
        delayedTime := delay }) := hreset.updateSched rfl rfl rfl rfl
    have hmoves : Moves t ((p.resetStarted t).updateSched t fun th => { th with
        delayedTime := delay }) (((p.resetStarted t).updateSched t fun th =>
          { th with delayedTime := delay }).setState t .waiting) := moves_setState
    have hstate : ((((p.resetStarted t).updateSched t fun th =>
        { th with delayedTime := delay }).setState t .waiting).threads t).state = .waiting := by
      simp [setState]
    refine ⟨(hmoves.sound (hdelayed.sound.except t)).settle (iff_of_false hout ?_)
      ((hmoves.sound (hdelayed.sound.except t)).pairwise_of_notMem hout) ?_,
        hdelayed.placed.moves hmoves ?_⟩
    · exact fun he => hmode he.1
    · exact {
        delayed := fun hd => absurd hd hinactive
        resumes := fun hd => absurd hd hinactive
        linked := by
          intro _ hl
          simp only [setState, updateThread, onSections, updateSched_sched,
            Function.update_self] at hl
          exact absurd hfree hl
        donated := by
          intro _ hf
          exact absurd (hmoves.firstDonator.trans hdonated) hf
        waiting := fun _ _ => hthread }
    · intro _
      rw [hstate]
      exact ⟨by simp, fun ht => absurd ht (Nat.pos_iff_ne_zero.mp hthread.1), hthread.2.2⟩
  · rw [not_not] at hmode
    apply sat_returning
    generalize TimeArith.kernel.unsigned _ = next
    have harmed : ListsSound (((p.resetStarted t).setNextActivation t next).setStartDeadline t
        (p.startTime t delay now start)) :=
      hreset.setNextActivation.setStartDeadline
    generalize hr : ((p.resetStarted t).setNextActivation t next).setStartDeadline t
      (p.startTime t delay now start) = r at harmed ⊢
    have hsections : r.toSectionSystem = (p.resetStarted t).toSectionSystem := by
      rw [← hr, setStartDeadline_same.1, setNextActivation_same.1]
    have hmode' : r.mode = .normal := by
      rw [← hr, setStartDeadline_same.2, setNextActivation_same.2]
      exact hmode
    have hthread'' : r.HasThread t := by
      rw [hsections]
      exact hthread'
    obtain ⟨hout', hinactive', hfree', -⟩ := harmed.sound.stopped_free hthread'' (by
      rw [hsections]
      exact hstopped')
    refine Sat.ite (fun _ => ?_) fun _ => ?_
    · exact harmed.moves hmode' (threadStart_sound (harmed.sound.except t) hout' hmode' hthread''
        hinactive' hfree')
    · rcases threadWaitTimed_sound (p.startTime t delay now start)
        (harmed.sound.except t) hmode' hthread'' with he | hok
      · rw [he]
        exact (by decide : Assertion.threadWaitTimed ∉ stateAssertions)
      · exact harmed.moves hmode' hok

theorem withThread_sat {id : Nat} {f : Nat → Except PartitionExit (ArincPartition × PokErrno)}
    (h : ListsSound p) (hf : p.HasThread id → Sat QueueExit (fun r => ListsSound r.1) (f id)) :
    Sat QueueExit (fun r => ListsSound r.1) (p.withThread id f) := by
  unfold withThread
  exact Sat.ite (fun hid => hf hid) fun _ => h

theorem pokThreadDelayedStart_sound {id : Nat} {delay now start : Int} (h : ListsSound p) :
    Sat QueueExit (fun r => ListsSound r.1) (p.pokThreadDelayedStart id delay now start) := by
  apply withThread_sat h
  intro hid
  exact Sat.ite (fun _ => h) fun _ => threadDelayedStartInternal_sound h hid

/-! SET_PRIORITY and yield -/

theorem threadYield_init (h : p.eligibleThreads = []) : p.threadYield t = .ok p := by
  rw [threadYield, if_neg (by simp [h])]

theorem ListsSound.threadYield (h : ListsSound p) : Sat QueueExit ListsSound (p.threadYield t) := by
  by_cases hmode : p.mode = .normal
  · exact h.moves hmode (threadYield_sound (h.sound.except t) (h.sound.eligible t (by simp))
      (h.sound.kept t))
  · rw [threadYield_init (h.sound.eligible_nil hmode)]
    exact h

theorem pokThreadSetPriority_sound {id priority : Nat} (h : ListsSound p) :
    Sat QueueExit (fun r => ListsSound r.1) (p.pokThreadSetPriority id priority) := by
  apply withThread_sat h
  intro hid
  refine Sat.ite (fun _ => h) fun _ => Sat.ite (fun _ => h) fun _ => sat_returning ?_
  have hset : SameBut (some id) p (p.updateSched id fun th => { th with priority }) :=
    sameBut_updateSched rfl (by simp)
  have hplaced : Placed (p.updateSched id fun th => { th with priority }) :=
    h.placed.same rfl rfl rfl rfl
  have hkept := h.sound.kept id
  have heligible : id ∈ p.eligibleThreads ↔
      (p.updateSched id fun th => { th with priority }).Eligible id := by
    rw [h.sound.eligible id (by simp)]
    simp only [Eligible, updateSched_sched, Function.update_self]
    rfl
  have hkept' : Kept id (p.updateSched id fun th => { th with priority }) := {
    delayed := hkept.delayed
    resumes := by
      simp only [updateSched_sched, Function.update_self]
      exact hkept.resumes
    linked := by
      simp only [updateSched_sched, Function.update_self]
      exact hkept.linked
    donated := hkept.donated
    waiting := hkept.waiting }
  by_cases hmode : p.mode = .normal
  · obtain ⟨q, hq, hmoves, hsound⟩ := threadYield_sound ((h.sound.except id).same hset) heligible hkept'
    rw [hq]
    exact ⟨hsound, hplaced.moves_normal hmoves hmode⟩
  · have hnil : (p.updateSched id fun th => { th with priority }).eligibleThreads = [] :=
      h.sound.eligible_nil hmode
    rw [threadYield_init hnil]
    have hout : id ∉ (p.updateSched id fun th => { th with priority }).eligibleThreads := by
      simp [hnil]
    exact ⟨((h.sound.except id).same hset).settle heligible
      (((h.sound.except id).same hset).pairwise_of_notMem hout) hkept', hplaced⟩

/-! RESUME and SUSPEND -/

theorem pokThreadResume_sound {id : Nat} (h : ListsSound p) :
    Sat QueueExit (fun r => ListsSound r.1) (p.pokThreadResume c id) := by
  apply withThread_sat h
  intro hid
  refine Sat.ite (fun _ => h) fun _ => Sat.ite (fun _ => h) fun _ => Sat.ite (fun _ => h) fun _ =>
    Sat.ite (fun _ => h) fun hs => sat_returning ?_
  obtain ⟨q, hq, hmoves, hsound, hthreads⟩ := threadResume_sound h.sound hid (by simpa using hs)
    fun hmode => (h.placed.init hmode id hid).1
  rw [hq]
  refine ⟨hsound, h.placed.moves hmoves ?_⟩
  intro hmode
  rw [hthreads hmode]
  exact ⟨(h.placed.init hmode id hid).1, fun h0 => absurd h0 (Nat.pos_iff_ne_zero.mp hid.1),
    hid.2.2⟩

theorem pokThreadSuspendTarget_sound {id : Nat} (h : ListsSound p) :
    Sat QueueExit (fun r => ListsSound r.1) (p.pokThreadSuspendTarget c id) := by
  apply withThread_sat h
  intro hid
  refine Sat.ite (fun _ => h) fun _ => Sat.ite (fun _ => h) fun _ => Sat.ite (fun _ => h) fun _ =>
    Sat.ite (fun _ => h) fun _ => Sat.ite (fun _ => h) fun _ => ?_
  refine ⟨threadSuspend_sound h.sound, h.placed.moves threadSuspend_moves ?_⟩
  intro hmode
  have hthreads : (p.threadSuspend id).threads = p.threads := by
    simp [threadSuspend, threadSetUneligible, setSuspended, updateSched]
  rw [hthreads]
  exact ⟨(h.placed.init hmode id hid).1, fun h0 => absurd h0 (Nat.pos_iff_ne_zero.mp hid.1),
    hid.2.2⟩

theorem pokThreadSuspend_sound {time now : Int} (h : ListsSound p) (hc : Caller p c) :
    Sat QueueExit (fun r => ListsSound r.1) (p.pokThreadSuspend c time now) := by
  refine Sat.ite (fun _ => h) fun _ => hc.sat_waiting_allowed (by simpa using h) ?_
  intro hmode hthread
  have hsuspended : ListsSound (p.threadSuspend c) :=
    ⟨threadSuspend_sound h.sound, h.placed.moves_normal threadSuspend_moves hmode⟩
  rw [if_neg (by simp)]
  refine Sat.ite (fun _ => h) fun _ => Sat.ite (fun _ => hsuspended) fun _ => sat_returning ?_
  apply hsuspended.moves ((threadSuspend_moves (t := c)).mode.trans hmode)
  apply threadSuspendTimed_sound hsuspended.sound ((threadSuspend_moves (t := c)).mode.trans hmode)
    ((threadSuspend_moves (t := c)).hasThread.mpr hthread)
  simpa [threadSuspend, threadSetUneligible, setSuspended] using (hc.free h.sound).2

/-! The calls that wait -/

theorem threadWaitCommon_sound {duration now : Int} (h : SoundBut (some t) p) (hp : Placed p)
    (hmode : p.mode = .normal) (hthread : p.HasThread t)
    (hinactive : ¬ p.DelayedEventActive t .delayed) :
    Sat QueueExit ListsSound (p.threadWaitCommon t duration now) := by
  have hmoves : ∀ m : Except PartitionExit ArincPartition,
      (∃ q, m = .ok q ∧ Moves t p q ∧ SoundBut none q) → Sat QueueExit ListsSound m := by
    rintro m ⟨q, rfl, hmoves, hsound⟩
    exact ⟨hsound, hp.moves_normal hmoves hmode⟩
  unfold threadWaitCommon
  refine Sat.ite (fun _ => ?_) fun _ => Sat.ite (fun _ => ?_) fun _ => ?_
  · exact (by decide : Assertion.threadWaitCommon ∉ stateAssertions)
  · exact hmoves _ (threadWait_sound h hmode hthread hinactive)
  · rcases threadWaitTimed_sound (TimeArith.kernel.add now duration) h hmode hthread with he | hok
    · rw [he]
      exact (by decide : Assertion.threadWaitTimed ∉ stateAssertions)
    · exact hmoves _ hok

theorem pokThreadSleep_sound {time now : Int} (h : ListsSound p) (hc : Caller p c) :
    Sat QueueExit (fun r => ListsSound r.1) (p.pokThreadSleep c time now) := by
  refine hc.sat_waiting_allowed (by simpa using h) ?_
  intro hmode hthread
  rw [if_neg (by simp)]
  refine Sat.ite (fun _ => sat_returning h.threadYield) fun _ => sat_returning ?_
  exact threadWaitCommon_sound (h.sound.except c) h.placed hmode hthread (hc.free h.sound).1

theorem pokPortWait_sound {port : Nat} {sending byPriority : Bool} {timeout now : Int}
    (h : ListsSound p) (hc : Caller p c) :
    Sat QueueExit (fun r => ListsSound r.1) (p.pokPortWait c port sending timeout now byPriority) := by
  refine Sat.ite (fun _ => h) fun _ => hc.sat_waiting_allowed (by simpa using h) ?_
  intro hmode hthread
  obtain ⟨hinactive, hfree⟩ := hc.free h.sound
  rw [if_neg (by simp)]
  apply sat_returning
  obtain ⟨q, hq⟩ : ∃ q, p.threadWqAddCommon port c byPriority = .ok q :=
    ⟨_, by rw [threadWqAddCommon, if_neg (by simpa using hfree)]⟩
  obtain ⟨hmoves, hevents⟩ := moves_threadWqAddCommon hc.used hq
  rw [hq]
  apply threadWaitCommon_sound (hmoves.sound (h.sound.except c))
    (h.placed.moves_normal hmoves hmode) (hmoves.mode.trans hmode) (hmoves.hasThread.mpr hthread)
  intro hd
  exact hinactive (by simpa only [DelayedEventActive, hevents] using hd)

theorem pokSchedEndPeriod_sound (h : ListsSound p) (hc : Caller p c) :
    Sat QueueExit (fun r => ListsSound r.1) (p.pokSchedEndPeriod c) := by
  refine Sat.ite (fun _ => h) fun _ => hc.sat_waiting_allowed (by simpa using h) ?_
  intro hmode hthread
  rw [if_neg (by simp)]
  apply sat_returning
  generalize TimeArith.kernel.add _ (p.sched c).period = next
  have hnext : ListsSound (p.updateSched c fun th => { th with
      nextActivation := TimeArith.kernel.unsigned next }) :=
    h.updateSched rfl rfl rfl rfl
  rcases threadWaitTimed_sound next (hnext.sound.except c) hmode hthread with he | hok
  · rw [he]
    exact (by decide : Assertion.threadWaitTimed ∉ stateAssertions)
  · exact (hnext.moves hmode hok).map fun _ hp => hp.threadSetDeadline

theorem pokSchedReplenish_sound {budget now : Int} (h : ListsSound p) :
    Sat QueueExit (fun r => ListsSound r.1) (p.pokSchedReplenish c budget now) := by
  unfold pokSchedReplenish
  refine Sat.ite (fun _ => h) fun _ => Sat.ite (fun _ => h) fun _ => Sat.ite (fun _ => h) fun _ =>
    Sat.ite (fun _ => Sat.ite (fun _ => h) fun _ => ?_) fun _ => Sat.ite (fun _ => h) fun _ => ?_
  · exact h.delayedEventRemove
  · exact h.threadSetDeadline

end ArincPartition

end Chpok
