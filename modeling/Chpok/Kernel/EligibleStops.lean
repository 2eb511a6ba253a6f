import Chpok.Kernel.EligibleCalls
import Chpok.Kernel.ThreadSelect

/-! The calls that stop threads and pass on the execution time of their callers, those of
sections, of errors and of the preemption lock keep the lists of threads too. -/

namespace Chpok

namespace ArincPartition

open Outcome

variable {p q : ArincPartition} {t u c : Nat} {hm : PartitionHm}

/-- What the sections may change of the threads: no state, and the links only among threads. -/
structure KeepsLists (p : ArincPartition) (s : SectionSystem) : Prop where
  used : s.nthreadsUsed = p.nthreadsUsed
  error : s.threadError = p.threadError
  current : p.mode = .normal → s.recheckNeeded = false → ∀ c, s.threadCurrent = some c →
    0 < c ∧ c < p.nthreadsUsed
  main : p.mode ≠ .normal → ∀ c, s.threadCurrent = some c → c = 0
  state : ∀ u, (s.threads u).state = (p.threads u).state
  init : p.mode ≠ .normal → ∀ u, p.HasThread u →
    (s.threads u).msectionCount = 0 ∧ (s.threads u).msectionEntering = none
  undonated : p.mode ≠ .normal → ∀ u < p.nthreadsUsed, (s.threads u).donateTarget = none ∧
    (s.threads u).firstDonator = none
  donated : ∀ u < p.nthreadsUsed, (s.threads u).firstDonator ≠ none →
    p.HasThread u ∧ (p.threads u).state ≠ .stopped
  target : ∀ u < p.nthreadsUsed, ∀ d, (s.threads u).donateTarget = some d →
    0 < d ∧ d < p.nthreadsUsed
  firstDonator : ∀ u < p.nthreadsUsed, ∀ d, (s.threads u).firstDonator = some d →
    d < p.nthreadsUsed
  nextDonator : ∀ u < p.nthreadsUsed, ∀ d, (s.threads u).nextDonator = some d →
    d < p.nthreadsUsed

theorem hasThread_onSections {s : SectionSystem} (hused : s.nthreadsUsed = p.nthreadsUsed)
    (herror : s.threadError = p.threadError) (u : Nat) :
    (p.onSections fun _ => s).HasThread u ↔ p.HasThread u := by
  simp only [SectionSystem.HasThread, onSections, hused, herror]

theorem SoundBut.switchSections {s : SectionSystem} (h : SoundBut none p) (hs : KeepsLists p s) :
    SoundBut none (p.onSections fun _ => s) := by
  have hthread := hasThread_onSections hs.used hs.error
  have heligible : ∀ u, (p.onSections fun _ => s).Eligible u ↔ p.Eligible u := by
    intro u
    simp only [Eligible, hthread]
    simp only [onSections, hs.state]
  have hwaits : ∀ u, (p.onSections fun _ => s).Waits u ↔ p.Waits u := by
    intro u
    simp only [Waits, hthread]
    simp only [onSections, hs.state]
  exact {
    nodup := h.nodup
    eligible := fun u hu => (h.eligible u hu).trans (heligible u).symm
    order := h.order
    arrived := h.arrived
    delayed := fun u hu hd => (hwaits u).mpr (h.delayed u hu hd)
    resumes := h.resumes
    unique := h.unique
    linked := fun u hu hlt hl => (hwaits u).mpr (h.linked u hu (hs.used ▸ hlt) hl)
    waiters := by
      intro port u
      simp only [onSections, hs.used]
      exact h.waiters port u
    waitersNodup := h.waitersNodup
    donated := by
      intro u _ hlt hf
      rw [hthread]
      simp only [onSections, hs.state]
      exact hs.donated u (hs.used ▸ hlt) hf
    waiting := by
      intro u hu hlt hw
      rw [hthread]
      simp only [onSections, hs.used, hs.state] at hlt hw
      exact h.waiting u hu hlt hw }

theorem Placed.switchSections {s : SectionSystem} (h : Placed p) (hs : KeepsLists p s) :
    Placed (p.onSections fun _ => s) where
  positive := hs.used ▸ h.positive
  current := by
    simp only [onSections, hs.used]
    exact hs.current
  main := by
    intro hmode
    simp only [onSections, hs.state]
    exact ⟨hs.main hmode, (h.main hmode).2⟩
  locked := by
    simp only [onSections, hs.used]
    exact h.locked
  error := by
    simp only [onSections, hs.used, hs.error]
    exact h.error
  target := by
    simp only [onSections, hs.used]
    exact hs.target
  firstDonator := by
    simp only [onSections, hs.used]
    exact hs.firstDonator
  nextDonator := by
    simp only [onSections, hs.used]
    exact hs.nextDonator
  errorStopped := by
    simp only [onSections, hs.error, hs.state]
    exact h.errorStopped
  init := by
    intro hmode u hu
    rw [hasThread_onSections hs.used hs.error] at hu
    refine ⟨?_, hs.init hmode u hu⟩
    simpa only [onSections, hs.state] using (h.init hmode u hu).1
  undonated := by
    intro hmode u hu
    simp only [onSections, hs.used] at hu
    exact hs.undonated hmode u hu

theorem ListsSound.switchSections {s : SectionSystem} (h : ListsSound p) (hs : KeepsLists p s) :
    ListsSound (p.onSections fun _ => s) :=
  ⟨h.sound.switchSections hs, h.placed.switchSections hs⟩

theorem Placed.stays {s : SectionSystem} (h : Placed p) (hcurrent : s.threadCurrent = p.threadCurrent)
    (hrecheck : p.recheckNeeded = true → s.recheckNeeded = true) :
    (p.mode = .normal → s.recheckNeeded = false → ∀ c, s.threadCurrent = some c →
      0 < c ∧ c < p.nthreadsUsed) ∧
    (p.mode ≠ .normal → ∀ c, s.threadCurrent = some c → c = 0) := by
  rw [hcurrent]
  refine ⟨?_, fun hmode => (h.main hmode).1⟩
  intro hmode hr
  apply h.current hmode
  by_contra hne
  rw [hrecheck (by simpa using hne)] at hr
  cases hr

/-- The links between threads are left alone too. -/
theorem ListsSound.sections_same {s : SectionSystem} (h : ListsSound p)
    (hused : s.nthreadsUsed = p.nthreadsUsed) (herror : s.threadError = p.threadError)
    (hcurrent : s.threadCurrent = p.threadCurrent)
    (hrecheck : p.recheckNeeded = true → s.recheckNeeded = true)
    (hthreads : ∀ u, (s.threads u).state = (p.threads u).state ∧
      (s.threads u).donateTarget = (p.threads u).donateTarget ∧
      (s.threads u).firstDonator = (p.threads u).firstDonator ∧
      (s.threads u).nextDonator = (p.threads u).nextDonator)
    (hinit : p.mode ≠ .normal → ∀ u, p.HasThread u →
      (s.threads u).msectionCount = (p.threads u).msectionCount ∧
        (s.threads u).msectionEntering = (p.threads u).msectionEntering) :
    ListsSound (p.onSections fun _ => s) := by
  obtain ⟨hcurrent', hmain⟩ := h.placed.stays hcurrent hrecheck
  refine h.switchSections ⟨hused, herror, hcurrent', hmain, fun u => (hthreads u).1, ?_, ?_, ?_, ?_,
    ?_, ?_⟩
  · intro hmode u hu
    obtain ⟨-, hcount, hentering⟩ := h.placed.init hmode u hu
    exact ⟨(hinit hmode u hu).1.trans hcount, (hinit hmode u hu).2.trans hentering⟩
  · intro hmode u hu
    rw [(hthreads u).2.1, (hthreads u).2.2.1]
    exact h.placed.undonated hmode u hu
  · intro u hu hf
    rw [(hthreads u).2.2.1] at hf
    exact h.sound.donated u (by simp) hu hf
  · intro u hu d hd
    rw [(hthreads u).2.1] at hd
    exact h.placed.target u hu d hd
  · intro u hu d hd
    rw [(hthreads u).2.2.1] at hd
    exact h.placed.firstDonator u hu d hd
  · intro u hu d hd
    rw [(hthreads u).2.2.2] at hd
    exact h.placed.nextDonator u hu d hd

theorem ListsSound.localInvalidate (h : ListsSound p) : ListsSound p.localInvalidate :=
  h.sections_same rfl rfl rfl (fun _ => rfl) (fun _ => ⟨rfl, rfl, rfl, rfl⟩)
    fun _ _ _ => ⟨rfl, rfl⟩

/-- The program of the calling thread goes on, or what only its sections read of it. -/
theorem ListsSound.updateCaller {f : SectionThread → SectionThread} (h : ListsSound p)
    (hc : p.mode ≠ .normal → c = 0)
    (hstate : (f (p.threads c)).state = (p.threads c).state)
    (htarget : (f (p.threads c)).donateTarget = (p.threads c).donateTarget)
    (hfirst : (f (p.threads c)).firstDonator = (p.threads c).firstDonator)
    (hnext : (f (p.threads c)).nextDonator = (p.threads c).nextDonator) :
    ListsSound (p.updateThread c f) := by
  apply h.sections_same (s := p.toSectionSystem.updateThread c f) rfl rfl rfl (fun h => h)
  · intro u
    change ((p.updateThread c f).threads u).state = _ ∧
      ((p.updateThread c f).threads u).donateTarget = _ ∧
        ((p.updateThread c f).threads u).firstDonator = _ ∧
          ((p.updateThread c f).threads u).nextDonator = _
    rw [updateThread_threads]
    by_cases hu : u = c
    · subst hu
      rw [Function.update_self]
      exact ⟨hstate, htarget, hfirst, hnext⟩
    · rw [Function.update_of_ne hu]
      exact ⟨rfl, rfl, rfl, rfl⟩
  · intro hmode u hu
    change ((p.updateThread c f).threads u).msectionCount = _ ∧
      ((p.updateThread c f).threads u).msectionEntering = _
    rw [updateThread_threads]
    have hne : u ≠ c := by
      rw [hc hmode]
      exact Nat.pos_iff_ne_zero.mp hu.1
    rw [Function.update_of_ne hne]
    exact ⟨rfl, rfl⟩

/-! STOP -/

/-- The thread `t` gets a donator, or loses it. -/
theorem ListsSound.setDonators {f : SectionThread → SectionThread} (h : ListsSound p)
    (hmode : p.mode = .normal) (hthread : p.HasThread t) (hstopped : (p.threads t).state ≠ .stopped)
    (hstate : (f (p.threads t)).state = (p.threads t).state)
    (htarget : (f (p.threads t)).donateTarget = (p.threads t).donateTarget)
    (hfirst : ∀ d, (f (p.threads t)).firstDonator = some d → d < p.nthreadsUsed)
    (hnext : ∀ d, (f (p.threads t)).nextDonator = some d → d < p.nthreadsUsed) :
    ListsSound (p.updateThread t f) := by
  have hother : ∀ u, u ≠ t → (p.updateThread t f).threads u = p.threads u := by
    intro u hu
    rw [updateThread_threads, Function.update_of_ne hu]
  have hself : (p.updateThread t f).threads t = f (p.threads t) := by
    rw [updateThread_threads, Function.update_self]
  refine h.switchSections (s := p.toSectionSystem.updateThread t f) ⟨rfl, rfl, h.placed.current,
    fun hne => absurd hmode hne, ?_, fun hne => absurd hmode hne, fun hne => absurd hmode hne,
    ?_, ?_, ?_, ?_⟩
  · intro u
    by_cases hu : u = t
    · subst hu
      exact (congrArg SectionThread.state hself).trans hstate
    · exact congrArg SectionThread.state (hother u hu)
  · intro u hlt hf
    by_cases hu : u = t
    · subst hu
      exact ⟨hthread, hstopped⟩
    · exact h.sound.donated u (by simp) hlt (by rwa [← hother u hu])
  · intro u hlt d hd
    by_cases hu : u = t
    · subst hu
      exact h.placed.target u hlt d (htarget ▸ (congrArg SectionThread.donateTarget hself) ▸ hd)
    · exact h.placed.target u hlt d ((congrArg SectionThread.donateTarget (hother u hu)) ▸ hd)
  · intro u hlt d hd
    by_cases hu : u = t
    · subst hu
      exact hfirst d ((congrArg SectionThread.firstDonator hself) ▸ hd)
    · exact h.placed.firstDonator u hlt d ((congrArg SectionThread.firstDonator (hother u hu)) ▸ hd)
  · intro u hlt d hd
    by_cases hu : u = t
    · subst hu
      exact hnext d ((congrArg SectionThread.nextDonator hself) ▸ hd)
    · exact h.placed.nextDonator u hlt d ((congrArg SectionThread.nextDonator (hother u hu)) ▸ hd)

/-- The caller `c` becomes a donator. -/
theorem ListsSound.donate {target : Nat} {next : Option Nat} (h : ListsSound p)
    (hmode : p.mode = .normal) (htarget : 0 < target ∧ target < p.nthreadsUsed) (hnext : ∀ d, next = some d →
      d < p.nthreadsUsed) : ListsSound (p.donate c target next) := by
  have hother : ∀ u, u ≠ c → (p.donate c target next).threads u = p.threads u := by
    intro u hu
    exact Function.update_of_ne hu _ _
  have hself : (p.donate c target next).threads c =
      { p.threads c with donateTarget := some target, nextDonator := next } :=
    Function.update_self _ _ _
  have hsame : ∀ u, ((p.donate c target next).threads u).state = (p.threads u).state ∧
      ((p.donate c target next).threads u).firstDonator = (p.threads u).firstDonator := by
    intro u
    by_cases hu : u = c
    · subst hu
      rw [hself]
      exact ⟨rfl, rfl⟩
    · rw [hother u hu]
      exact ⟨rfl, rfl⟩
  refine h.switchSections (s := p.toSectionSystem.donate c target next) ⟨rfl, rfl,
    h.placed.current, fun hne => absurd hmode hne, fun u => (hsame u).1,
    fun hne => absurd hmode hne, fun hne => absurd hmode hne, ?_, ?_, ?_, ?_⟩
  · intro u hlt hf
    exact h.sound.donated u (by simp) hlt ((hsame u).2 ▸ hf)
  · intro u hlt d hd
    change ((p.donate c target next).threads u).donateTarget = some d at hd
    by_cases hu : u = c
    · subst hu
      rw [hself] at hd
      obtain rfl := Option.some.inj hd
      exact htarget
    · rw [hother u hu] at hd
      exact h.placed.target u hlt d hd
  · intro u hlt d hd
    exact h.placed.firstDonator u hlt d ((hsame u).2 ▸ hd)
  · intro u hlt d hd
    change ((p.donate c target next).threads u).nextDonator = some d at hd
    by_cases hu : u = c
    · subst hu
      rw [hself] at hd
      exact hnext d hd
    · rw [hother u hu] at hd
      exact h.placed.nextDonator u hlt d hd

theorem ListsSound.setWaitResult {waitResult : WaitResult} (h : ListsSound p) :
    ListsSound (p.setWaitResult t waitResult) := by
  have hsame : ∀ u, ((p.setWaitResult t waitResult).threads u).state = (p.threads u).state ∧
      ((p.setWaitResult t waitResult).threads u).donateTarget = (p.threads u).donateTarget ∧
      ((p.setWaitResult t waitResult).threads u).firstDonator = (p.threads u).firstDonator ∧
      ((p.setWaitResult t waitResult).threads u).nextDonator = (p.threads u).nextDonator ∧
      ((p.setWaitResult t waitResult).threads u).msectionCount = (p.threads u).msectionCount ∧
      ((p.setWaitResult t waitResult).threads u).msectionEntering =
        (p.threads u).msectionEntering := by
    intro u
    rw [ArincPartition.setWaitResult, updateThread_threads]
    by_cases hu : u = t
    · subst hu
      rw [Function.update_self]
      exact ⟨rfl, rfl, rfl, rfl, rfl, rfl⟩
    · rw [Function.update_of_ne hu]
      exact ⟨rfl, rfl, rfl, rfl, rfl, rfl⟩
  exact h.sections_same (s := (p.setWaitResult t waitResult).toSectionSystem) rfl rfl rfl
    (fun h => h) (fun u => ⟨(hsame u).1, (hsame u).2.1, (hsame u).2.2.1, (hsame u).2.2.2.1⟩)
    fun _ u _ => (hsame u).2.2.2.2

theorem threadWakeUp_lists (h : ListsSound p) (hw : p.Waits t) :
    ∃ q, p.threadWakeUp t = .ok q ∧ Moves t p q ∧ ListsSound q := by
  obtain ⟨q, hq, hmoves, hsound⟩ := threadWakeUp_sound (h.sound.except t)
    (notMem_of_not_eligible h.sound hw.not_eligible) hw
  exact ⟨q, hq, hmoves, hsound, h.placed.moves_normal hmoves hw.1⟩

theorem threadStop_lists (h : ListsSound p) (hstate : (p.threads t).state ≠ .stopped)
    (hdonated : (p.threads t).firstDonator = none) (herror : p.mode ≠ .normal →
      p.threadError ≠ some t) :
    ∃ q, p.threadStop t = .ok q ∧ Moves t p q ∧ ListsSound q := by
  obtain ⟨q, hq, hmoves, hsound, hstopped, -⟩ := threadStop_sound (h.sound.except t) hstate hdonated
  refine ⟨q, hq, hmoves, hsound, h.placed.moves hmoves ?_⟩
  intro hmode
  rw [hstopped]
  exact ⟨by simp, fun _ => rfl, herror hmode⟩

theorem interruptWait_lists (h : ListsSound p) (hthread : p.HasThread t)
    (hcount : (p.threads t).msectionCount ≠ 0) :
    Sat QueueExit (fun q => ListsSound q ∧ q.mode = .normal ∧ q.HasThread t ∧
      q.nthreadsUsed = p.nthreadsUsed ∧
      ((p.threads t).state ≠ .stopped → (q.threads t).state ≠ .stopped)) (p.interruptWait t) := by
  have hmode : p.mode = .normal := by
    by_contra hne
    exact hcount (h.placed.init hne t hthread).2.1
  unfold interruptWait
  by_cases hw : (p.threads t).state = .waiting
  · rw [if_pos hw]
    obtain ⟨q, hq, hmoves, hlists⟩ := threadWakeUp_lists h ⟨hmode, hthread, hw⟩
    have hstate := (threadWakeUp_state hq)
    rw [hq]
    refine ⟨hlists.setWaitResult, hmoves.mode.trans hmode, hmoves.hasThread.mpr hthread,
      hmoves.used, ?_⟩
    intro _
    simp [ArincPartition.setWaitResult, hstate]
  · rw [if_neg hw]
    exact ⟨h, hmode, hthread, rfl, fun hs => hs⟩

theorem pokThreadStopTarget_sound {id : Nat} (h : ListsSound p) (hc : Caller p c) :
    Sat QueueExit (fun r => ListsSound r.1) (p.pokThreadStopTarget c id) := by
  apply withThread_sat h
  intro hid
  refine Sat.ite (fun _ => h) fun hne => Sat.ite (fun _ => h) fun hstopped => ?_
  have hused : ∀ d, some c = some d → d < p.nthreadsUsed := by
    intro d hd
    obtain rfl := Option.some.inj hd
    exact hc.used
  cases htarget : (p.threads id).donateTarget with
  | some target =>
    -- The target is a donator itself; it gets the caller as its own donator.
    have hmode : p.mode = .normal := by
      by_contra hne
      have := (h.placed.undonated hne id hid.2.1).1
      rw [htarget] at this
      cases this
    apply ListsSound.localInvalidate
    refine ListsSound.donate ?_ hmode (h.placed.target id hid.2.1 target htarget)
      (h.placed.nextDonator id hid.2.1)
    apply h.setDonators hmode hid hstopped rfl rfl
    · intro d hd
      dsimp only at hd
      split_ifs at hd
      · exact hused d hd
      · exact h.placed.firstDonator id hid.2.1 d hd
    · exact hused
  | none =>
    dsimp only
    refine Sat.ite (fun hdonated => ?_) fun hfree => Sat.ite (fun hcount => ?_) fun _ => ?_
    · have hmode : p.mode = .normal := by
        by_contra hne
        exact hdonated (h.placed.undonated hne id hid.2.1).2
      apply ListsSound.localInvalidate
      refine ListsSound.donate ?_ hmode ⟨hid.1, hid.2.1⟩ (h.placed.firstDonator id hid.2.1)
      exact h.setDonators hmode hid hstopped rfl rfl hused (h.placed.nextDonator id hid.2.1)
    · apply sat_returning
      apply (interruptWait_lists h hid hcount).map
      rintro q ⟨hlists, hmode, hthread, hsame, hstate⟩
      apply ListsSound.localInvalidate
      refine ListsSound.donate ?_ hmode ⟨hthread.1, hthread.2.1⟩ (by simp)
      apply hlists.setDonators hmode hthread (hstate hstopped) rfl rfl
      · exact fun d hd => hsame ▸ hused d hd
      · exact hlists.placed.nextDonator id hthread.2.1
    · apply sat_returning
      obtain ⟨q, hq, -, hlists⟩ := threadStop_lists h hstopped (not_not.mp hfree)
        fun _ => hid.2.2
      rw [hq]
      exact hlists

/-! `jet_resched` -/

theorem ListsSound.checkReleased (h : ListsSound p) :
    ListsSound (p.onSections (·.checkReleased)) := by
  rcases onSections_checkReleased (p := p) with he | he
  · rwa [he]
  · rw [he]
    exact h.localInvalidate

/-- A donator does not donate any more, or is not in a list of donators. -/
theorem ListsSound.forgetLinks {f : SectionThread → SectionThread} (h : ListsSound p)
    (hstate : (f (p.threads t)).state = (p.threads t).state)
    (hcount : (f (p.threads t)).msectionCount = (p.threads t).msectionCount)
    (hentering : (f (p.threads t)).msectionEntering = (p.threads t).msectionEntering)
    (htarget : (f (p.threads t)).donateTarget = (p.threads t).donateTarget ∨
      (f (p.threads t)).donateTarget = none)
    (hfirst : (f (p.threads t)).firstDonator = (p.threads t).firstDonator ∨
      (f (p.threads t)).firstDonator = none)
    (hnext : (f (p.threads t)).nextDonator = (p.threads t).nextDonator ∨
      (f (p.threads t)).nextDonator = none) : ListsSound (p.updateThread t f) := by
  have hother : ∀ u, u ≠ t → (p.updateThread t f).threads u = p.threads u := by
    intro u hu
    rw [updateThread_threads, Function.update_of_ne hu]
  have hself : (p.updateThread t f).threads t = f (p.threads t) := by
    rw [updateThread_threads, Function.update_self]
  have hlink : ∀ {α : Type} (a : SectionThread → Option α),
      a (f (p.threads t)) = a (p.threads t) ∨ a (f (p.threads t)) = none → ∀ u d,
        a ((p.updateThread t f).threads u) = some d → a (p.threads u) = some d := by
    intro α a ha u d hd
    by_cases hu : u = t
    · subst hu
      rw [hself] at hd
      rcases ha with ha | ha
      · exact ha ▸ hd
      · rw [ha] at hd
        cases hd
    · rw [hother u hu] at hd
      exact hd
  have hgone : ∀ {α : Type} (a : SectionThread → Option α),
      a (f (p.threads t)) = a (p.threads t) ∨ a (f (p.threads t)) = none → ∀ u,
        a (p.threads u) = none → a ((p.updateThread t f).threads u) = none := by
    intro α a ha u hu
    cases hd : a ((p.updateThread t f).threads u) with
    | none => rfl
    | some d =>
      rw [hlink a ha u d hd] at hu
      cases hu
  obtain ⟨hcurrent, hmain⟩ := h.placed.stays (s := p.toSectionSystem.updateThread t f) rfl id
  refine h.switchSections (s := p.toSectionSystem.updateThread t f) ⟨rfl, rfl, hcurrent, hmain,
    ?_, ?_, ?_, ?_, ?_, ?_, ?_⟩
  · intro u
    by_cases hu : u = t
    · subst hu
      exact (congrArg SectionThread.state hself).trans hstate
    · exact congrArg SectionThread.state (hother u hu)
  · intro hmode u hthread
    obtain ⟨-, hcount', hentering'⟩ := h.placed.init hmode u hthread
    by_cases hu : u = t
    · subst hu
      exact ⟨((congrArg SectionThread.msectionCount hself).trans hcount).trans hcount',
        ((congrArg SectionThread.msectionEntering hself).trans hentering).trans hentering'⟩
    · exact ⟨(congrArg SectionThread.msectionCount (hother u hu)).trans hcount',
        (congrArg SectionThread.msectionEntering (hother u hu)).trans hentering'⟩
  · intro hmode u hlt
    obtain ⟨htarget', hfirst'⟩ := h.placed.undonated hmode u hlt
    exact ⟨hgone SectionThread.donateTarget htarget u htarget',
      hgone SectionThread.firstDonator hfirst u hfirst'⟩
  · intro u hlt hf
    obtain ⟨d, hd⟩ := Option.ne_none_iff_exists'.mp hf
    have hd' := hlink SectionThread.firstDonator hfirst u d hd
    exact h.sound.donated u (by simp) hlt (by simp [hd'])
  · exact fun u hlt d hd => h.placed.target u hlt d
      (hlink SectionThread.donateTarget htarget u d hd)
  · exact fun u hlt d hd => h.placed.firstDonator u hlt d
      (hlink SectionThread.firstDonator hfirst u d hd)
  · exact fun u hlt d hd => h.placed.nextDonator u hlt d
      (hlink SectionThread.nextDonator hnext u d hd)

theorem resumeDonator_lists (h : ListsSound p) (hlt : t < p.nthreadsUsed) :
    ∃ q, p.resumeDonator t = .ok q ∧ ListsSound q ∧ q.nthreadsUsed = p.nthreadsUsed := by
  have hfreed : ListsSound (p.updateThread t fun th => { th with donateTarget := none }) :=
    h.forgetLinks rfl rfl rfl (Or.inr rfl) (Or.inl rfl) (Or.inl rfl)
  unfold resumeDonator
  dsimp only
  generalize hseen : (if p.threadSelected = some t then
    (p.updateThread t fun th => { th with donateTarget := none }).localInvalidate
    else p.updateThread t fun th => { th with donateTarget := none }) = r
  have hr : ListsSound r ∧ r.nthreadsUsed = p.nthreadsUsed ∧
      r.threads = (p.updateThread t fun th => { th with donateTarget := none }).threads ∧
        r.threadError = p.threadError := by
    rw [← hseen]
    split_ifs
    · exact ⟨hfreed.localInvalidate, rfl, rfl, rfl⟩
    · exact ⟨hfreed, rfl, rfl, rfl⟩
  obtain ⟨hlists, hused, hthreads, herror⟩ := hr
  by_cases hfirst : (p.threads t).firstDonator = none
  · rw [if_pos hfirst]
    refine ⟨_, rfl, ?_, hused⟩
    exact hlists.forgetLinks rfl rfl rfl (Or.inl rfl) (Or.inl rfl) (Or.inr rfl)
  · obtain ⟨hthread, hstopped⟩ := h.sound.donated t (by simp) hlt hfirst
    rw [if_neg hfirst]
    have hcut : ListsSound (r.updateThread t fun th => { th with firstDonator := none }) :=
      hlists.forgetLinks rfl rfl rfl (Or.inl rfl) (Or.inr rfl) (Or.inl rfl)
    obtain ⟨q, hq, hmoves, hqlists⟩ := threadStop_lists (t := t) hcut
      (by simpa [hthreads] using hstopped) (by simp) (fun _ => herror ▸ hthread.2.2)
    rw [hq]
    refine ⟨_, rfl, ?_, hmoves.used.trans hused⟩
    exact hqlists.forgetLinks rfl rfl rfl (Or.inl rfl) (Or.inl rfl) (Or.inr rfl)

theorem resumeDonators_sound {fuel donator : Nat} (h : ListsSound p)
    (hlt : donator < p.nthreadsUsed) : Sat QueueExit ListsSound (resumeDonators fuel p donator) := by
  induction fuel generalizing p donator with
  | zero => exact (by decide : Assertion.jetResched ∉ stateAssertions)
  | succ fuel ih =>
    obtain ⟨q, hq, hlists, hused⟩ := resumeDonator_lists h hlt
    rw [resumeDonators, hq]
    dsimp only [Except.bind]
    cases hnext : (p.threads donator).nextDonator with
    | none => exact hlists
    | some next => exact ih hlists (hused ▸ h.placed.nextDonator donator hlt next hnext)

theorem jetResched_sound (h : ListsSound p) (hlt : c < p.nthreadsUsed) :
    Sat QueueExit ListsSound (p.jetResched c) := by
  unfold jetResched
  cases hfirst : (p.threads c).firstDonator with
  | none => exact h.checkReleased
  | some donator =>
    dsimp only
    refine Sat.ite (fun _ => ?_) fun _ => h.checkReleased
    obtain ⟨hthread, hstopped⟩ := h.sound.donated c (by simp) hlt (by simp [hfirst])
    have hchecked : (p.onSections (·.checkReleased)).threads = p.threads ∧
        (p.onSections (·.checkReleased)).nthreadsUsed = p.nthreadsUsed ∧
        (p.onSections (·.checkReleased)).threadError = p.threadError := by
      rcases onSections_checkReleased (p := p) with he | he
      · rw [he]
        exact ⟨rfl, rfl, rfl⟩
      · rw [he]
        exact ⟨rfl, rfl, rfl⟩
    have hcut : ListsSound ((p.onSections (·.checkReleased)).updateThread c fun th =>
        { th with firstDonator := none }) :=
      h.checkReleased.forgetLinks rfl rfl rfl (Or.inl rfl) (Or.inr rfl) (Or.inl rfl)
    obtain ⟨q, hq, hmoves, hlists⟩ := threadStop_lists (t := c) hcut
      (by simpa [hchecked.1] using hstopped) (by simp) (fun _ => hchecked.2.2 ▸ hthread.2.2)
    rw [hq]
    apply resumeDonators_sound hlists
    have hused : q.nthreadsUsed = p.nthreadsUsed := hmoves.used.trans hchecked.2.1
    rw [hused]
    exact h.placed.firstDonator c hlt donator hfirst

theorem leaveCheckFlags_sound (h : ListsSound p) (hc : Caller p c) :
    Sat QueueExit (fun r => ListsSound r.1) (p.leaveCheckFlags c) := by
  unfold leaveCheckFlags
  split
  · refine Sat.ite (fun _ => sat_returning ?_) fun _ => trivial
    apply (jetResched_sound h hc.used).map
    intro q hq
    exact hq.forgetLinks rfl rfl rfl (Or.inl rfl) (Or.inl rfl) (Or.inl rfl)
  · trivial

end ArincPartition

end Chpok
