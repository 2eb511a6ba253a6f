import Chpok.Kernel.ArincSystem
import Chpok.Kernel.MsectionFrame
import Chpok.Library.Outcome

/-! What the choice of a thread and the switch to it leave alone. Of the threads, only the
section that one of them waits for may change, and whether one has a context. -/

namespace Chpok

namespace SectionSystem

variable {s r : SectionSystem} {t u sec : Nat}

/-- Threads at most stop waiting for a section. -/
structure Selects (s r : SectionSystem) : Prop where
  used : r.nthreadsUsed = s.nthreadsUsed
  error : r.threadError = s.threadError
  recheck : r.recheckNeeded = s.recheckNeeded
  selected : r.threadSelected = s.threadSelected
  threads : ∀ u, r.threads u = s.threads u ∨ r.threads u = { s.threads u with msectionEntering := none }

theorem Selects.trans {r' : SectionSystem} (h : Selects s r) (h' : Selects r r') : Selects s r' where
  used := h'.used.trans h.used
  error := h'.error.trans h.error
  recheck := h'.recheck.trans h.recheck
  selected := h'.selected.trans h.selected
  threads u := by
    rcases h'.threads u with he' | he'
    · rw [he']
      exact h.threads u
    · rcases h.threads u with he | he
      · rw [he', he]
        exact Or.inr rfl
      · rw [he', he]
        exact Or.inr rfl

theorem selects_of_threads (hused : r.nthreadsUsed = s.nthreadsUsed)
    (herror : r.threadError = s.threadError) (hrecheck : r.recheckNeeded = s.recheckNeeded)
    (hselected : r.threadSelected = s.threadSelected) (hthreads : r.threads = s.threads) :
    Selects s r :=
  ⟨hused, herror, hrecheck, hselected, fun _ => Or.inl (by rw [hthreads])⟩

theorem selects_waitingSection (sec : Option Nat) : Selects s { s with waitingSection := sec } :=
  selects_of_threads rfl rfl rfl rfl rfl

theorem selects_clearWaiting : Selects s s.clearWaiting := by
  simp only [clearWaiting]
  split
  · exact selects_of_threads rfl rfl rfl rfl rfl
  · exact selects_of_threads rfl rfl rfl rfl rfl

theorem selects_markWaiting : Selects s s.markWaiting := by
  simp only [markWaiting]
  split
  · exact selects_of_threads rfl rfl rfl rfl rfl
  · exact selects_of_threads rfl rfl rfl rfl rfl

theorem selects_grant : Selects s (s.grant u sec) where
  used := rfl
  error := rfl
  recheck := rfl
  selected := rfl
  threads v := by
    by_cases hv : v = u
    · subst hv
      exact Or.inr grant_threads_self
    · exact Or.inl (grant_threads_ne hv)

/-- Another thread than the one that was looked for owns a section, and is runnable. -/
def OwnerOr (s : SectionSystem) (t u : Nat) : Prop :=
  u = t ∨ 0 < u ∧ u < s.nthreadsUsed ∧ (s.threads u).state = .runnable

theorem selectOwner_selects {attempts : Nat} {n : SectionSystem × Nat}
    (h : selectOwner attempts s t sec = some n) : Selects s n.1 ∧ s.OwnerOr t n.2 := by
  induction attempts generalizing s t sec with
  | zero =>
    rw [selectOwner] at h
    split_ifs at h with hfree
    · obtain rfl := Option.some.inj h
      exact ⟨selects_grant, Or.inl rfl⟩
    · split at h
      · cases h
      · split_ifs at h
  | succ attempts ih =>
    rw [selectOwner] at h
    split_ifs at h with hfree
    · obtain rfl := Option.some.inj h
      exact ⟨selects_grant, Or.inl rfl⟩
    · split at h
      · cases h
      · rename_i owner _
        split_ifs at h with hrunnable
        dsimp only at h
        have howner : s.OwnerOr t owner := Or.inr ⟨hrunnable.2.1, hrunnable.1, hrunnable.2.2⟩
        split at h
        · obtain rfl := Option.some.inj h
          exact ⟨selects_waitingSection _, howner⟩
        · obtain ⟨hselects, hn⟩ := ih h
          refine ⟨(selects_waitingSection _).trans hselects, ?_⟩
          rcases hn with he | hn
          · rw [he]
            exact howner
          · exact Or.inr hn

/-- The thread that the selected one donates to, or an owner that it waits for, is returned. -/
theorem selectThread_selects {selected : Option Nat} {n : SectionSystem × Option Nat}
    (h : s.selectThread selected = some n) :
    Selects { s with threadSelected := selected } n.1 ∧
      (∀ c, n.2 = some c →
        ∃ t, selected = some t ∧ s.OwnerOr ((s.threads t).donateTarget.getD t) c) := by
  have hclear : Selects { s with threadSelected := selected }
      { s.clearWaiting with threadSelected := selected } := by
    have h := selects_clearWaiting (s := s)
    exact ⟨h.used, h.error, h.recheck, rfl, h.threads⟩
  cases selected with
  | none =>
    simp only [selectThread] at h
    obtain rfl := Option.some.inj h
    exact ⟨hclear, fun c hc => by cases hc⟩
  | some t =>
    simp only [selectThread] at h
    split at h
    · obtain rfl := Option.some.inj h
      refine ⟨hclear, ?_⟩
      intro c hc
      exact ⟨t, rfl, Or.inl (Option.some.inj hc).symm⟩
    · obtain ⟨r, hr, rfl⟩ := Option.map_eq_some_iff.mp h
      obtain ⟨hselects, howner⟩ := selectOwner_selects hr
      refine ⟨(hclear.trans hselects).trans selects_markWaiting, ?_⟩
      intro c hc
      obtain rfl := Option.some.inj hc
      refine ⟨t, rfl, ?_⟩
      rcases howner with he | ⟨hpos, hlt, hstate⟩
      · exact Or.inl he
      · have hcleared := selects_clearWaiting (s := s)
        refine Or.inr ⟨hpos, hcleared.used ▸ hlt, ?_⟩
        rcases hcleared.threads r.2 with he | he
        · exact (congrArg SectionThread.state he).symm.trans hstate
        · exact (congrArg SectionThread.state he).symm.trans hstate

/-- The thread `c` goes on in user space. -/
structure GoesOn (c : Nat) (s r : SectionSystem) : Prop where
  used : r.nthreadsUsed = s.nthreadsUsed
  error : r.threadError = s.threadError
  current : r.threadCurrent = s.threadCurrent
  recheck : r.recheckNeeded = s.recheckNeeded
  selected : r.threadSelected = s.threadSelected
  others : ∀ u, u ≠ c → r.threads u = s.threads u
  state : (r.threads c).state = (s.threads c).state
  target : (r.threads c).donateTarget = (s.threads c).donateTarget
  firstDonator : (r.threads c).firstDonator = (s.threads c).firstDonator
  nextDonator : (r.threads c).nextDonator = (s.threads c).nextDonator
  entering : (r.threads c).msectionEntering = (s.threads c).msectionEntering

theorem goesOn_updateThread {f : SectionThread → SectionThread}
    (hstate : (f (s.threads t)).state = (s.threads t).state)
    (htarget : (f (s.threads t)).donateTarget = (s.threads t).donateTarget)
    (hfirst : (f (s.threads t)).firstDonator = (s.threads t).firstDonator)
    (hnext : (f (s.threads t)).nextDonator = (s.threads t).nextDonator)
    (hentering : (f (s.threads t)).msectionEntering = (s.threads t).msectionEntering) :
    GoesOn t s (s.updateThread t f) where
  used := rfl
  error := rfl
  current := rfl
  recheck := rfl
  selected := rfl
  others u hu := updateThread_threads_ne hu f
  state := by rw [updateThread_threads_self, hstate]
  target := by rw [updateThread_threads_self, htarget]
  firstDonator := by rw [updateThread_threads_self, hfirst]
  nextDonator := by rw [updateThread_threads_self, hnext]
  entering := by rw [updateThread_threads_self, hentering]

theorem GoesOn.of_updateSection {f : Msection → Msection} (h : GoesOn t (s.updateSection sec f) r) :
    GoesOn t s r :=
  ⟨h.used, h.error, h.current, h.recheck, h.selected, h.others, h.state, h.target,
    h.firstDonator, h.nextDonator, h.entering⟩

end SectionSystem

namespace ArincPartition

open Outcome

variable {p q : ArincPartition} {t u c : Nat} {choice : Option Nat}

/-- `p` after the switch to what was chosen. -/
structure Switched (choice : Option Nat) (p q : ArincPartition) : Prop where
  rest : q = { p with toSectionSystem := q.toSectionSystem }
  used : q.nthreadsUsed = p.nthreadsUsed
  error : q.threadError = p.threadError
  recheck : q.recheckNeeded = p.recheckNeeded
  selected : q.threadSelected = choice
  state : ∀ u, (q.threads u).state = (p.threads u).state
  target : ∀ u, (q.threads u).donateTarget = (p.threads u).donateTarget
  firstDonator : ∀ u, (q.threads u).firstDonator = (p.threads u).firstDonator
  nextDonator : ∀ u, (q.threads u).nextDonator = (p.threads u).nextDonator
  count : ∀ u, (q.threads u).msectionCount = (p.threads u).msectionCount
  entering : ∀ u, (p.threads u).msectionEntering = none → (q.threads u).msectionEntering = none
  current : ∀ c, q.threadCurrent = some c →
    ∃ t, choice = some t ∧ p.OwnerOr ((p.threads t).donateTarget.getD t) c

theorem selectAndSwitch_switched :
    Sat (fun e => e = .failed .selectThread) (Switched choice p) (p.selectAndSwitch choice) := by
  unfold selectAndSwitch liftSections
  split
  · rfl
  · rename_i s hs
    obtain ⟨n, hn, hswitch⟩ := Option.bind_eq_some_iff.mp hs
    obtain ⟨hselects, hcurrent⟩ := SectionSystem.selectThread_selects hn
    have hs : ∃ f : SectionThread → SectionThread, ∃ t : Nat,
        s = { n.1.updateThread t f with threadCurrent := n.2 } ∧
          (f = id ∨ f = fun th => { th with hasContext := true }) := by
      unfold SectionSystem.switchTo at hswitch
      split at hswitch
      · rename_i hnone
        obtain rfl := Option.some.inj hswitch
        refine ⟨id, 0, ?_, Or.inl rfl⟩
        rw [hnone, SectionSystem.updateThread, id, Function.update_eq_self]
      · rename_i t hsome
        split_ifs at hswitch
        obtain rfl := Option.some.inj hswitch
        exact ⟨_, t, by rw [hsome], Or.inr rfl⟩
    obtain ⟨f, t, rfl, hf⟩ := hs
    have hkeep : ∀ {α : Type} (a : SectionThread → α), (∀ th, a (f th) = a th) →
        (∀ th : SectionThread, a { th with msectionEntering := none } = a th) →
        ∀ u, a ((n.1.updateThread t f).threads u) = a (p.threads u) := by
      intro α a ha he u
      have hn : a (n.1.threads u) = a (p.threads u) := by
        rcases hselects.threads u with h | h
        · rw [h]
        · rw [h, he]
      by_cases hu : u = t
      · subst hu
        rw [SectionSystem.updateThread_threads_self, ha, hn]
      · rw [SectionSystem.updateThread_threads_ne hu, hn]
    have hsame : ∀ {α : Type} (a : SectionThread → α),
        (∀ th b, a { th with hasContext := b } = a th) → ∀ th, a (f th) = a th := by
      intro α a ha th
      rcases hf with rfl | rfl
      · rfl
      · exact ha th true
    exact {
      rest := rfl
      used := hselects.used
      error := hselects.error
      recheck := hselects.recheck
      selected := hselects.selected
      state := hkeep SectionThread.state (hsame _ fun _ _ => rfl) fun _ => rfl
      target := hkeep SectionThread.donateTarget (hsame _ fun _ _ => rfl) fun _ => rfl
      firstDonator := hkeep SectionThread.firstDonator (hsame _ fun _ _ => rfl) fun _ => rfl
      nextDonator := hkeep SectionThread.nextDonator (hsame _ fun _ _ => rfl) fun _ => rfl
      count := hkeep SectionThread.msectionCount (hsame _ fun _ _ => rfl) fun _ => rfl
      entering := by
        intro u hu
        have hn : (n.1.threads u).msectionEntering = none := by
          rcases hselects.threads u with h | h
          · rw [h]
            exact hu
          · rw [h]
        change ((n.1.updateThread t f).threads u).msectionEntering = none
        by_cases hut : u = t
        · subst hut
          rw [SectionSystem.updateThread_threads_self,
            hsame SectionThread.msectionEntering (fun _ _ => rfl), hn]
        · rw [SectionSystem.updateThread_threads_ne hut, hn]
      current := hcurrent }

/-! Functions of the sections that do no more to a partition than to have it rechecked -/

theorem checkReleased_cases (s : SectionSystem) :
    s.checkReleased = s ∨ s.checkReleased = s.invalidate := by
  unfold SectionSystem.checkReleased
  cases s.waitingSection with
  | none => exact Or.inl rfl
  | some sec => exact (ite_eq_or_eq _ _ _).symm

theorem onSections_checkReleased :
    p.onSections (·.checkReleased) = p ∨ p.onSections (·.checkReleased) = p.localInvalidate := by
  rcases checkReleased_cases p.toSectionSystem with he | he
  · left
    calc p.onSections (·.checkReleased) = { p with toSectionSystem := p.toSectionSystem.checkReleased } := rfl
      _ = p := by rw [he]
  · right
    calc p.onSections (·.checkReleased) = { p with toSectionSystem := p.toSectionSystem.checkReleased } := rfl
      _ = p.localInvalidate := by rw [he]; rfl

theorem onSections_msectionEnterHelper {sec : Nat} :
    p.onSections (·.msectionEnterHelper c sec) = p ∨
      p.onSections (·.msectionEnterHelper c sec) =
        (p.updateThread c fun th => { th with msectionEntering := some sec }).localInvalidate := by
  unfold onSections SectionSystem.msectionEnterHelper
  dsimp only
  split_ifs
  · exact Or.inr rfl
  · exact Or.inl rfl

theorem startErrorHandler_self (p : ArincPartition) (e : Nat) :
    (p.startErrorHandler e).threads e =
      { SectionSystem.resetContext (p.threads e) with state := .runnable } :=
  Function.update_self _ _ _

theorem startErrorHandler_ne (p : ArincPartition) {e : Nat} (hu : u ≠ e) :
    (p.startErrorHandler e).threads u = p.threads u :=
  Function.update_of_ne hu _ _

/-- What the rule of `sched_arinc` comes to. -/
inductive Ruled (p : ArincPartition) : ArincPartition × Option Nat → Prop
  | init (hmode : p.mode ≠ .normal) :
    Ruled p ({ p with isErrorHandler := false },
      if (p.threads 0).state = .stopped then none else some 0)
  | handler (e : Nat) (hmode : p.mode = .normal) (he : p.threadError = some e)
    (hruns : (p.threads e).state ≠ .stopped) : Ruled p ({ p with isErrorHandler := true }, some e)
  | start (e : Nat) (hmode : p.mode = .normal) (he : p.threadError = some e)
    (hstopped : (p.threads e).state = .stopped) (herrors : p.errorList ≠ []) :
    Ruled p (p.startErrorHandler e, some e)
  | normal (hmode : p.mode = .normal) (herrors : p.errorList = [])
    (hstopped : ∀ e, p.threadError = some e → (p.threads e).state = .stopped) :
    Ruled p ({ p with isErrorHandler := false }, p.normalRule)

theorem schedRule_ruled : Sat (fun e => e = .failed .schedArinc) (Ruled p) p.schedRule := by
  unfold schedRule
  split
  · rfl
  · rename_i hmode
    exact Ruled.init (by simp [hmode])
  · rename_i hmode
    exact Ruled.init (by simp [hmode])
  · rename_i hmode
    split
    · rename_i e he
      refine Sat.ite (fun hruns => ?_) fun hstopped => Sat.ite (fun herrors => ?_) fun hnone => ?_
      · exact Ruled.handler e hmode he hruns
      · exact Ruled.start e hmode he (not_not.mp hstopped) herrors
      · apply Ruled.normal hmode (not_not.mp hnone)
        intro e' he'
        rw [← Option.some.inj (he.symm.trans he')]
        exact not_not.mp hstopped
    · rename_i he
      refine Sat.ite (fun _ => rfl) fun hnone => ?_
      exact Ruled.normal hmode (not_not.mp hnone) (by simp [he])

theorem userStep_goesOn {e : SectionInput} {s : SectionSystem} (h : p.userStep c e = some s) :
    SectionSystem.GoesOn c p.toSectionSystem s := by
  unfold userStep SectionSystem.threadStep at h
  cases e with
  | onEvent | enterHelper | wait | notify | stopTarget | stop | start | block | call => cases h
  | enter =>
    dsimp only at h
    split_ifs at h
    obtain rfl := Option.some.inj h
    exact SectionSystem.goesOn_updateThread rfl rfl rfl rfl rfl
  | leave =>
    dsimp only at h
    split_ifs at h
    obtain rfl := Option.some.inj h
    exact (SectionSystem.goesOn_updateThread rfl rfl rfl rfl rfl).of_updateSection
  | storeOwner =>
    dsimp only at h
    split at h
    · obtain rfl := Option.some.inj h
      exact (SectionSystem.goesOn_updateThread rfl rfl rfl rfl rfl).of_updateSection
    · cases h
  | announce | readOwner | finish | discount | waitReturn =>
    dsimp only at h
    split at h
    · obtain rfl := Option.some.inj h
      exact SectionSystem.goesOn_updateThread rfl rfl rfl rfl rfl
    · cases h
  | checkFlags =>
    dsimp only at h
    split at h
    · split_ifs at h
      obtain rfl := Option.some.inj h
      exact SectionSystem.goesOn_updateThread rfl rfl rfl rfl rfl
    · cases h

end ArincPartition

end Chpok
