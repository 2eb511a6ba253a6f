import Chpok.Kernel.Msection

/-! What the smaller operations of the kernel leave alone. Most of them wake threads up or
move flags, and nothing happens to the sections or to anybody's way into them. -/

namespace Chpok

namespace SectionPoint

/-- The shared field of the thread names the section. -/
def Announces (sec : Nat) : SectionPoint → Prop
  | .announced s | .readFree s | .readOther s | .acquired s => s = sec
  | _ => False

end SectionPoint

namespace SectionSystem

variable {s t : SectionSystem} {u v sec : Nat}

def owner (s : SectionSystem) (sec : Nat) : Option Nat := (s.sections sec).owner

def Alive (s : SectionSystem) (u : Nat) : Prop := (s.threads u).state ≠ .stopped

@[simp] theorem updateThread_threads_self (f : SectionThread → SectionThread) :
    (s.updateThread u f).threads u = f (s.threads u) := Function.update_self ..

theorem updateThread_threads_ne (hne : v ≠ u) (f : SectionThread → SectionThread) :
    (s.updateThread u f).threads v = s.threads v := Function.update_of_ne hne ..

@[simp] theorem updateThread_owner (f : SectionThread → SectionThread) :
    (s.updateThread u f).owner sec = s.owner sec := rfl

theorem updateSection_owner_self (f : Msection → Msection) :
    (s.updateSection sec f).owner sec = (f (s.sections sec)).owner := by
  simp [owner, updateSection]

theorem updateSection_owner_ne {sec' : Nat} (hne : sec' ≠ sec) (f : Msection → Msection) :
    (s.updateSection sec f).owner sec' = s.owner sec' := by
  simp [owner, updateSection, hne]

theorem owner_granted {sec' : Nat} (hfree : s.owner sec = none ∨ s.owner sec = some u)
    (hv : s.owner sec' = some v) :
    (s.updateSection sec fun m => { m with owner := some u }).owner sec' = some v := by
  by_cases hne : sec' = sec
  · subst hne
    rw [updateSection_owner_self]
    rcases hfree with hnone | hself
    · rw [hnone] at hv
      cases hv
    · exact hself.symm.trans hv
  · rwa [updateSection_owner_ne hne]

/-- A thread may have been woken up, or the other way round, but stands where it stood. -/
structure SameWay (th' th : SectionThread) : Prop where
  point : th'.point = th.point
  inside : th'.inside = th.inside
  count : th'.msectionCount = th.msectionCount
  shared : th'.sharedEntering = th.sharedEntering
  entering : th'.msectionEntering = th.msectionEntering
  target : th'.donateTarget = th.donateTarget
  first : th'.firstDonator = th.firstDonator
  next : th'.nextDonator = th.nextDonator
  killed : th'.killed = th.killed
  runnable : th.state = .runnable → th'.state = .runnable
  stopped : th'.state = .stopped ↔ th.state = .stopped

theorem SameWay.refl (th : SectionThread) : SameWay th th :=
  ⟨rfl, rfl, rfl, rfl, rfl, rfl, rfl, rfl, rfl, id, Iff.rfl⟩

theorem SameWay.trans {th th' th'' : SectionThread} (h : SameWay th'' th')
    (h' : SameWay th' th) : SameWay th'' th where
  point := h.point.trans h'.point
  inside := h.inside.trans h'.inside
  count := h.count.trans h'.count
  shared := h.shared.trans h'.shared
  entering := h.entering.trans h'.entering
  target := h.target.trans h'.target
  first := h.first.trans h'.first
  next := h.next.trans h'.next
  killed := h.killed.trans h'.killed
  runnable hr := h.runnable (h'.runnable hr)
  stopped := h.stopped.trans h'.stopped

structure Steady (t s : SectionSystem) : Prop where
  owner : ∀ sec, t.owner sec = s.owner sec
  thread : ∀ u, SameWay (t.threads u) (s.threads u)
  current : t.threadCurrent = s.threadCurrent
  recheck : s.recheckNeeded = true → t.recheckNeeded = true

theorem Steady.refl (s : SectionSystem) : s.Steady s :=
  ⟨fun _ => rfl, fun _ => .refl _, rfl, id⟩

theorem Steady.trans {r : SectionSystem} (h : t.Steady s) (h' : s.Steady r) : t.Steady r where
  owner sec := (h.owner sec).trans (h'.owner sec)
  thread u := (h.thread u).trans (h'.thread u)
  current := h.current.trans h'.current
  recheck hr := h.recheck (h'.recheck hr)

theorem updateThread_steady {f : SectionThread → SectionThread}
    (hf : SameWay (f (s.threads u)) (s.threads u)) : (s.updateThread u f).Steady s := by
  refine { Steady.refl s with thread := fun v => ?_ }
  by_cases hne : v = u
  · subst hne
    rwa [updateThread_threads_self]
  · rw [updateThread_threads_ne hne]
    exact .refl _

theorem updateSection_steady {f : Msection → Msection}
    (hf : (f (s.sections sec)).owner = (s.sections sec).owner) :
    (s.updateSection sec f).Steady s := by
  refine { Steady.refl s with owner := fun sec' => ?_ }
  by_cases hne : sec' = sec
  · subst hne
    rw [updateSection_owner_self, hf]
    rfl
  · rw [updateSection_owner_ne hne]

theorem invalidate_steady (s : SectionSystem) : s.invalidate.Steady s :=
  { Steady.refl s with recheck := fun _ => rfl }

theorem recheck_steady (s : SectionSystem) (b : Bool) :
    Steady { s with recheckNeeded := s.recheckNeeded || b } s :=
  { Steady.refl s with recheck := fun h => by simp [h] }

theorem threadWakeUp_steady (h : s.threadWakeUp u = some t) : t.Steady s := by
  simp only [threadWakeUp] at h
  split_ifs at h with hw
  obtain rfl := Option.some.inj h
  apply updateThread_steady
  exact { SameWay.refl _ with runnable := fun _ => rfl, stopped := by simp [hw] }

theorem wakeAll_steady {us : List Nat} (h : s.wakeAll us = some t) : t.Steady s := by
  induction us generalizing s with
  | nil =>
    obtain rfl := Option.some.inj h
    exact .refl s
  | cons u us ih =>
    obtain ⟨r, hr, ht⟩ := Option.bind_eq_some_iff.mp h
    exact (ih ht).trans (threadWakeUp_steady hr)

theorem msectionNotify_steady {us : List Nat} (h : msectionNotify sec s us = some t) :
    t.Steady s := by
  induction us generalizing s with
  | nil =>
    obtain rfl := Option.some.inj h
    exact .refl s
  | cons u us ih =>
    simp only [msectionNotify] at h
    split_ifs at h
    obtain ⟨r, hr, ht⟩ := Option.bind_eq_some_iff.mp h
    refine (ih ht).trans (.trans ?_ (threadWakeUp_steady hr))
    exact updateThread_steady { SameWay.refl _ with }

theorem interruptWait_steady (h : s.interruptWait u = some t) : t.Steady s := by
  simp only [interruptWait] at h
  split_ifs at h
  · obtain ⟨r, hr, rfl⟩ := Option.map_eq_some_iff.mp h
    refine .trans ?_ (threadWakeUp_steady hr)
    exact updateThread_steady { SameWay.refl _ with }
  · obtain rfl := Option.some.inj h
    exact .refl s

theorem checkReleased_steady (s : SectionSystem) : s.checkReleased.Steady s := by
  simp only [checkReleased]
  split
  · exact .refl s
  · split_ifs
    · exact invalidate_steady s
    · exact .refl s

theorem clearWaiting_steady (s : SectionSystem) : s.clearWaiting.Steady s := by
  simp only [clearWaiting]
  split
  · exact .refl s
  · have h : ∀ sec, (s.updateSection sec fun m => { m with reschedAfterLeave := false }).Steady s :=
      fun _ => updateSection_steady rfl
    exact { h _ with }

theorem markWaiting_steady (s : SectionSystem) : s.markWaiting.Steady s := by
  simp only [markWaiting]
  split
  · exact .refl s
  · exact updateSection_steady rfl

theorem clearWaiting_selected_steady (s : SectionSystem) (selected : Option Nat) :
    Steady { s.clearWaiting with threadSelected := selected } s :=
  { clearWaiting_steady s with }

theorem clearWaiting_threads (s : SectionSystem) : s.clearWaiting.threads = s.threads := by
  simp only [clearWaiting]
  split <;> rfl

theorem markWaiting_threads (s : SectionSystem) : s.markWaiting.threads = s.threads := by
  simp only [markWaiting]
  split <;> rfl

theorem waitingSection_steady (s : SectionSystem) (sec : Option Nat) :
    Steady { s with waitingSection := sec } s := { Steady.refl s with }

theorem hasContext_steady (s : SectionSystem) (u : Nat) :
    (s.updateThread u fun th => { th with hasContext := true }).Steady s :=
  updateThread_steady { SameWay.refl _ with }

/-- The section is given to a thread that enters it. -/
def grant (s : SectionSystem) (u sec : Nat) : SectionSystem :=
  (s.updateSection sec fun m => { m with owner := some u }).updateThread u
    fun th => { th with msectionEntering := none }

theorem grant_threads_self :
    (s.grant u sec).threads u = { s.threads u with msectionEntering := none } :=
  updateThread_threads_self _

theorem grant_threads_ne (hne : v ≠ u) : (s.grant u sec).threads v = s.threads v :=
  updateThread_threads_ne hne _

theorem grant_owner_self : (s.grant u sec).owner sec = some u :=
  updateSection_owner_self fun m => { m with owner := some u }

section Selection

/- `P` is to hold of the state, and `Q` of the thread that the walk has come to. -/
variable {P : SectionSystem → Prop} {Q : SectionSystem → Nat → Prop}
  (hsteady : ∀ {s t}, t.Steady s → P s → P t)
  (hsame : ∀ {s t u}, t.Steady s → Q s u → Q t u)
  (hgrant : ∀ {s u sec}, P s → Q s u → (s.threads u).msectionEntering = some sec →
    s.owner sec = none ∨ s.owner sec = some u → P (s.grant u sec) ∧ Q (s.grant u sec) u)
  (howner : ∀ {s u sec}, P s → s.owner sec = some u → (s.threads u).state = .runnable → Q s u)

include hsteady hsame hgrant howner

theorem selectOwner_rule {attempts : Nat} {r : SectionSystem × Nat} (hp : P s) (hq : Q s u)
    (hentering : (s.threads u).msectionEntering = some sec)
    (h : selectOwner attempts s u sec = some r) :
    P r.1 ∧ Q r.1 r.2 ∧ (r.1.threads r.2).msectionEntering = none := by
  have hwait := fun s sec => waitingSection_steady s (some sec)
  induction attempts generalizing s u sec with
  | zero =>
    rw [selectOwner] at h
    by_cases hfree : (s.sections sec).owner = none ∨ (s.sections sec).owner = some u
    · rw [if_pos hfree] at h
      obtain rfl := Option.some.inj h
      obtain ⟨hp', hq'⟩ := hgrant hp hq hentering hfree
      exact ⟨hp', hq', by rw [updateThread_threads_self]⟩
    · rw [if_neg hfree] at h
      split at h
      · cases h
      · split_ifs at h
  | succ attempts ih =>
    rw [selectOwner] at h
    by_cases hfree : (s.sections sec).owner = none ∨ (s.sections sec).owner = some u
    · rw [if_pos hfree] at h
      obtain rfl := Option.some.inj h
      obtain ⟨hp', hq'⟩ := hgrant hp hq hentering hfree
      exact ⟨hp', hq', by rw [updateThread_threads_self]⟩
    · rw [if_neg hfree] at h
      split at h
      · cases h
      · rename_i next hnext
        split_ifs at h with hrunnable
        have hq' := hsame (hwait s sec) (howner hp hnext hrunnable.2.2)
        dsimp only at h
        split at h
        · rename_i hnone
          obtain rfl := Option.some.inj h
          exact ⟨hsteady (hwait s sec) hp, hq', hnone⟩
        · rename_i hentering'
          exact ih (hsteady (hwait s sec) hp) hq' hentering' h

theorem selectThread_rule {selected : Option Nat} {r : SectionSystem × Option Nat} (hp : P s)
    (hq : ∀ u, selected = some u → Q s ((s.threads u).donateTarget.getD u))
    (h : s.selectThread selected = some r) :
    P r.1 ∧ ∀ n, r.2 = some n → Q r.1 n ∧ (r.1.threads n).msectionEntering = none := by
  have hclear := clearWaiting_selected_steady s
  have hthreads := fun u => congrFun (clearWaiting_threads s) u
  cases selected with
  | none =>
    simp only [selectThread] at h
    obtain rfl := Option.some.inj h
    exact ⟨hsteady (hclear none) hp, nofun⟩
  | some u =>
    have hq' := hsame (hclear (some u)) (hq u rfl)
    simp only [selectThread] at h
    split at h
    · rename_i hnone
      obtain rfl := Option.some.inj h
      refine ⟨hsteady (hclear (some u)) hp, fun n hn => ?_⟩
      obtain rfl := Option.some.inj hn
      exact ⟨hq', (congrArg _ (hthreads _)).trans hnone⟩
    · rename_i sec hsome
      obtain ⟨q, hsel, rfl⟩ := Option.map_eq_some_iff.mp h
      obtain ⟨hp', hq'', hnone⟩ := selectOwner_rule (P := P) (Q := Q) hsteady hsame hgrant howner
        (hsteady (hclear (some u)) hp) hq' ((congrArg _ (hthreads _)).trans hsome) hsel
      have hmark := markWaiting_steady q.1
      refine ⟨hsteady hmark hp', fun n hn => ?_⟩
      obtain rfl := Option.some.inj hn
      exact ⟨hsame hmark hq'', by rw [markWaiting_threads, hnone]⟩

end Selection

theorem bind_exitKernel {o : Option SectionSystem} {f : SectionSystem → SectionSystem}
    {q : SectionSystem} {exit exit' : KernelExit}
    (h : o.map (fun r => (f r, exit)) = some (q, exit')) :
    o.bind (fun r => (f r).exitKernel exit) = q.exitKernel exit' := by
  obtain ⟨r, rfl, hr⟩ := Option.map_eq_some_iff.mp h
  obtain ⟨rfl, rfl⟩ := Prod.mk.inj hr
  rfl

/-- A system call ends with the exit from the kernel. -/
theorem threadStep_of_kernel {c : Nat} {th : SectionThread} {e : SectionInput} {q : SectionSystem}
    {exit : KernelExit} (h : s.threadKernel c th e = some (q, exit)) :
    s.threadStep c th e = q.exitKernel exit := by
  have hsome : ∀ {p : SectionSystem} {exit' : KernelExit}, some (p, exit') = some (q, exit) →
      p.exitKernel exit' = q.exitKernel exit := by
    intro p exit' hp
    obtain ⟨rfl, rfl⟩ := Prod.mk.inj (Option.some.inj hp)
    rfl
  cases e with
  | enterHelper exit' =>
    simp only [threadKernel] at h
    split at h
    · rename_i hp
      simp only [threadStep, hp]
      exact hsome h
    · cases h
  | checkFlags exit' =>
    simp only [threadKernel] at h
    split at h
    · rename_i hp
      split_ifs at h with hflags
      simp only [threadStep, hp]
      rw [if_pos hflags]
      exact bind_exitKernel h
    · cases h
  | wait sec refused exit' =>
    simp only [threadKernel] at h
    split_ifs at h with hcond hrefused
    simp only [threadStep]
    rw [if_pos hcond, if_neg hrefused]
    exact hsome h
  | notify sec targets exit' =>
    simp only [threadKernel] at h
    split_ifs at h with hcond
    simp only [threadStep]
    rw [if_pos hcond]
    exact bind_exitKernel (f := id) h
  | stopTarget target exit' =>
    simp only [threadKernel] at h
    split_ifs at h with hp hcond
    simp only [threadStep]
    rw [if_pos hp, if_pos hcond]
    exact bind_exitKernel (f := id) h
  | stop exit' =>
    simp only [threadKernel] at h
    split_ifs at h with hcond
    simp only [threadStep]
    rw [if_pos hcond]
    exact bind_exitKernel h
  | start target delayed exit' =>
    simp only [threadKernel] at h
    split_ifs at h with hp hcond
    simp only [threadStep]
    rw [if_pos hp, if_pos hcond]
    exact hsome h
  | block exit' =>
    simp only [threadKernel] at h
    split_ifs at h with hcond
    simp only [threadStep]
    rw [if_pos hcond]
    exact hsome h
  | call exit' =>
    simp only [threadKernel] at h
    split_ifs at h with hp
    simp only [threadStep]
    rw [if_pos hp]
    exact hsome h
  | _ => cases h

/-- A call that is refused, or not made after all, leaves the kernel alone. -/
theorem threadStep_of_no_kernel {c : Nat} {th : SectionThread} {e : SectionInput}
    (hkernel : s.threadKernel c th e = none) (h : s.threadStep c th e = some t) : t = s ∨
      (∃ sec, th.point = .discounted sec ∧ ¬ (th.msectionCount = 0 ∧ th.killed ∨
        (s.sections sec).reschedAfterLeave) ∧
        t = s.updateThread c fun th => { th with point := .running }) ∨
      e ∈ [.announce, .readOwner, .storeOwner, .finish, .discount, .waitReturn] ∨
      ∃ sec, e = .enter sec ∨ e = .leave sec := by
  cases e with
  | onEvent => cases h
  | enterHelper exit =>
    simp only [threadStep] at h
    split at h
    · rename_i hp
      simp only [threadKernel, hp] at hkernel
      cases hkernel
    · cases h
  | checkFlags exit =>
    simp only [threadStep] at h
    split at h
    · rename_i sec hp
      simp only [threadKernel, hp] at hkernel
      split_ifs at h hkernel with hflags
      · rw [Option.map_eq_none_iff.mp hkernel] at h
        cases h
      · exact Or.inr (Or.inl ⟨sec, hp, hflags, (Option.some.inj h).symm⟩)
    · cases h
  | wait sec refused exit =>
    simp only [threadStep] at h
    simp only [threadKernel] at hkernel
    split_ifs at h hkernel
    exact Or.inl (Option.some.inj h).symm
  | notify sec targets exit =>
    simp only [threadStep] at h
    simp only [threadKernel] at hkernel
    split_ifs at h hkernel
    rw [Option.map_eq_none_iff.mp hkernel] at h
    cases h
  | stopTarget target exit =>
    simp only [threadStep] at h
    simp only [threadKernel] at hkernel
    split_ifs at h hkernel
    · rw [Option.map_eq_none_iff.mp hkernel] at h
      cases h
    · exact Or.inl (Option.some.inj h).symm
  | stop exit =>
    simp only [threadStep] at h
    simp only [threadKernel] at hkernel
    split_ifs at h hkernel
    rw [Option.map_eq_none_iff.mp hkernel] at h
    cases h
  | start target delayed exit =>
    simp only [threadStep] at h
    simp only [threadKernel] at hkernel
    split_ifs at h hkernel
    exact Or.inl (Option.some.inj h).symm
  | block exit =>
    simp only [threadStep] at h
    simp only [threadKernel] at hkernel
    split_ifs at h hkernel
  | call exit =>
    simp only [threadStep] at h
    simp only [threadKernel] at hkernel
    split_ifs at h hkernel
  | enter sec => exact Or.inr (Or.inr (Or.inr ⟨sec, Or.inl rfl⟩))
  | leave sec => exact Or.inr (Or.inr (Or.inr ⟨sec, Or.inr rfl⟩))
  | announce | readOwner | storeOwner | finish | discount | waitReturn =>
    exact Or.inr (Or.inr (Or.inl (by simp)))

theorem stepAnyone_thread {e : SectionInput} (he : ∀ exit, e ≠ .onEvent exit)
    (h : s.stepAnyone e = some t) :
    ∃ c, s.threadCurrent = some c ∧ s.threadStep c (s.threads c) e = some t := by
  have hstep : s.stepAnyone e = s.threadCurrent.bind fun c => s.threadStep c (s.threads c) e := by
    cases e with
    | onEvent exit => exact absurd rfl (he exit)
    | _ => rfl
  rw [hstep] at h
  exact Option.bind_eq_some_iff.mp h

theorem step_thread {e : SectionInput} (he : ∀ exit, e ≠ .onEvent exit)
    (h : s.step e = some t) : ∃ c, s.threadCurrent = some c ∧
      (s.threads c).state = .runnable ∧ s.threadStep c (s.threads c) e = some t := by
  have hstep : s.step e = s.threadCurrent.bind fun c =>
      if (s.threads c).state = .runnable then s.threadStep c (s.threads c) e else none := by
    cases e with
    | onEvent exit => exact absurd rfl (he exit)
    | _ => rfl
  rw [hstep] at h
  obtain ⟨c, hc, hrun⟩ := Option.bind_eq_some_iff.mp h
  split_ifs at hrun with hrunnable
  exact ⟨c, hc, hrunnable, hrun⟩

end SectionSystem

end Chpok
