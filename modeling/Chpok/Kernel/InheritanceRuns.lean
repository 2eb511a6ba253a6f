import Chpok.Kernel.Inheritance

/-! The flag of the section that is waited for, over whole runs, and the calls of
`select_thread` in them. -/

namespace Chpok

namespace SectionSystem

variable {s t q : SectionSystem} {c u sec : Nat} {links : List (Nat × Nat)}

/-! Nothing but the choice of a thread changes the flags -/

structure SameFlags (t s : SectionSystem) : Prop where
  waiting : t.waitingSection = s.waitingSection
  flag : ∀ sec, (t.sections sec).reschedAfterLeave = (s.sections sec).reschedAfterLeave

theorem SameFlags.flagged (h : t.SameFlags s) (hs : s.Flagged) : t.Flagged := by
  intro sec
  rw [h.flag, h.waiting]
  exact hs sec

theorem SameFlags.trans {r : SectionSystem} (h : t.SameFlags s) (h' : s.SameFlags r) :
    t.SameFlags r :=
  ⟨h.waiting.trans h'.waiting, fun sec => (h.flag sec).trans (h'.flag sec)⟩

theorem sameFlags_of_eq (hwaiting : t.waitingSection = s.waitingSection)
    (hsections : t.sections = s.sections) : t.SameFlags s :=
  ⟨hwaiting, fun sec => by rw [hsections]⟩

theorem SameFlags.of_eq {r : SectionSystem} (h : s.SameFlags r)
    (hwaiting : t.waitingSection = s.waitingSection) (hsections : t.sections = s.sections) :
    t.SameFlags r :=
  (sameFlags_of_eq hwaiting hsections).trans h

theorem threadWakeUp_sameFlags (h : s.threadWakeUp u = some t) : t.SameFlags s := by
  simp only [threadWakeUp] at h
  split_ifs at h
  exact Option.some.inj h ▸ sameFlags_of_eq rfl rfl

theorem wakeAll_sameFlags {us : List Nat} (h : s.wakeAll us = some t) : t.SameFlags s := by
  induction us generalizing s with
  | nil => exact Option.some.inj h ▸ sameFlags_of_eq rfl rfl
  | cons u us ih =>
    obtain ⟨r, hr, ht⟩ := Option.bind_eq_some_iff.mp h
    exact (ih ht).trans (threadWakeUp_sameFlags hr)

theorem msectionNotify_sameFlags {us : List Nat} (h : msectionNotify sec s us = some t) :
    t.SameFlags s := by
  induction us generalizing s with
  | nil => exact Option.some.inj h ▸ sameFlags_of_eq rfl rfl
  | cons u us ih =>
    simp only [msectionNotify] at h
    split_ifs at h
    obtain ⟨r, hr, ht⟩ := Option.bind_eq_some_iff.mp h
    exact (ih ht).trans ((threadWakeUp_sameFlags hr).of_eq rfl rfl)

theorem threadStop_sameFlags (h : s.threadStop u = some t) : t.SameFlags s := by
  simp only [threadStop] at h
  split_ifs at h
  exact Option.some.inj h ▸ sameFlags_of_eq rfl rfl

theorem interruptWait_sameFlags (h : s.interruptWait u = some t) : t.SameFlags s := by
  simp only [interruptWait] at h
  split_ifs at h
  · obtain ⟨r, hr, rfl⟩ := Option.map_eq_some_iff.mp h
    exact (threadWakeUp_sameFlags hr).of_eq rfl rfl
  · exact Option.some.inj h ▸ sameFlags_of_eq rfl rfl

theorem threadStopTarget_sameFlags (h : s.threadStopTarget c u = some t) : t.SameFlags s := by
  simp only [threadStopTarget] at h
  by_cases hstopped : (s.threads u).state = .stopped
  · rw [if_pos hstopped] at h
    exact Option.some.inj h ▸ sameFlags_of_eq rfl rfl
  rw [if_neg hstopped] at h
  cases htarget : (s.threads u).donateTarget with
  | some target =>
    simp only [htarget] at h
    exact Option.some.inj h ▸ sameFlags_of_eq rfl rfl
  | none =>
    simp only [htarget] at h
    split_ifs at h
    · exact Option.some.inj h ▸ sameFlags_of_eq rfl rfl
    · obtain ⟨r, hr, rfl⟩ := Option.map_eq_some_iff.mp h
      exact (interruptWait_sameFlags hr).of_eq rfl rfl
    · exact threadStop_sameFlags h

theorem resumeDonator_sameFlags (h : s.resumeDonator u = some t) : t.SameFlags s := by
  obtain ⟨r, hr, rfl⟩ := Option.map_eq_some_iff.mp h
  refine SameFlags.of_eq (?_ : r.SameFlags s) rfl rfl
  split_ifs at hr
  · exact Option.some.inj hr ▸ sameFlags_of_eq rfl rfl
  · exact (threadStop_sameFlags hr).trans (sameFlags_of_eq rfl rfl)

theorem resumeDonators_sameFlags {fuel : Nat} (h : resumeDonators fuel s u = some t) :
    t.SameFlags s := by
  induction fuel generalizing s u with
  | zero => cases h
  | succ fuel ih =>
    obtain ⟨r, hr, hrest⟩ := Option.bind_eq_some_iff.mp h
    have hone := resumeDonator_sameFlags hr
    split at hrest
    · exact Option.some.inj hrest ▸ hone
    · exact (ih hrest).trans hone

theorem checkReleased_sameFlags (s : SectionSystem) : s.checkReleased.SameFlags s := by
  rcases ArincPartition.checkReleased_cases s with he | he
  · rw [he]
    exact sameFlags_of_eq rfl rfl
  · rw [he]
    exact sameFlags_of_eq rfl rfl

theorem resched_sameFlags (h : s.resched c = some t) : t.SameFlags s := by
  have hchecked := checkReleased_sameFlags s
  simp only [resched] at h
  split at h
  · exact Option.some.inj h ▸ hchecked
  · split_ifs at h
    · obtain ⟨r, hr, ht⟩ := Option.bind_eq_some_iff.mp h
      have hstopped := (threadStop_sameFlags hr).trans (hchecked.of_eq rfl rfl)
      exact (resumeDonators_sameFlags ht).trans hstopped
    · exact Option.some.inj h ▸ hchecked

theorem recordEntering_sameFlags (s : SectionSystem) : s.recordEntering.SameFlags s := by
  simp only [recordEntering]
  split
  · exact sameFlags_of_eq rfl rfl
  · split <;> exact sameFlags_of_eq rfl rfl

theorem setOwner_sameFlags (s : SectionSystem) (sec : Nat) (o : Option Nat) :
    (s.updateSection sec fun m => { m with owner := o }).SameFlags s :=
  ⟨rfl, updateSection_flag (fun m => { m with owner := o }) rfl⟩

theorem schedRule_sameFlags {choice : SchedChoice} {r : SectionSystem × Option Nat}
    (h : s.schedRule choice = some r) : r.1.SameFlags s := by
  cases choice with
  | idle => exact Option.some.inj h ▸ sameFlags_of_eq rfl rfl
  | «continue» u =>
    simp only [schedRule] at h
    split_ifs at h
    exact Option.some.inj h ▸ sameFlags_of_eq rfl rfl
  | startError =>
    simp only [schedRule] at h
    split at h
    · cases h
    · split_ifs at h
      exact Option.some.inj h ▸ sameFlags_of_eq rfl rfl

theorem switchTo_sameFlags {new : Option Nat} (h : s.switchTo new = some t) : t.SameFlags s := by
  cases new with
  | none => exact Option.some.inj h ▸ sameFlags_of_eq rfl rfl
  | some u =>
    simp only [switchTo] at h
    split_ifs at h
    exact Option.some.inj h ▸ sameFlags_of_eq rfl rfl

theorem selectOwner_flag {attempts : Nat} {r : SectionSystem × Nat}
    (h : selectOwner attempts s u sec = some r) (sec' : Nat) :
    (r.1.sections sec').reschedAfterLeave = (s.sections sec').reschedAfterLeave := by
  induction attempts generalizing s u sec with
  | zero =>
    rw [selectOwner] at h
    split_ifs at h
    · exact Option.some.inj h ▸ (setOwner_sameFlags s sec (some u)).flag sec'
    · split at h
      · cases h
      · split_ifs at h
  | succ attempts ih =>
    rw [selectOwner] at h
    split_ifs at h
    · exact Option.some.inj h ▸ (setOwner_sameFlags s sec (some u)).flag sec'
    · split at h
      · cases h
      · split_ifs at h
        dsimp only at h
        split at h
        · exact Option.some.inj h ▸ rfl
        · exact (ih h).trans rfl

theorem selectThread_flagged {selected : Option Nat} {r : SectionSystem × Option Nat}
    (hs : s.Flagged) (h : s.selectThread selected = some r) : r.1.Flagged := by
  have hclear := hs.clearWaiting
  have hkept : ∀ selected, Flagged { s.clearWaiting with threadSelected := selected } :=
    fun _ => (sameFlags_of_eq rfl rfl : SameFlags _ s.clearWaiting).flagged hclear.flagged
  cases selected with
  | none =>
    simp only [selectThread] at h
    exact Option.some.inj h ▸ hkept none
  | some t =>
    simp only [selectThread] at h
    split at h
    · exact Option.some.inj h ▸ hkept (some t)
    · obtain ⟨n, hn, rfl⟩ := Option.map_eq_some_iff.mp h
      apply markWaiting_flagged
      intro sec
      rw [selectOwner_flag hn]
      exact hclear.2 sec

theorem exitKernel_flagged {e : KernelExit} (hs : s.Flagged) (h : s.exitKernel e = some t) :
    t.Flagged := by
  obtain ⟨r, hr, ht⟩ := Option.bind_eq_some_iff.mp h
  have hwoken := (wakeAll_sameFlags hr).flagged hs
  simp only [schedArinc] at ht
  split_ifs at ht
  · obtain ⟨p, hp, hsel⟩ := Option.bind_eq_some_iff.mp ht
    obtain ⟨n, hn, hswitch⟩ := Option.bind_eq_some_iff.mp hsel
    have hstart : Flagged { r with recheckNeeded := false } :=
      (sameFlags_of_eq rfl rfl : SameFlags _ r).flagged hwoken
    have hruled := (schedRule_sameFlags hp).flagged hstart
    exact (switchTo_sameFlags hswitch).flagged (selectThread_flagged hruled hn)
  · exact Option.some.inj ht ▸ (sameFlags_of_eq rfl rfl : SameFlags _ r).flagged hwoken

theorem threadKernel_sameFlags {th : SectionThread} {e : SectionInput} {exit : KernelExit}
    (h : s.threadKernel c th e = some (q, exit)) : q.SameFlags s := by
  cases e with
  | enterHelper exit =>
    simp only [threadKernel] at h
    split at h
    · obtain rfl := (Prod.mk.inj (Option.some.inj h)).1
      simp only [msectionEnterHelper]
      split_ifs <;> exact sameFlags_of_eq rfl rfl
    · cases h
  | checkFlags exit =>
    simp only [threadKernel] at h
    split at h
    · split_ifs at h
      obtain ⟨r, hr, hq⟩ := Option.map_eq_some_iff.mp h
      obtain rfl := (Prod.mk.inj hq).1
      exact (resched_sameFlags hr).of_eq rfl rfl
    · cases h
  | wait sec refused exit =>
    simp only [threadKernel] at h
    split_ifs at h
    obtain rfl := (Prod.mk.inj (Option.some.inj h)).1
    simp only [msectionWait]
    split_ifs
    · exact sameFlags_of_eq rfl rfl
    · exact ⟨rfl, (setOwner_sameFlags s sec none).flag⟩
  | notify sec targets exit =>
    simp only [threadKernel] at h
    split_ifs at h
    obtain ⟨r, hr, hq⟩ := Option.map_eq_some_iff.mp h
    exact (Prod.mk.inj hq).1 ▸ msectionNotify_sameFlags hr
  | stopTarget target exit =>
    simp only [threadKernel] at h
    split_ifs at h
    obtain ⟨r, hr, hq⟩ := Option.map_eq_some_iff.mp h
    exact (Prod.mk.inj hq).1 ▸ threadStopTarget_sameFlags hr
  | stop exit =>
    simp only [threadKernel] at h
    split_ifs at h
    obtain ⟨r, hr, hq⟩ := Option.map_eq_some_iff.mp h
    obtain rfl := (Prod.mk.inj hq).1
    exact (threadStop_sameFlags hr).of_eq rfl rfl
  | start target delayed exit =>
    simp only [threadKernel] at h
    split_ifs at h
    obtain rfl := (Prod.mk.inj (Option.some.inj h)).1
    by_cases hstopped : (s.threads target).state = .stopped
    · rw [threadStart, if_pos hstopped]
      exact sameFlags_of_eq rfl rfl
    · rw [threadStart, if_neg hstopped]
      exact sameFlags_of_eq rfl rfl
  | block exit =>
    simp only [threadKernel] at h
    split_ifs at h
    exact (Prod.mk.inj (Option.some.inj h)).1 ▸ sameFlags_of_eq rfl rfl
  | call exit =>
    simp only [threadKernel] at h
    split_ifs at h
    exact (Prod.mk.inj (Option.some.inj h)).1 ▸ sameFlags_of_eq rfl rfl
  | _ => cases h

theorem threadStep_flagged {th : SectionThread} {e : SectionInput} (hs : s.Flagged)
    (h : s.threadStep c th e = some t) : t.Flagged := by
  cases hkernel : s.threadKernel c th e with
  | some r =>
    rw [threadStep_of_kernel hkernel] at h
    exact exitKernel_flagged ((threadKernel_sameFlags hkernel).flagged hs) h
  | none =>
    refine SameFlags.flagged ?_ hs
    rcases threadStep_of_no_kernel hkernel h with rfl | ⟨sec, -, -, rfl⟩ | huser | huser
    · exact sameFlags_of_eq rfl rfl
    · exact sameFlags_of_eq rfl rfl
    · simp only [List.mem_cons, List.not_mem_nil, or_false] at huser
      rcases huser with rfl | rfl | rfl | rfl | rfl | rfl
      all_goals
        simp only [threadStep] at h
        split at h
      all_goals try cases h
      all_goals try exact sameFlags_of_eq rfl rfl
      exact ⟨rfl, (setOwner_sameFlags s _ (some c)).flag⟩
    · obtain ⟨sec, rfl | rfl⟩ := huser
      · simp only [threadStep] at h
        split_ifs at h
        exact Option.some.inj h ▸ sameFlags_of_eq rfl rfl
      · simp only [threadStep] at h
        split_ifs at h
        obtain rfl := Option.some.inj h
        exact ⟨rfl, (setOwner_sameFlags s sec none).flag⟩

theorem step_flagged {e : SectionInput} (hs : s.Flagged) (h : s.step e = some t) : t.Flagged := by
  by_cases hev : ∃ exit, e = .onEvent exit
  · obtain ⟨exit, rfl⟩ := hev
    exact exitKernel_flagged ((recordEntering_sameFlags s).flagged hs) h
  · obtain ⟨c, -, -, hrun⟩ := step_thread (fun exit he => hev ⟨exit, he⟩) h
    exact threadStep_flagged hs hrun

/-! The calls of `select_thread` -/

/-- What `pok_preemption_local_enable` calls `select_thread` with -/
def selection (s : SectionSystem) (e : KernelExit) : Option (SectionSystem × Option Nat) :=
  (s.wakeAll e.woken).bind fun s =>
    if s.recheckNeeded || e.invalidate then
      schedRule { s with recheckNeeded := false } e.choice
    else none

/-- In state `s` the input comes to `select_thread`, with `w` as the state then. -/
inductive Selecting (s : SectionSystem) : SectionInput → SectionSystem → Option Nat → Prop
  | event {exit : KernelExit} {w : SectionSystem} {selected : Option Nat}
    (h : s.recordEntering.selection exit = some (w, selected)) :
    Selecting s (.onEvent exit) w selected
  | call {e : SectionInput} {c : Nat} {q : SectionSystem} {exit : KernelExit} {w : SectionSystem}
    {selected : Option Nat} (hc : s.threadCurrent = some c)
    (hrunnable : (s.threads c).state = .runnable)
    (hkernel : s.threadKernel c (s.threads c) e = some (q, exit))
    (h : q.selection exit = some (w, selected)) : Selecting s e w selected

/-- What holds outside the kernel -/
structure Inherits (s : SectionSystem) : Prop where
  served : s.Served
  lists : s.StopLists
  flagged : s.Flagged

theorem Inherits.inOrder (hs : s.Inherits) {e : SectionInput} (hok : s.Careful e)
    (hrunnable : ∀ c, s.threadCurrent = some c → (∀ exit, e ≠ .onEvent exit) →
      (s.threads c).state = .runnable) : s.InOrder e := by
  have halive : ∀ c, s.threadCurrent = some c → (∀ exit, e ≠ .onEvent exit) →
      (s.threads c).state ≠ .stopped := by
    intro c hc he
    rw [hrunnable c hc he]
    nofun
  cases e with
  | onEvent => trivial
  | stopTarget =>
    exact fun c hc => ⟨halive c hc nofun, hok c hc, (hs.served.current c hc).donates⟩
  | checkFlags => exact fun c hc => ⟨halive c hc nofun, (hs.served.current c hc).donates⟩
  | _ => exact fun c hc => halive c hc nofun

theorem step_inherits {e : SectionInput} (hs : s.Inherits) (hok : s.Careful e)
    (h : s.step e = some t) : t.Inherits := by
  refine ⟨step_served hs.served hok h, ?_, step_flagged hs.flagged h⟩
  by_cases hev : ∃ exit, e = .onEvent exit
  · obtain ⟨exit, rfl⟩ := hev
    exact exitKernel_stopLists (recordEntering_stopLists hs.lists) h
  · obtain ⟨c, hc, hrunnable, hrun⟩ := step_thread (fun exit he => hev ⟨exit, he⟩) h
    refine threadStep_stopLists hs.lists hc (hs.inOrder hok fun u hu _ => ?_) hrun
    obtain rfl := Option.some.inj (hc.symm.trans hu)
    exact hrunnable

/-- What holds when `select_thread` is called -/
structure Choosing (w : SectionSystem) (selected : Option Nat) : Prop where
  owned : w.Owned
  lists : w.StopLists
  flagged : w.Flagged
  runnable : ∀ u, selected = some u → (w.threads u).state = .runnable

theorem selection_choosing {e : KernelExit} {w : SectionSystem} {selected : Option Nat}
    (howned : s.Owned) (hlists : s.StopLists) (hflagged : s.Flagged)
    (h : s.selection e = some (w, selected)) : w.Choosing selected := by
  obtain ⟨r, hr, hrule⟩ := Option.bind_eq_some_iff.mp h
  split_ifs at hrule
  have howned' : Owned { r with recheckNeeded := false } :=
    ((wakeAll_steady hr).owned howned).congr rfl rfl
  have hlists' : StopLists { r with recheckNeeded := false } :=
    ((wakeAll_keepsStops hr).stopLists hlists).congr rfl rfl rfl
  have hflagged' : Flagged { r with recheckNeeded := false } :=
    ((wakeAll_sameFlags hr).of_eq rfl rfl).flagged hflagged
  obtain ⟨hw, hrunnable⟩ := schedRule_owned howned' hrule
  exact ⟨hw, schedRule_stopLists hlists' hrule, (schedRule_sameFlags hrule).flagged hflagged',
    hrunnable⟩

theorem Inherits.choosing (hs : s.Inherits) {e : SectionInput} (hok : s.Careful e)
    {w : SectionSystem} {selected : Option Nat} (h : s.Selecting e w selected) :
    w.Choosing selected := by
  cases h with
  | event h =>
    exact selection_choosing (recordEntering_owned hs.served) (recordEntering_stopLists hs.lists)
      ((recordEntering_sameFlags s).flagged hs.flagged) h
  | call hc hrunnable hkernel h =>
    have horder : s.InOrder e := hs.inOrder hok fun u hu _ => by
      obtain rfl := Option.some.inj (hc.symm.trans hu)
      exact hrunnable
    exact selection_choosing (threadKernel_served hs.served hc hok hrunnable hkernel).owned
      (threadKernel_stopLists hs.lists hc horder hkernel)
      ((threadKernel_sameFlags hkernel).flagged hs.flagged) h

variable {w : SectionSystem} {selected : Option Nat}

theorem Choosing.ownersRun (hw : w.Choosing selected) : w.OwnersRun := by
  intro sec b hb
  have hrunnable := (hw.owned.owner sec b hb).1
  have hvalid : 0 < b ∧ b < w.nthreadsUsed := by
    by_contra hnot
    rw [hw.lists.used b hnot] at hrunnable
    cases hrunnable
  exact ⟨hvalid.2, hvalid.1, hrunnable⟩

theorem Choosing.start_runnable (hw : w.Choosing (some u)) :
    (w.threads ((w.threads u).donateTarget.getD u)).state = .runnable := by
  cases htarget : (w.threads u).donateTarget with
  | none => exact hw.runnable u rfl
  | some v => exact (hw.lists.donations.target u v htarget).runnable

theorem chainEnd_runnable {a : Nat} (hrun : s.OwnersRun) (hchain : s.WaitChain a links)
    (ha : (s.threads a).state = .runnable) : (s.threads (chainEnd a links)).state = .runnable := by
  induction links generalizing a with
  | nil => exact ha
  | cons link links ih =>
    obtain ⟨⟨-, howner, -⟩, hrest⟩ := hchain
    rw [chainEnd_cons]
    exact ih hrest (hrun _ _ howner).2.2

theorem chainEnd_waits {a : Nat} (hchain : s.WaitChain a links) (sec b : Nat) :
    ¬ s.WaitsFor (chainEnd a links) sec b := by
  induction links generalizing a with
  | nil => exact hchain sec b
  | cons link links ih =>
    rw [chainEnd_cons]
    exact ih hchain.2

theorem Flagged.released (hs : s.Flagged) (hwaiting : s.waitingSection = some sec)
    (hfree : s.owner sec = none) : (s.sections sec).reschedAfterLeave = true ∧
      ∀ r, s.resched c = some r → r.recheckNeeded = true := by
  refine ⟨(hs sec).mpr hwaiting, fun r hr => ?_⟩
  have hcheck : s.checkReleased = s.invalidate := by
    simp only [checkReleased, hwaiting]
    exact if_pos hfree
  have hsame : s.resched c = s.invalidate.resched c := by
    have hcheck' : s.invalidate.checkReleased = s.invalidate := by
      simp only [checkReleased, invalidate, hwaiting]
      exact ite_self _
    rw [resched, resched, hcheck, hcheck']
    rfl
  rw [hsame] at hr
  exact (resched_quiet hr).recheck rfl

/-- Along every chain of up to five contended sections the thread at its end is chosen; a longer
one fails the assertion on the number of attempts. -/
theorem priority_inheritance {s₀ : SectionSystem} {es : List SectionInput} {e : SectionInput}
    (hfresh : s₀.Fresh) (hcalm : s₀.Calm) (hflags : s₀.Unflagged)
    (hok : Run.Meets step Careful s₀ (es ++ [e])) (h : Run.exec step s₀ es = some s) :
    (∀ c sec, s.threadCurrent = some c → (s.threads c).point = .discounted sec →
      s.waitingSection = some sec → s.owner sec = none →
      (s.sections sec).reschedAfterLeave = true ∧
        ∀ r, s.resched c = some r → r.recheckNeeded = true) ∧
    ∀ w u links, s.Selecting e w (some u) →
      w.WaitChain ((w.threads u).donateTarget.getD u) links →
      (links.length ≤ 5 → ∃ r n, w.selectThread (some u) = some (r, some n) ∧
        n = chainEnd ((w.threads u).donateTarget.getD u) links ∧
        (r.threads n).state = .runnable ∧ (∀ sec b, ¬ r.WaitsFor n sec b) ∧
        (∀ sec, r.owner sec = w.owner sec ∨ r.owner sec = some n ∧
          (w.threads n).msectionEntering = some sec ∧
          (w.owner sec = none ∨ w.owner sec = some n)) ∧
        ∀ sec, (r.sections sec).reschedAfterLeave = true ↔ lastSection links = some sec) ∧
      (5 < links.length → w.selectThread (some u) = none) := by
  obtain ⟨hmeets, hlast⟩ := Run.meets_append.mp hok
  have hstart : s₀.Inherits := ⟨hfresh.served, hcalm.stopLists, hflags.flagged⟩
  have hs : s.Inherits :=
    Run.invariant_of_meets (fun _ _ _ hs hok h => step_inherits hs hok h) hstart hmeets h
  refine ⟨fun c sec _ _ hwaiting hfree => hs.flagged.released hwaiting hfree, ?_⟩
  intro w u links hselecting hchain
  have hw := hs.choosing (hlast s h).1 hselecting
  have hselect := selectThread_chain hw.ownersRun hw.flagged rfl hchain
  constructor
  · intro hlength
    rw [if_pos hlength] at hselect
    have hthreads : w.clearWaiting.threads = w.threads := clearWaiting_threads w
    refine ⟨_, _, hselect, rfl, ?_, fun sec b hwaits => ?_, fun sec => ?_, ?_⟩
    · rw [markWaiting_threads, grantEntering_state]
      dsimp only
      rw [hthreads]
      exact chainEnd_runnable hw.ownersRun hchain hw.start_runnable
    · have hentering := hwaits.1
      rw [markWaiting_threads, grantEntering_entering] at hentering
      cases hentering
    · rw [(markWaiting_steady _).owner, grantEntering_owner]
      dsimp only
      rw [hthreads]
      have howner := (clearWaiting_steady w).owner sec
      split_ifs with hentering
      · refine Or.inr ⟨rfl, hentering, ?_⟩
        by_contra hnot
        obtain ⟨hnone, hself⟩ := not_or.mp hnot
        obtain ⟨b, hb⟩ := Option.ne_none_iff_exists'.mp hnone
        refine chainEnd_waits hchain sec b ⟨hentering, hb, ?_⟩
        rintro rfl
        exact hself hb
      · exact Or.inl howner
    · intro sec
      have hflagged := markWaiting_flagged (s := grantEntering { w.clearWaiting with
        threadSelected := some u, waitingSection := lastSection links }
          (chainEnd ((w.threads u).donateTarget.getD u) links)) fun sec =>
          (grantEntering_flag _ _ sec).trans (hw.flagged.clearWaiting.2 sec)
      rw [hflagged sec, markWaiting_waitingSection, grantEntering_waitingSection]
  · intro hlength
    rw [hselect, if_neg (by omega)]

/-- Thread `u` owns section `u` and enters the next one. -/
def enterNext (u : Nat) : List SectionInput :=
  enterFree u u ++ [.enter (u + 1), .announce, .readOwner]

def enterCall (u : Nat) : SectionInput := .enterHelper ⟨[], false, .continue u⟩

/-- Each thread enters the section of the next one; the first one is about to. -/
def chainRun (n : Nat) : List SectionInput :=
  enterFree n n ++ ((List.range (n - 2)).flatMap fun i =>
    enterNext (n - 1 - i) ++ [enterCall (n - 1 - i)]) ++ enterNext 1

theorem chainRun_careful (n : Nat) : ∀ e ∈ chainRun n ++ [enterCall 1], ∀ s, Careful s e := by
  have hnext : ∀ u, ∀ e ∈ enterNext u, ∀ s, Careful s e := by
    simp [enterNext, enterFree, switchEvent, Careful]
  simp only [chainRun, List.mem_append, List.mem_flatMap, List.mem_singleton]
  rintro e (((hfree | ⟨i, -, hstep | rfl⟩) | hfirst) | rfl) s
  · exact hnext n e (List.mem_append_left _ hfree) s
  · exact hnext _ e hstep s
  · trivial
  · exact hnext 1 e hfirst s
  · trivial

/-- The call of `select_thread` at the end of the run -/
def lastChoice (n : Nat) : Option (SectionSystem × SectionSystem × Option Nat) :=
  (Run.exec step (startedThreads n) (chainRun n)).bind fun s =>
    (s.threadKernel 1 (s.threads 1) (enterCall 1)).bind fun r =>
      (r.1.selection r.2).map fun w => (s, w)

theorem lastChoice_selecting {n : Nat} {w : SectionSystem} {selected : Option Nat}
    (h : lastChoice n = some (s, w, selected)) (hc : s.threadCurrent = some 1)
    (hrunnable : (s.threads 1).state = .runnable) :
    Run.exec step (startedThreads n) (chainRun n) = some s ∧
      s.Selecting (enterCall 1) w selected := by
  obtain ⟨s', hs', hrest⟩ := Option.bind_eq_some_iff.mp h
  obtain ⟨⟨q, exit⟩, hq, hw⟩ := Option.bind_eq_some_iff.mp hrest
  obtain ⟨w', hw', hpair⟩ := Option.map_eq_some_iff.mp hw
  obtain ⟨rfl, rfl⟩ := Prod.mk.inj hpair
  exact ⟨hs', .call hc hrunnable hq hw'⟩

/-- What the threads enter and who owns the sections -/
def choiceView (n : Nat) (r : SectionSystem × SectionSystem × Option Nat) :
    (Option Nat × ThreadState) × (Option Nat × Option Nat) ×
      List (Option Nat) × List (Option Nat) :=
  ((r.1.threadCurrent, (r.1.threads 1).state), (r.2.2, (r.2.1.threads 1).donateTarget),
    (List.range n).map fun u => (r.2.1.threads (u + 1)).msectionEntering,
    (List.range n).map fun sec => r.2.1.owner (sec + 1))

/-- Thread 1 waits for thread 2 and that for thread 3, which is chosen. -/
theorem priority_inheritance_threeThreads : ∃ s w r,
    Run.exec step (startedThreads 3) (chainRun 3) = some s ∧
      s.Selecting (enterCall 1) w (some 1) ∧ w.selectThread (some 1) = some (r, some 3) ∧
      ∀ sec, (r.sections sec).reschedAfterLeave = true ↔ some 3 = some sec := by
  have hview : (lastChoice 3).map (choiceView 3) = some ((some 1, .runnable), (some 1, none),
      [some 2, some 3, none], [some 1, some 2, some 3]) := by
    decide +kernel
  obtain ⟨⟨s, w, selected⟩, hchoice, hv⟩ := Option.map_eq_some_iff.mp hview
  simp only [choiceView, Prod.mk.injEq] at hv
  obtain ⟨⟨hc, hrunnable⟩, ⟨rfl, htarget⟩, hentering, howner⟩ := hv
  obtain ⟨hexec, hselecting⟩ := lastChoice_selecting hchoice hc hrunnable
  have hchain : w.WaitChain ((w.threads 1).donateTarget.getD 1) [(2, 2), (3, 3)] := by
    simp only [List.range_succ, List.range_zero, List.nil_append, List.cons_append, List.map_cons,
      List.map_nil, List.cons.injEq] at hentering howner
    rw [htarget]
    refine ⟨⟨hentering.1, howner.2.1, by decide⟩,
      ⟨hentering.2.1, howner.2.2.1, by decide⟩, fun sec b hb => ?_⟩
    cases hentering.2.2.1.symm.trans hb.1
  have hinherits := (priority_inheritance (startedThreads_fresh 3) (startedThreads_calm 3)
    ⟨rfl, fun _ => rfl⟩ (Run.meets_of_forall (chainRun_careful 3) _) hexec).2 w 1 _ hselecting hchain
  obtain ⟨r, n, hselect, rfl, -, -, -, hflag⟩ := hinherits.1 (by decide)
  exact ⟨s, w, r, hexec, hselecting, hselect, hflag⟩

/-- Six contended sections -/
theorem priority_inheritance_fails : Run.Meets step Careful (startedThreads 7)
    (chainRun 7 ++ [enterCall 1]) ∧ ∃ s w,
      Run.exec step (startedThreads 7) (chainRun 7) = some s ∧
        s.Selecting (enterCall 1) w (some 1) ∧
        w.WaitChain ((w.threads 1).donateTarget.getD 1)
          [(2, 2), (3, 3), (4, 4), (5, 5), (6, 6), (7, 7)] ∧
        w.selectThread (some 1) = none := by
  refine ⟨Run.meets_of_forall (chainRun_careful 7) _, ?_⟩
  have hview : (lastChoice 7).map (choiceView 7) = some ((some 1, .runnable), (some 1, none),
      [some 2, some 3, some 4, some 5, some 6, some 7, none],
      [some 1, some 2, some 3, some 4, some 5, some 6, some 7]) := by
    decide +kernel
  have hfailed : (lastChoice 7).map (fun r => (r.2.1.selectThread r.2.2).isNone) = some true := by
    decide +kernel
  obtain ⟨⟨s, w, selected⟩, hchoice, hv⟩ := Option.map_eq_some_iff.mp hview
  simp only [choiceView, Prod.mk.injEq] at hv
  obtain ⟨⟨hc, hrunnable⟩, ⟨rfl, htarget⟩, hentering, howner⟩ := hv
  obtain ⟨hexec, hselecting⟩ := lastChoice_selecting hchoice hc hrunnable
  rw [hchoice, Option.map_some, Option.some.injEq, Option.isNone_iff_eq_none] at hfailed
  refine ⟨s, w, hexec, hselecting, ?_, hfailed⟩
  simp only [List.range_succ, List.range_zero, List.nil_append, List.cons_append, List.map_cons,
    List.map_nil, List.cons.injEq, and_true] at hentering howner
  obtain ⟨h1, h2, h3, h4, h5, h6, h7⟩ := hentering
  obtain ⟨-, o2, o3, o4, o5, o6, o7⟩ := howner
  rw [htarget]
  refine ⟨⟨h1, o2, by decide⟩, ⟨h2, o3, by decide⟩, ⟨h3, o4, by decide⟩, ⟨h4, o5, by decide⟩,
    ⟨h5, o6, by decide⟩, ⟨h6, o7, by decide⟩, fun sec b hb => ?_⟩
  cases h7.symm.trans hb.1

end SectionSystem

end Chpok
