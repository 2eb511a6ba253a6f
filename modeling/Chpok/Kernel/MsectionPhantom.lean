import Chpok.Kernel.MsectionDonation

/-! No phantom owners. The invariant of `MsectionOwner` is kept by every step, except by an
event that records the current thread as entering and then returns early. -/

namespace Chpok

namespace SectionSystem

variable {s t : SectionSystem} {u v sec : Nat}

theorem Owned.advance {c : Nat} (hs : s.Owned) {f : SectionThread → SectionThread}
    (hthread : (f (s.threads c)).Orderly)
    (hclaims : ∀ sec, s.owner sec = some c → (f (s.threads c)).Claims sec)
    (hstate : (f (s.threads c)).state = (s.threads c).state)
    (hkilled : (f (s.threads c)).killed = (s.threads c).killed)
    (htarget : (f (s.threads c)).donateTarget = (s.threads c).donateTarget)
    (hfirst : (f (s.threads c)).firstDonator = (s.threads c).firstDonator)
    (hnext : (f (s.threads c)).nextDonator = (s.threads c).nextDonator)
    (hleaves : (∃ d, (s.threads d).donateTarget = some c) →
      0 < (f (s.threads c)).msectionCount ∨ ∃ sec, (f (s.threads c)).point = .discounted sec) :
    (s.updateThread c f).Owned := by
  refine hs.updateThread hthread hclaims
    (hs.donations.updateThread htarget hfirst hnext fun d hd ht => ?_)
  exact ⟨hstate.trans ht.runnable, hkilled.trans ht.killed, hleaves ⟨d, hd⟩⟩

theorem Owned.served {c : Nat} {f : SectionThread → SectionThread}
    (hs : (s.updateThread c f).Owned) (hc : s.threadCurrent = some c)
    (htarget : (f (s.threads c)).donateTarget = none)
    (hentering : (f (s.threads c)).msectionEntering = none) : (s.updateThread c f).Served := by
  refine ⟨hs, fun u hu => ?_⟩
  obtain rfl := Option.some.inj (hc.symm.trans hu)
  refine ⟨?_, ?_⟩
  all_goals rwa [updateThread_threads_self]

theorem Owned.setOwner (hs : s.Owned) (sec : Nat) (o : Option Nat)
    (ho : ∀ u, o = some u → (s.threads u).Claims sec) :
    (s.updateSection sec fun m => { m with owner := o }).Owned := by
  refine ⟨hs.thread, fun sec' u hu => ?_, ⟨hs.donations.donators, fun d u hd =>
    { hs.donations.target d u hd with }⟩⟩
  by_cases hne : sec' = sec
  · subst hne
    rw [updateSection_owner_self] at hu
    exact ho u hu
  · rw [updateSection_owner_ne hne] at hu
    exact hs.owner sec' u hu

theorem Owned.leaves {c : Nat} (hs : s.Owned)
    (hpoint : ∀ sec, (s.threads c).point ≠ .discounted sec)
    (h : ∃ d, (s.threads d).donateTarget = some c) : 0 < (s.threads c).msectionCount := by
  obtain ⟨d, hd⟩ := h
  rcases (hs.donations.target d c hd).leaves with hpos | ⟨sec, hp⟩
  · exact hpos
  · exact absurd hp (hpoint sec)

theorem Owned.inside {c : Nat} (hs : s.Owned) (hown : s.owner sec = some c)
    (hpoint : ¬ (s.threads c).point.Announces sec) : sec ∈ (s.threads c).inside :=
  (hs.owner sec c hown).2.resolve_right hpoint

section CurrentThread

variable {c : Nat} (hs : s.Served) (hc : s.threadCurrent = some c)

include hs hc

theorem enter_served (hp : (s.threads c).point = .running) (hfresh : sec ∉ (s.threads c).inside)
    (hrunnable : (s.threads c).state = .runnable) :
    (s.updateThread c fun th => { th with
      msectionCount := th.msectionCount + 1, point := .counted sec }).Served := by
  have hfree := hs.current c hc
  have hcurrent := And.intro hfree.donates hfree.entering
  refine Owned.served ?_ hc hfree.donates hfree.entering
  refine hs.owned.advance ((hs.owned.thread c).enter hcurrent hp hfresh hrunnable)
    (fun sec' hown => ⟨hrunnable, .inl (hs.owned.inside hown ?_)⟩) rfl rfl rfl rfl rfl
    fun _ => .inl (Nat.succ_pos _)
  rw [hp]
  exact id

theorem approach_served {p : SectionPoint} (shared : SectionThread → Option Nat)
    (happroach : (s.threads c).point.Approaches sec) (hp : p.Announces sec)
    (hrunnable : (s.threads c).state = .runnable)
    (hshared : shared (s.threads c) = some sec ∨
      shared (s.threads c) = (s.threads c).sharedEntering) :
    (s.updateThread c fun th => { th with sharedEntering := shared th, point := p }).Served := by
  have hfree := hs.current c hc
  have hcurrent := And.intro hfree.donates hfree.entering
  have hsurplus : (s.threads c).point.surplus = 1 := by
    cases hpoint : (s.threads c).point <;> rw [hpoint] at happroach <;>
      first | rfl | exact happroach.elim
  refine Owned.served ?_ hc hfree.donates hfree.entering
  refine hs.owned.advance ((hs.owned.thread c).approach hcurrent happroach hp hsurplus hshared)
    (fun sec' hown => ?_) rfl rfl rfl rfl rfl fun h => .inl (hs.owned.leaves (fun sec' hd => ?_) h)
  · refine ⟨hrunnable, (hs.owned.owner sec' c hown).2.imp_right fun h => ?_⟩
    exact (h.approaches.eq happroach) ▸ hp
  · rw [hd] at happroach
    exact happroach

theorem storeOwner_served (hp : (s.threads c).point = .readFree sec)
    (hrunnable : (s.threads c).state = .runnable) :
    ((s.updateSection sec fun m => { m with owner := some c }).updateThread c fun th =>
      { th with point := .acquired sec }).Served := by
  have hstep := approach_served hs hc (p := .acquired sec) (·.sharedEntering) (by rw [hp]; rfl) rfl
    hrunnable (.inr rfl)
  refine ⟨hstep.owned.setOwner sec (some c) fun u hu => ?_, fun u hu => ?_⟩
  · obtain rfl := Option.some.inj hu
    rw [updateThread_threads_self]
    exact ⟨hrunnable, .inr rfl⟩
  · exact { hstep.current u hu with }

theorem enterHelper_served (hp : (s.threads c).point = .readOther sec)
    (hrunnable : (s.threads c).state = .runnable) :
    ((s.updateThread c fun th => { th with
      point := .acquired sec }).msectionEnterHelper c sec).KernelServed := by
  have hstep := approach_served hs hc (p := .acquired sec) (·.sharedEntering) (by rw [hp]; rfl) rfl
    hrunnable (.inr rfl)
  simp only [msectionEnterHelper]
  split_ifs
  · refine Owned.invalidate (hstep.owned.updateThread ?_ (hstep.owned.owner · c)
      (hstep.owned.donations.updateThread rfl rfl rfl fun d _ ht => ?_))
    · refine (hstep.owned.thread c).record ?_ ?_
      · rw [updateThread_threads_self]
        exact hrunnable ▸ nofun
      · rw [updateThread_threads_self]
        rfl
    · exact ⟨ht.runnable, ht.killed, ht.leaves⟩
  · exact ⟨hstep.owned, fun _ => hstep.current⟩

theorem finish_served (hp : (s.threads c).point = .acquired sec)
    (hrunnable : (s.threads c).state = .runnable) :
    (s.updateThread c fun th => { th with
      sharedEntering := none, point := .running, inside := sec :: th.inside }).Served := by
  have hfree := hs.current c hc
  refine Owned.served ?_ hc hfree.donates hfree.entering
  refine hs.owned.advance
    ((hs.owned.thread c).finish ⟨hfree.donates, hfree.entering⟩ hp)
    (fun sec' hown => ⟨hrunnable, .inl ?_⟩) rfl rfl rfl rfl rfl
    fun h => .inl (hs.owned.leaves (fun sec' hd => ?_) h)
  · rcases (hs.owned.owner sec' c hown).2 with hin | hann
    · exact List.mem_cons_of_mem _ hin
    · rw [hp] at hann
      obtain rfl : sec = sec' := hann
      exact List.mem_cons_self
  · rw [hp] at hd
    cases hd

theorem leave_served (hp : (s.threads c).point = .running) (hin : sec ∈ (s.threads c).inside)
    (hrunnable : (s.threads c).state = .runnable) :
    ((s.updateSection sec fun m => { m with owner := none }).updateThread c fun th =>
      { th with point := .left sec, inside := th.inside.filter (· ≠ sec) }).Served := by
  have hfree := hs.current c hc
  have hreleased := hs.owned.setOwner sec none nofun
  refine Owned.served ?_ hc hfree.donates hfree.entering
  refine hreleased.advance ((hs.owned.thread c).leave ⟨hfree.donates, hfree.entering⟩ hp hin)
    (fun sec' hown => ⟨hrunnable, .inl ?_⟩) rfl rfl rfl rfl rfl
    fun h => .inl (hs.owned.leaves (fun sec' hd => ?_) h)
  · by_cases hne : sec' = sec
    · subst hne
      rw [updateSection_owner_self] at hown
      cases hown
    · rw [updateSection_owner_ne hne] at hown
      refine List.mem_filter.mpr ⟨hs.owned.inside hown ?_, by simpa using hne⟩
      rw [hp]
      exact id
  · rw [hp] at hd
    cases hd

theorem discount_served (hp : (s.threads c).point = .left sec)
    (hrunnable : (s.threads c).state = .runnable) :
    (s.updateThread c fun th => { th with
      msectionCount := th.msectionCount - 1, point := .discounted sec }).Served := by
  have hfree := hs.current c hc
  have hcount := (hs.owned.thread c).count
  rw [hp] at hcount
  have hnot : ∀ sec', ¬ (s.threads c).point.Announces sec' := fun sec' h => by rwa [hp] at h
  refine Owned.served ?_ hc hfree.donates hfree.entering
  refine hs.owned.advance ((hs.owned.thread c).pass ⟨hfree.donates, hfree.entering⟩ hnot ?_ ?_
    (.inr ⟨sec, rfl⟩)) (fun sec' hown => ⟨hrunnable, .inl (hs.owned.inside hown (hnot sec'))⟩)
    rfl rfl rfl rfl rfl fun _ => .inr ⟨sec, rfl⟩
  · rw [hcount]
    rfl
  · exact Nat.sub_le _ _

theorem wait_served (hp : (s.threads c).point = .running) (hown : s.owner sec = some c)
    (hcount : (s.threads c).msectionCount = 1) (hrunnable : (s.threads c).state = .runnable) :
    (s.msectionWait c sec).KernelServed := by
  have hfree := hs.current c hc
  have hcurrent := And.intro hfree.donates hfree.entering
  have hnot : ∀ sec', ¬ (s.threads c).point.Announces sec' := fun sec' h => by rwa [hp] at h
  have hin := hs.owned.inside hown (hnot sec)
  have hstays : ∀ sec', (s.threads c).point ≠ .discounted sec' := fun sec' h => by
    rw [hp] at h
    cases h
  simp only [msectionWait]
  by_cases hfirst : (s.threads c).firstDonator ≠ none
  · rw [if_pos hfirst]
    have hstep : (s.updateThread c fun th =>
        { th with waitResult := .cancelled, point := .waiting sec }).Served := by
      refine Owned.served ?_ hc hfree.donates hfree.entering
      exact hs.owned.advance ((hs.owned.thread c).giveUp hcurrent hp hin)
        (fun sec' hown' => ⟨hrunnable, .inl (hs.owned.inside hown' (hnot sec'))⟩)
        rfl rfl rfl rfl rfl fun h => .inl (hs.owned.leaves hstays h)
    exact ⟨hstep.owned, fun _ => hstep.current⟩
  · rw [if_neg hfirst]
    have hreleased := hs.owned.setOwner sec none nofun
    apply Owned.invalidate
    change ((s.updateSection sec fun m => { m with owner := none }).updateThread c fun th =>
      { th with msectionEntering := some sec, state := .waiting, point := .waiting sec }).Owned
    refine hreleased.updateThread ((hs.owned.thread c).wait hcurrent hp hin)
      (fun sec' hown' => ?_) (hreleased.donations.updateThread rfl rfl rfl fun d hd _ => ?_)
    · -- The section that is waited on is the only one that the thread is inside of.
      by_cases hne : sec' = sec
      · subst hne
        rw [updateSection_owner_self] at hown'
        cases hown'
      · rw [updateSection_owner_ne hne] at hown'
        have hin' := hs.owned.inside hown' (hnot sec')
        have hlength := (hs.owned.thread c).count
        rw [hcount, hp] at hlength
        obtain ⟨only, honly⟩ := List.length_eq_one_iff.mp hlength.symm
        rw [honly, List.mem_singleton] at hin hin'
        exact absurd (hin'.trans hin.symm) hne
    · exact absurd hd (hs.owned.donations.nobody hfree.donates (not_not.mp hfirst) d)

end CurrentThread

theorem Owned.return {c : Nat} (hs : s.Owned) (hc : s.Free c)
    (hp : (s.threads c).point = .discounted sec ∨ (s.threads c).point = .waiting sec)
    (hleaves : (∃ d, (s.threads d).donateTarget = some c) → 0 < (s.threads c).msectionCount) :
    (s.updateThread c fun th => { th with point := .running }).Owned := by
  have hnot : ∀ sec', ¬ (s.threads c).point.Announces sec' := by
    intro sec' h
    rcases hp with hp | hp <;> rwa [hp] at h
  have hcount := (hs.thread c).count
  have hsurplus : (s.threads c).point.surplus = 0 := by rcases hp with hp | hp <;> rw [hp] <;> rfl
  refine hs.advance ((hs.thread c).pass ⟨hc.donates, hc.entering⟩ hnot ?_ (Nat.le_refl _) (.inl rfl))
    (fun sec' hown => ⟨(hs.owner sec' c hown).1, .inl (hs.inside hown (hnot sec'))⟩)
    rfl rfl rfl rfl rfl fun h => .inl (hleaves h)
  rw [hcount, hsurplus]
  rfl

/-- An event that finds the current thread entering a section does not return early, and
threads are not stopped from inside a section. -/
def Careful (s : SectionSystem) : SectionInput → Prop
  | .onEvent exit => ∀ c, s.threadCurrent = some c → (s.threads c).sharedEntering ≠ none →
      (s.recheckNeeded || exit.invalidate) = true
  | .stopTarget _ _ | .stop _ => ∀ c, s.threadCurrent = some c → (s.threads c).msectionCount = 0
  | _ => True

theorem recordEntering_owned (hs : s.Served) : s.recordEntering.Owned := by
  simp only [recordEntering]
  cases hc : s.threadCurrent with
  | none => exact hs.owned
  | some c =>
    dsimp only
    cases hshared : (s.threads c).sharedEntering with
    | none => exact hs.owned
    | some sec =>
      have hann := (hs.owned.thread c).shared sec hshared
      have halive : (s.threads c).state ≠ .stopped := by
        intro hstopped
        have hzero := (hs.owned.thread c).stopped hstopped
        have hpos := (hs.owned.thread c).entering_count_pos (.inl hann)
        omega
      exact hs.owned.updateThread ((hs.owned.thread c).record halive hann) (hs.owned.owner · c)
        (hs.owned.donations.updateThread rfl rfl rfl fun d _ ht =>
          ⟨ht.runnable, ht.killed, ht.leaves⟩)

theorem onEvent_served {exit : KernelExit} (hs : s.Served) (hok : s.Careful (.onEvent exit))
    (h : s.recordEntering.exitKernel exit = some t) : t.Served := by
  have hrecorded := recordEntering_owned hs
  have hkernel : s.KernelServed := ⟨hs.owned, fun _ => hs.current⟩
  simp only [recordEntering] at h hrecorded
  cases hc : s.threadCurrent with
  | none =>
    simp only [hc] at h
    exact exitKernel_served hkernel h
  | some c =>
    simp only [hc] at h hrecorded
    cases hshared : (s.threads c).sharedEntering with
    | none =>
      simp only [hshared] at h
      exact exitKernel_served hkernel h
    | some sec =>
      simp only [hshared] at h hrecorded
      obtain ⟨r, hr, ht⟩ := Option.bind_eq_some_iff.mp h
      have hsteady := wakeAll_steady hr
      have hpending : (r.recheckNeeded || exit.invalidate) = true := by
        rcases Bool.or_eq_true_iff.mp (hok c hc (by simp [hshared])) with hr' | hinv
        · rw [hsteady.recheck hr', Bool.true_or]
        · rw [hinv, Bool.or_true]
      have hkernel : KernelServed { r with
          recheckNeeded := r.recheckNeeded || exit.invalidate } :=
        ⟨(hsteady.owned hrecorded).congr rfl rfl, fun hno => absurd (hpending.symm.trans hno) (by simp)⟩
      exact schedArinc_served hkernel ht

theorem threadStart_served {c target : Nat} (hs : s.Served) (hc : s.threadCurrent = some c)
    (hrunnable : (s.threads c).state = .runnable) (delayed : Bool) :
    (s.threadStart target delayed).KernelServed := by
  have hfree := hs.current c hc
  by_cases hstopped : (s.threads target).state = .stopped
  · rw [threadStart, if_pos hstopped]
    refine ⟨?_, fun _ u hu => ?_⟩
    · exact hs.owned.start (f := fun th => { resetContext th with
        state := if delayed then .waiting else .runnable
        msectionCount := 0
        sharedEntering := none
        killed := false }) hstopped
        ((hs.owned.thread _).start hstopped rfl rfl (.inl rfl) (.inl rfl) rfl) rfl rfl rfl
    · obtain rfl := Option.some.inj (hc.symm.trans hu)
      have hne : c ≠ target := by
        rintro rfl
        rw [hrunnable] at hstopped
        cases hstopped
      refine ⟨?_, ?_⟩
      all_goals rw [updateThread_threads_ne hne]
      · exact hfree.donates
      · exact hfree.entering
  · rw [threadStart, if_neg hstopped]
    exact ⟨hs.owned, fun _ => hs.current⟩

/-- A thread that blocks holds no section, and nobody donates to it. -/
theorem block_served {c : Nat} (hs : s.Served) (hc : s.threadCurrent = some c)
    (hcount : (s.threads c).msectionCount = 0) (hdonator : (s.threads c).firstDonator = none) :
    (s.updateThread c fun th => { th with state := .waiting }).KernelServed := by
  have hfree := hs.current c hc
  have hnobody := hs.owned.donations.nobody hfree.donates hdonator
  have howned : (s.updateThread c fun th => { th with state := .waiting }).Owned := by
    refine hs.owned.updateThread { hs.owned.thread c with entering := ?_, stopped := by simp }
      (fun sec hown => ?_)
      (hs.owned.donations.updateThread rfl rfl rfl fun d hd _ => absurd hd (hnobody d))
    · intro sec hsec
      exact ⟨by simp, ((hs.owned.thread c).entering sec hsec).2⟩
    · have := (hs.owned.owner sec c hown).count_pos (hs.owned.thread c)
      omega
  have hserved := howned.served hc hfree.donates hfree.entering
  exact ⟨hserved.owned, fun _ => hserved.current⟩

theorem threadKernel_served {c : Nat} {e : SectionInput} {q : SectionSystem} {exit : KernelExit}
    (hs : s.Served) (hc : s.threadCurrent = some c) (hok : s.Careful e)
    (hrunnable : (s.threads c).state = .runnable)
    (h : s.threadKernel c (s.threads c) e = some (q, exit)) : q.KernelServed := by
  have hkernel : s.KernelServed := ⟨hs.owned, fun _ => hs.current⟩
  have hfree := hs.current c hc
  cases e with
  | enterHelper exit =>
    simp only [threadKernel] at h
    split at h
    · rename_i hp
      exact (Prod.mk.inj (Option.some.inj h)).1 ▸ enterHelper_served hs hc hp hrunnable
    · cases h
  | checkFlags exit =>
    simp only [threadKernel] at h
    split at h
    · rename_i sec hp
      split_ifs at h
      obtain ⟨r, hr, hq⟩ := Option.map_eq_some_iff.mp h
      have hquiet := resched_quiet hr
      obtain ⟨howned, hfree', hleaves⟩ := resched_owned hs.owned hfree hr
      have hleft : (∃ d, (r.threads d).donateTarget = some c) → 0 < (r.threads c).msectionCount := by
        rintro ⟨d, hd⟩
        exact hleaves d hd
      have hreturn := howned.return hfree' (.inl ((hquiet.point c).trans hp)) hleft
      have hserved := hreturn.served (hquiet.current.trans hc) hfree'.donates hfree'.entering
      exact (Prod.mk.inj hq).1 ▸ ⟨hserved.owned, fun _ => hserved.current⟩
    · cases h
  | wait sec refused exit =>
    simp only [threadKernel] at h
    split_ifs at h with hcond
    exact (Prod.mk.inj (Option.some.inj h)).1 ▸
      wait_served hs hc hcond.1 hcond.2.1 hcond.2.2 hrunnable
  | notify sec targets exit =>
    simp only [threadKernel] at h
    split_ifs at h with hcond
    obtain ⟨r, hr, hq⟩ := Option.map_eq_some_iff.mp h
    exact (Prod.mk.inj hq).1 ▸ (msectionNotify_steady hr).kernelServed hkernel
  | stopTarget target exit =>
    simp only [threadKernel] at h
    split_ifs at h with hp hcond
    obtain ⟨r, hr, hq⟩ := Option.map_eq_some_iff.mp h
    have hdonator := hs.owned.donations.donator hfree.donates (hok c hc) hp
    exact (Prod.mk.inj hq).1 ▸ threadStopTarget_served hs hc hdonator hcond.2.symm hr
  | stop exit =>
    simp only [threadKernel] at h
    split_ifs at h with hcond
    obtain ⟨r, hr, hq⟩ := Option.map_eq_some_iff.mp h
    have hnobody := hs.owned.donations.nobody hcond.2.1 hcond.2.2
    exact (Prod.mk.inj hq).1 ▸ (hs.owned.stop (hok c hc) hnobody hr).invalidate
  | start target delayed exit =>
    simp only [threadKernel] at h
    split_ifs at h with hp hcond
    exact (Prod.mk.inj (Option.some.inj h)).1 ▸ threadStart_served hs hc hrunnable delayed
  | block exit =>
    simp only [threadKernel] at h
    split_ifs at h with hcond
    exact (Prod.mk.inj (Option.some.inj h)).1 ▸ block_served hs hc hcond.2.1 hcond.2.2
  | call exit =>
    simp only [threadKernel] at h
    split_ifs at h with hp
    exact (Prod.mk.inj (Option.some.inj h)).1 ▸ hkernel
  | _ => cases h

theorem threadStep_served {c : Nat} {e : SectionInput} (hs : s.Served)
    (hc : s.threadCurrent = some c) (hok : s.Careful e)
    (hrunnable : (s.threads c).state = .runnable)
    (h : s.threadStep c (s.threads c) e = some t) : t.Served := by
  have hfree := hs.current c hc
  cases hkernel : s.threadKernel c (s.threads c) e with
  | some r =>
    rw [threadStep_of_kernel hkernel] at h
    exact exitKernel_served (threadKernel_served hs hc hok hrunnable hkernel) h
  | none =>
    rcases threadStep_of_no_kernel hkernel h with rfl | ⟨sec, hp, hflags, rfl⟩ | huser | huser
    · exact hs
    · have hreturn := hs.owned.return hfree (.inl hp) fun ⟨d, hd⟩ => by
        have hkilled := (hs.owned.donations.target d c hd).killed
        exact Nat.pos_of_ne_zero fun hcount => hflags (.inl ⟨hcount, hkilled⟩)
      exact hreturn.served hc hfree.donates hfree.entering
    · simp only [List.mem_cons, List.not_mem_nil, or_false] at huser
      rcases huser with rfl | rfl | rfl | rfl | rfl | rfl
      all_goals
        simp only [threadStep] at h
        split at h
      · rename_i hp
        exact Option.some.inj h ▸ approach_served hs hc (fun _ => some _) (by rw [hp]; rfl) rfl
          hrunnable (.inl rfl)
      · cases h
      · rename_i sec hp
        have happroach : (s.threads c).point.Approaches sec := by rw [hp]; rfl
        refine Option.some.inj h ▸ approach_served hs hc (·.sharedEntering) happroach ?_ hrunnable
          (.inr rfl)
        split_ifs <;> rfl
      · cases h
      · rename_i hp
        exact Option.some.inj h ▸ storeOwner_served hs hc hp hrunnable
      · cases h
      · rename_i hp
        exact Option.some.inj h ▸ finish_served hs hc hp hrunnable
      · cases h
      · rename_i hp
        exact Option.some.inj h ▸ discount_served hs hc hp hrunnable
      · cases h
      · rename_i sec hp
        have hreturn := hs.owned.return hfree (.inr hp)
          (hs.owned.leaves fun sec' hd => by rw [hp] at hd; cases hd)
        exact Option.some.inj h ▸ hreturn.served hc hfree.donates hfree.entering
      · cases h
    · obtain ⟨sec, rfl | rfl⟩ := huser
      · simp only [threadStep] at h
        split_ifs at h with hcond
        exact Option.some.inj h ▸ enter_served hs hc hcond.1 hcond.2 hrunnable
      · simp only [threadStep] at h
        split_ifs at h with hcond
        exact Option.some.inj h ▸ leave_served hs hc hcond.1 hcond.2 hrunnable

theorem step_served {e : SectionInput} (hs : s.Served) (hok : s.Careful e)
    (h : s.step e = some t) : t.Served := by
  by_cases hev : ∃ exit, e = .onEvent exit
  · obtain ⟨exit, rfl⟩ := hev
    exact onEvent_served hs hok h
  · obtain ⟨c, hc, hrunnable, hrun⟩ := step_thread (fun exit he => hev ⟨exit, he⟩) h
    exact threadStep_served hs hc hok hrunnable hrun

theorem Fresh.served (hs : s.Fresh) : s.Served := by
  refine ⟨⟨fun u => ?_, fun sec u hu => ?_, ⟨fun u _ => ⟨[], .nil, ?_, fun d => ?_⟩,
    fun d u hd => ?_⟩⟩, fun u _ => ?_⟩
  · obtain ⟨hp, hin, hcount, hshared, hentering, -⟩ := hs.threads u
    exact SectionThread.orderly_of_running hp hin hcount hshared hentering
  · cases (hs.owner sec).symm.trans hu
  · exact (hs.threads u).2.2.2.2.2.2
  · have := (hs.threads d).2.2.2.2.2.1
    simp [this]
  · cases ((hs.threads d).2.2.2.2.2.1).symm.trans hd
  · exact ⟨(hs.threads u).2.2.2.2.2.1, (hs.threads u).2.2.2.2.1⟩

/-- In every careful run, a section is owned by a thread that runs and is inside it or about to be, and
a thread is recorded as entering a section only while it is. -/
theorem no_phantom_owner {es : List SectionInput} (hs : s.Fresh)
    (hok : Run.Meets step Careful s es) (h : Run.exec step s es = some t) :
    (∀ sec u, t.owner sec = some u → (t.threads u).state = .runnable ∧
      (t.Inside u sec ∨ (t.threads u).point.Enters sec)) ∧
    ∀ u sec, (t.threads u).msectionEntering = some sec →
      t.Alive u ∧ (t.threads u).point.Enters sec := by
  have hserved := Run.invariant_of_meets (fun _ _ _ hs hok h => step_served hs hok h)
    hs.served hok h
  refine ⟨fun sec u hu => ?_, fun u sec hu => (hserved.owned.thread u).entering sec hu⟩
  obtain ⟨hrunnable, hin | hann⟩ := hserved.owned.owner sec u hu
  · refine ⟨hrunnable, ?_⟩
    by_cases hwait : (t.threads u).point = .waiting sec
    · exact .inr (.inr hwait)
    · exact .inl ⟨hin, hwait⟩
  · exact ⟨hrunnable, .inr (.inl hann)⟩

theorem contendedRun_careful : ∀ e ∈ contendedRun, ∀ s, Careful s e := by
  simp [contendedRun, switchEvent, Careful]

theorem no_phantom_owner_contended :
    ∃ t, Run.exec step twoThreads contendedRun = some t ∧ t.owner 0 = some 2 ∧
      (t.Inside 2 0 ∨ (t.threads 2).point.Enters 0) := by
  have hview : (Run.exec step twoThreads contendedRun).map (·.owner 0) = some (some 2) := by
    decide +kernel
  obtain ⟨t, ht, howner⟩ := Option.map_eq_some_iff.mp hview
  have howned := no_phantom_owner twoThreads_fresh (Run.meets_of_forall contendedRun_careful _) ht
  exact ⟨t, ht, howner, (howned.1 0 2 howner).2⟩

/-- Thread 1 is on its way into the section when an event records that and returns early; it
has left the section long since when the next event gives it the section. -/
def phantomRun : List SectionInput :=
  [switchEvent 1, .enter 0, .announce, .onEvent ⟨[], false, .idle⟩, .readOwner, .storeOwner,
    .finish, .leave 0, .discount, .checkFlags ⟨[], false, .idle⟩, switchEvent 1]

theorem no_phantom_owner_fails :
    ∃ t, Run.exec step twoThreads phantomRun = some t ∧ t.owner 0 = some 1 ∧
      ¬ (t.Inside 1 0 ∨ (t.threads 1).point.Enters 0) := by
  have hview : (Run.exec step twoThreads phantomRun).map
      (fun t => (t.owner 0, (t.threads 1).inside, (t.threads 1).point)) =
        some (some 1, [], .running) := by
    decide +kernel
  obtain ⟨t, ht, hv⟩ := Option.map_eq_some_iff.mp hview
  obtain ⟨howner, hrest⟩ := Prod.mk.inj hv
  obtain ⟨hinside, hpoint⟩ := Prod.mk.inj hrest
  refine ⟨t, ht, howner, ?_⟩
  rintro (⟨hin, -⟩ | henters)
  · rw [hinside] at hin
    cases hin
  · rw [hpoint] at henters
    rcases henters with hann | hwait
    · exact hann
    · cases hwait

end SectionSystem

end Chpok
