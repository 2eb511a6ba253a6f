import Chpok.Kernel.MsectionFrame

/-! Mutual exclusion of msections. A thread that has been preempted on its way into a
section either owns it or is recorded as entering it, so it does not run again before the
scheduler has given it the section. -/

namespace Chpok

namespace SectionPoint

/-- The thread has seen the owner of the section, or waits to get the section back. -/
def Acquires (sec : Nat) : SectionPoint → Prop
  | .readFree s | .readOther s | .acquired s | .waiting s => s = sec
  | _ => False

end SectionPoint

namespace SectionSystem

variable {s t : SectionSystem} {u v sec : Nat}

/-- What holds at all times, inside the kernel too. -/
structure Settled (s : SectionSystem) : Prop where
  inside : ∀ u sec, sec ∈ (s.threads u).inside → (s.threads u).point ≠ .waiting sec →
    s.owner sec = some u
  announced : ∀ u sec, s.Alive u → (s.threads u).point.Announces sec →
    (s.threads u).sharedEntering = some sec

/-- A thread may be taken off the processor. -/
def Ready (s : SectionSystem) (u : Nat) : Prop :=
  s.Alive u → ∀ sec, (s.threads u).point.Acquires sec →
    s.owner sec = some u ∨ (s.threads u).msectionEntering = some sec

/-- A thread may go on. -/
structure Going (s : SectionSystem) (u : Nat) : Prop where
  acquired : s.Alive u → ∀ sec, (s.threads u).point = .acquired sec ∨
    (s.threads u).point = .waiting sec → s.owner sec = some u
  readFree : s.Alive u → ∀ sec, (s.threads u).point = .readFree sec →
    s.owner sec = none ∨ s.owner sec = some u
  readOther : s.Alive u → ∀ sec, (s.threads u).point = .readOther sec → s.owner sec ≠ none

structure Exclusive (s : SectionSystem) : Prop where
  settled : s.Settled
  ready : ∀ u, s.threadCurrent ≠ some u → s.Ready u
  going : ∀ u, s.threadCurrent = some u → s.Going u

/-- The kernel may leave by the early return only if the current thread may go on. -/
structure KernelExclusive (s : SectionSystem) : Prop where
  settled : s.Settled
  ready : ∀ u, s.Ready u
  going : s.recheckNeeded = false → ∀ u, s.threadCurrent = some u → s.Going u

/-- Nothing happens to the sections and to the threads' way into them, but that threads
may be stopped. -/
structure Quiet (t s : SectionSystem) : Prop where
  owner : ∀ sec, t.owner sec = s.owner sec
  point : ∀ u, (t.threads u).point = (s.threads u).point
  inside : ∀ u, (t.threads u).inside = (s.threads u).inside
  shared : ∀ u, (t.threads u).sharedEntering = (s.threads u).sharedEntering
  alive : ∀ u, t.Alive u → s.Alive u
  entering : ∀ u, t.Alive u → (t.threads u).msectionEntering = (s.threads u).msectionEntering
  current : t.threadCurrent = s.threadCurrent
  recheck : s.recheckNeeded = true → t.recheckNeeded = true

theorem Quiet.refl (s : SectionSystem) : s.Quiet s :=
  ⟨fun _ => rfl, fun _ => rfl, fun _ => rfl, fun _ => rfl, fun _ h => h, fun _ _ => rfl, rfl,
    fun h => h⟩

theorem Quiet.trans {r : SectionSystem} (h : t.Quiet s) (h' : s.Quiet r) : t.Quiet r where
  owner sec := (h.owner sec).trans (h'.owner sec)
  point u := (h.point u).trans (h'.point u)
  inside u := (h.inside u).trans (h'.inside u)
  shared u := (h.shared u).trans (h'.shared u)
  alive u hu := h'.alive u (h.alive u hu)
  entering u hu := (h.entering u hu).trans (h'.entering u (h.alive u hu))
  current := h.current.trans h'.current
  recheck hr := h.recheck (h'.recheck hr)

theorem Steady.quiet (h : t.Steady s) : t.Quiet s where
  owner := h.owner
  point u := (h.thread u).point
  inside u := (h.thread u).inside
  shared u := (h.thread u).shared
  alive u hu := mt (h.thread u).stopped.mpr hu
  entering u _ := (h.thread u).entering
  current := h.current
  recheck := h.recheck

theorem Quiet.settled (h : t.Quiet s) (hs : s.Settled) : t.Settled := by
  refine ⟨fun u sec hin hp => ?_, fun u sec ha hp => ?_⟩
  · rw [h.owner]
    exact hs.inside u sec (h.inside u ▸ hin) (h.point u ▸ hp)
  · rw [h.shared]
    exact hs.announced u sec (h.alive u ha) (h.point u ▸ hp)

theorem Quiet.ready (h : t.Quiet s) (hs : s.Ready u) : t.Ready u := by
  intro ha sec hp
  rw [h.owner, h.entering u ha]
  exact hs (h.alive u ha) sec (h.point u ▸ hp)

theorem Quiet.going (h : t.Quiet s) (hs : s.Going u) : t.Going u := by
  refine ⟨fun ha sec hp => ?_, fun ha sec hp => ?_, fun ha sec hp => ?_⟩
  · rw [h.owner]
    exact hs.acquired (h.alive u ha) sec (h.point u ▸ hp)
  · rw [h.owner]
    exact hs.readFree (h.alive u ha) sec (h.point u ▸ hp)
  · rw [h.owner]
    exact hs.readOther (h.alive u ha) sec (h.point u ▸ hp)

theorem Quiet.kernelExclusive (h : t.Quiet s) (hs : s.KernelExclusive) : t.KernelExclusive := by
  refine ⟨h.settled hs.settled, fun u => h.ready (hs.ready u), fun hr u hu => ?_⟩
  have hr' : s.recheckNeeded = false := by
    by_contra hne
    rw [h.recheck (by simpa using hne)] at hr
    cases hr
  exact h.going (hs.going hr' u (h.current ▸ hu))

/-- An update of one thread is quiet if it is so for that thread. -/
theorem updateThread_quiet {f : SectionThread → SectionThread}
    (hpoint : (f (s.threads u)).point = (s.threads u).point)
    (hinside : (f (s.threads u)).inside = (s.threads u).inside)
    (hshared : (f (s.threads u)).sharedEntering = (s.threads u).sharedEntering)
    (halive : (f (s.threads u)).state ≠ .stopped → (s.threads u).state ≠ .stopped ∧
      (f (s.threads u)).msectionEntering = (s.threads u).msectionEntering) :
    (s.updateThread u f).Quiet s := by
  refine ⟨fun _ => rfl, fun v => ?_, fun v => ?_, fun v => ?_, fun v hv => ?_, fun v hv => ?_, rfl,
    fun h => h⟩
  all_goals by_cases hne : v = u
  · subst hne
    rwa [updateThread_threads_self]
  · rw [updateThread_threads_ne hne]
  · subst hne
    rwa [updateThread_threads_self]
  · rw [updateThread_threads_ne hne]
  · subst hne
    rwa [updateThread_threads_self]
  · rw [updateThread_threads_ne hne]
  · subst hne
    rw [Alive, updateThread_threads_self] at hv
    exact (halive hv).1
  · rwa [Alive, updateThread_threads_ne hne] at hv
  · subst hne
    rw [Alive, updateThread_threads_self] at hv
    rw [updateThread_threads_self]
    exact (halive hv).2
  · rw [updateThread_threads_ne hne]

theorem threadStop_quiet (h : s.threadStop u = some t) : t.Quiet s := by
  simp only [threadStop] at h
  split_ifs at h
  obtain rfl := Option.some.inj h
  exact updateThread_quiet rfl rfl rfl fun hne => absurd rfl hne

theorem donate_quiet (s : SectionSystem) (c target : Nat) (next : Option Nat) :
    (s.donate c target next).Quiet s :=
  updateThread_quiet rfl rfl rfl fun hne => ⟨hne, rfl⟩

theorem threadStopTarget_quiet {c : Nat} (h : s.threadStopTarget c u = some t) : t.Quiet s := by
  simp only [threadStopTarget] at h
  by_cases hstopped : (s.threads u).state = .stopped
  · rw [if_pos hstopped] at h
    exact Option.some.inj h ▸ .refl s
  rw [if_neg hstopped] at h
  cases htarget : (s.threads u).donateTarget with
  | some target =>
    simp only [htarget] at h
    obtain rfl := Option.some.inj h
    refine (invalidate_steady _).quiet.trans ((donate_quiet ..).trans ?_)
    exact updateThread_quiet rfl rfl rfl fun hne => ⟨hne, rfl⟩
  | none =>
    simp only [htarget] at h
    split_ifs at h
    · obtain rfl := Option.some.inj h
      refine (invalidate_steady _).quiet.trans ((donate_quiet ..).trans ?_)
      exact updateThread_quiet rfl rfl rfl fun hne => ⟨hne, rfl⟩
    · obtain ⟨r, hr, rfl⟩ := Option.map_eq_some_iff.mp h
      refine (invalidate_steady _).quiet.trans ((donate_quiet ..).trans (.trans ?_
        (interruptWait_steady hr).quiet))
      exact updateThread_quiet rfl rfl rfl fun hne => ⟨hne, rfl⟩
    · exact threadStop_quiet h

theorem resumeDonator_quiet (h : s.resumeDonator u = some t) : t.Quiet s := by
  obtain ⟨r, hr, rfl⟩ := Option.map_eq_some_iff.mp h
  have hfirst : r.Quiet s := by
    split_ifs at hr
    · exact Option.some.inj hr ▸ .refl s
    · refine (threadStop_quiet hr).trans ?_
      exact updateThread_quiet rfl rfl rfl fun hne => ⟨hne, rfl⟩
  refine (recheck_steady _ _).quiet.trans (.trans ?_ hfirst)
  exact updateThread_quiet rfl rfl rfl fun hne => ⟨hne, rfl⟩

theorem resumeDonators_quiet {fuel : Nat} (h : resumeDonators fuel s u = some t) :
    t.Quiet s := by
  induction fuel generalizing s u with
  | zero => cases h
  | succ fuel ih =>
    obtain ⟨r, hr, hnext⟩ := Option.bind_eq_some_iff.mp h
    have hquiet := resumeDonator_quiet hr
    cases hn : (s.threads u).nextDonator with
    | none =>
      simp only [hn] at hnext
      exact Option.some.inj hnext ▸ hquiet
    | some next =>
      simp only [hn] at hnext
      exact (ih hnext).trans hquiet

theorem resched_quiet (h : s.resched u = some t) : t.Quiet s := by
  simp only [resched] at h
  cases hd : (s.threads u).firstDonator with
  | none =>
    simp only [hd] at h
    exact Option.some.inj h ▸ (checkReleased_steady s).quiet
  | some donator =>
    simp only [hd] at h
    split_ifs at h
    · obtain ⟨r, hr, ht⟩ := Option.bind_eq_some_iff.mp h
      refine (resumeDonators_quiet ht).trans ((threadStop_quiet hr).trans (.trans ?_
        (checkReleased_steady s).quiet))
      exact updateThread_quiet rfl rfl rfl fun hne => ⟨hne, rfl⟩
    · exact Option.some.inj h ▸ (checkReleased_steady s).quiet

/-- All threads may be taken off the processor. -/
structure Switchable (s : SectionSystem) : Prop where
  settled : s.Settled
  ready : ∀ u, s.Ready u

theorem Quiet.switchable (h : t.Quiet s) (hs : s.Switchable) : t.Switchable :=
  ⟨h.settled hs.settled, fun u => h.ready (hs.ready u)⟩

/-- The section is given to a thread that enters it, while nobody else owns it. -/
theorem Switchable.grant (hs : s.Switchable)
    (hentering : (s.threads u).msectionEntering = some sec)
    (hfree : s.owner sec = none ∨ s.owner sec = some u) : (s.grant u sec).Switchable := by
  have howner : ∀ sec' v, s.owner sec' = some v → (s.grant u sec).owner sec' = some v :=
    fun _ _ => owner_granted hfree
  have hpoint : ∀ v, ((s.grant u sec).threads v).point = (s.threads v).point := by
    intro v
    by_cases hne : v = u
    · rw [hne, grant_threads_self]
    · rw [grant_threads_ne hne]
  have halive : ∀ v, (s.grant u sec).Alive v → s.Alive v := by
    intro v hv
    by_cases hne : v = u
    · subst hne
      rwa [Alive, grant_threads_self] at hv
    · rwa [Alive, grant_threads_ne hne] at hv
  refine ⟨⟨fun v sec' hin hp => ?_, fun v sec' ha hp => ?_⟩, fun v ha sec' hp => ?_⟩
  · rw [hpoint] at hp
    refine howner sec' v (hs.settled.inside v sec' ?_ hp)
    by_cases hne : v = u
    · subst hne
      rwa [grant_threads_self] at hin
    · rwa [grant_threads_ne hne] at hin
  · rw [hpoint] at hp
    have hshared := hs.settled.announced v sec' (halive v ha) hp
    by_cases hne : v = u
    · subst hne
      rwa [grant_threads_self]
    · rwa [grant_threads_ne hne]
  · rw [hpoint] at hp
    rcases hs.ready v (halive v ha) sec' hp with hown | hent
    · exact .inl (howner sec' v hown)
    · by_cases hne : v = u
      · subst hne
        obtain rfl : sec = sec' := Option.some.inj (hentering.symm.trans hent)
        exact .inl grant_owner_self
      · rw [grant_threads_ne hne]
        exact .inr hent

theorem selectThread_switchable {selected : Option Nat} {r : SectionSystem × Option Nat}
    (hs : s.Switchable) (h : s.selectThread selected = some r) :
    r.1.Switchable ∧ ∀ n, r.2 = some n → (r.1.threads n).msectionEntering = none := by
  obtain ⟨hr, hn⟩ := selectThread_rule (P := Switchable) (Q := fun _ _ => True)
    (fun hsteady => hsteady.quiet.switchable) (fun _ _ => trivial)
    (fun hs _ hentering hfree => ⟨hs.grant hentering hfree, trivial⟩) (fun _ _ _ => trivial)
    hs (fun _ _ => trivial) h
  exact ⟨hr, fun n h => (hn n h).2⟩

theorem Switchable.reset (hs : s.Switchable) {f : SectionThread → SectionThread}
    (hpoint : (f (s.threads u)).point = .running) (hinside : (f (s.threads u)).inside = []) :
    (s.updateThread u f).Switchable := by
  refine ⟨⟨fun v sec hin hp => ?_, fun v sec ha hp => ?_⟩, fun v ha sec hp => ?_⟩
  all_goals by_cases hne : v = u
  · subst hne
    rw [updateThread_threads_self, hinside] at hin
    cases hin
  · rw [updateThread_threads_ne hne] at hin hp
    exact hs.settled.inside v sec hin hp
  · subst hne
    rw [updateThread_threads_self, hpoint] at hp
    exact hp.elim
  · rw [Alive, updateThread_threads_ne hne] at ha
    rw [updateThread_threads_ne hne] at hp ⊢
    exact hs.settled.announced v sec ha hp
  · subst hne
    rw [updateThread_threads_self, hpoint] at hp
    exact hp.elim
  · rw [Alive, updateThread_threads_ne hne] at ha
    rw [updateThread_threads_ne hne] at hp ⊢
    exact hs.ready v ha sec hp

theorem schedRule_switchable {choice : SchedChoice} {r : SectionSystem × Option Nat}
    (hs : s.Switchable) (h : s.schedRule choice = some r) : r.1.Switchable := by
  cases choice with
  | idle =>
    obtain rfl := Option.some.inj h
    exact hs
  | «continue» u =>
    simp only [schedRule] at h
    split_ifs at h
    obtain rfl := Option.some.inj h
    exact hs
  | startError =>
    simp only [schedRule] at h
    split at h
    · cases h
    · split_ifs at h
      obtain rfl := Option.some.inj h
      exact hs.reset (f := fun th => { resetContext th with state := .runnable }) rfl rfl

/-- The thread switched to has nothing left to enter, so it may go on. -/
theorem switchTo_exclusive {new : Option Nat} (hs : s.Switchable)
    (hnew : ∀ n, new = some n → (s.threads n).msectionEntering = none)
    (h : s.switchTo new = some t) : t.Exclusive := by
  cases new with
  | none =>
    obtain rfl := Option.some.inj h
    exact ⟨⟨hs.settled.inside, hs.settled.announced⟩, fun u _ => hs.ready u, nofun⟩
  | some n =>
    simp only [switchTo] at h
    split_ifs at h
    obtain rfl := Option.some.inj h
    have hquiet := (hasContext_steady s n).quiet
    have hsw := hquiet.switchable hs
    refine ⟨⟨hsw.settled.inside, hsw.settled.announced⟩, fun u _ => hsw.ready u, fun u hu => ?_⟩
    obtain rfl := Option.some.inj hu
    have howner : (s.updateThread n fun th => { th with hasContext := true }).Alive n →
        ∀ sec, (s.threads n).point.Acquires sec → s.owner sec = some n := by
      intro ha sec hp
      have hent := hnew n rfl
      refine (hs.ready n (hquiet.alive n ha) sec hp).resolve_right ?_
      rw [hent]
      exact nofun
    have hpoint := hquiet.point n
    refine ⟨fun ha sec hp => ?_, fun ha sec hp => ?_, fun ha sec hp => ?_⟩
    · rcases hp with hp | hp
      · exact howner ha sec (by rw [← hpoint, hp]; rfl)
      · exact howner ha sec (by rw [← hpoint, hp]; rfl)
    · exact .inr (howner ha sec (by rw [← hpoint, hp]; rfl))
    · intro hnone
      have := howner ha sec (by rw [← hpoint, hp]; rfl)
      exact absurd (this.symm.trans hnone) (by simp)

theorem schedArinc_exclusive {choice : SchedChoice} (hs : s.KernelExclusive)
    (h : s.schedArinc choice = some t) : t.Exclusive := by
  simp only [schedArinc] at h
  by_cases hr : s.recheckNeeded = true
  · rw [if_pos hr] at h
    obtain ⟨r, hrule, hsel⟩ := Option.bind_eq_some_iff.mp h
    obtain ⟨n, hn, hsw⟩ := Option.bind_eq_some_iff.mp hsel
    have hstart : Switchable { s with recheckNeeded := false } :=
      ⟨⟨hs.settled.inside, hs.settled.announced⟩, hs.ready⟩
    obtain ⟨hswitch, hnone⟩ := selectThread_switchable (schedRule_switchable hstart hrule) hn
    exact switchTo_exclusive hswitch hnone hsw
  · rw [if_neg hr] at h
    obtain rfl := Option.some.inj h
    exact ⟨hs.settled, fun u _ => hs.ready u, hs.going (by simpa using hr)⟩

theorem exitKernel_exclusive {e : KernelExit} (hs : s.KernelExclusive)
    (h : s.exitKernel e = some t) : t.Exclusive := by
  obtain ⟨r, hr, ht⟩ := Option.bind_eq_some_iff.mp h
  have hquiet := (recheck_steady r e.invalidate).quiet.trans (wakeAll_steady hr).quiet
  exact schedArinc_exclusive (hquiet.kernelExclusive hs) ht

/-- A step of the program of the current thread, which takes no section away from another
thread. -/
theorem Exclusive.of_current {c : Nat} (hs : s.Exclusive) (hc : s.threadCurrent = some c)
    (htc : t.threadCurrent = some c) (hothers : ∀ v, v ≠ c → t.threads v = s.threads v)
    (howner : ∀ sec v, v ≠ c → s.owner sec = some v → t.owner sec = some v)
    (hinside : ∀ sec, sec ∈ (t.threads c).inside → (t.threads c).point ≠ .waiting sec →
      t.owner sec = some c)
    (hannounced : ∀ sec, (t.threads c).point.Announces sec →
      (t.threads c).sharedEntering = some sec)
    (hgoing : t.Going c) : t.Exclusive := by
  refine ⟨⟨fun v sec hin hp => ?_, fun v sec ha hp => ?_⟩, fun v hv ha sec hp => ?_,
    fun v hv => ?_⟩
  · by_cases hne : v = c
    · subst hne
      exact hinside sec hin hp
    · rw [hothers v hne] at hin hp
      exact howner sec v hne (hs.settled.inside v sec hin hp)
  · by_cases hne : v = c
    · subst hne
      exact hannounced sec hp
    · rw [Alive, hothers v hne] at ha
      rw [hothers v hne] at hp ⊢
      exact hs.settled.announced v sec ha hp
  · have hne : v ≠ c := fun he => hv (he ▸ htc)
    rw [Alive, hothers v hne] at ha
    rw [hothers v hne] at hp ⊢
    exact (hs.ready v (fun he => hne (Option.some.inj (hc.symm.trans he)).symm) ha sec
      hp).imp_left (howner sec v hne)
  · obtain rfl := Option.some.inj (htc.symm.trans hv)
    exact hgoing

theorem going_of_point (hp : ∀ sec, ¬ (s.threads u).point.Acquires sec) : s.Going u := by
  refine ⟨fun _ sec h => ?_, fun _ sec h => ?_, fun _ sec h => ?_⟩
  · rcases h with h | h
    · exact absurd (h ▸ rfl) (hp sec)
    · exact absurd (h ▸ rfl) (hp sec)
  · exact absurd (h ▸ rfl) (hp sec)
  · exact absurd (h ▸ rfl) (hp sec)

theorem Exclusive.enterKernel {c : Nat} (hs : s.Exclusive) (hc : s.threadCurrent = some c)
    (hready : s.Ready c) : s.KernelExclusive := by
  refine ⟨hs.settled, fun u => ?_, fun _ u hu => hs.going u hu⟩
  by_cases hu : s.threadCurrent = some u
  · obtain rfl := Option.some.inj (hc.symm.trans hu)
    exact hready
  · exact hs.ready u hu

theorem ready_of_running (hp : (s.threads u).point = .running) : s.Ready u := by
  intro _ sec h
  rw [hp] at h
  exact h.elim

theorem ready_of_discounted (hp : (s.threads u).point = .discounted sec) : s.Ready u := by
  intro _ sec' h
  rw [hp] at h
  exact h.elim

theorem recordEntering_exclusive (hs : s.Exclusive) : s.recordEntering.KernelExclusive := by
  have hready : ∀ c, s.threadCurrent = some c → ∀ sec, s.Alive c →
      (s.threads c).point.Acquires sec →
      s.owner sec = some c ∨ (s.threads c).sharedEntering = some sec := by
    intro c hc sec ha hp
    have hann := hs.settled.announced c sec ha
    have hgo := (hs.going c hc).acquired ha sec
    cases hpoint : (s.threads c).point with
    | readFree | readOther | acquired =>
      rw [hpoint] at hp hann
      exact .inr (hann hp)
    | waiting =>
      rw [hpoint] at hp
      exact .inl (hgo (.inr (hp ▸ hpoint)))
    | running | counted | announced | left | discounted =>
      rw [hpoint] at hp
      exact hp.elim
  simp only [recordEntering]
  cases hc : s.threadCurrent with
  | none => exact ⟨hs.settled, fun u => hs.ready u (by simp [hc]), fun _ u hu => hs.going u hu⟩
  | some c =>
    cases hshared : (s.threads c).sharedEntering with
    | none =>
      simp only [hshared]
      refine hs.enterKernel hc fun ha sec hp => .inl ((hready c hc sec ha hp).resolve_right ?_)
      rw [hshared]
      exact nofun
    | some sec =>
      simp only [hshared]
      refine ⟨⟨fun v sec' hin hp => ?_, fun v sec' ha hp => ?_⟩, fun v ha sec' hp => ?_,
        fun _ v hv => ?_⟩
      · by_cases hne : v = c
        · subst hne
          rw [updateThread_threads_self] at hin hp
          exact hs.settled.inside v sec' hin hp
        · rw [updateThread_threads_ne hne] at hin hp
          exact hs.settled.inside v sec' hin hp
      · by_cases hne : v = c
        · subst hne
          rw [Alive, updateThread_threads_self] at ha
          rw [updateThread_threads_self] at hp ⊢
          exact hs.settled.announced v sec' ha hp
        · rw [Alive, updateThread_threads_ne hne] at ha
          rw [updateThread_threads_ne hne] at hp ⊢
          exact hs.settled.announced v sec' ha hp
      · by_cases hne : v = c
        · subst hne
          rw [Alive, updateThread_threads_self] at ha
          rw [updateThread_threads_self] at hp ⊢
          exact (hready v hc sec' ha hp).imp_right fun h => hshared.symm.trans h
        · rw [Alive, updateThread_threads_ne hne] at ha
          rw [updateThread_threads_ne hne] at hp ⊢
          exact hs.ready v (fun he => hne (Option.some.inj (hc.symm.trans he)).symm) ha sec' hp
      · obtain rfl := Option.some.inj (hc.symm.trans hv)
        have hgo := hs.going c hc
        refine ⟨fun ha sec' hp => ?_, fun ha sec' hp => ?_, fun ha sec' hp => ?_⟩
        · rw [Alive, updateThread_threads_self] at ha
          rw [updateThread_threads_self] at hp
          exact hgo.acquired ha sec' hp
        · rw [Alive, updateThread_threads_self] at ha
          rw [updateThread_threads_self] at hp
          exact hgo.readFree ha sec' hp
        · rw [Alive, updateThread_threads_self] at ha
          rw [updateThread_threads_self] at hp
          exact hgo.readOther ha sec' hp

theorem Exclusive.advance {c : Nat} (hs : s.Exclusive) (hc : s.threadCurrent = some c)
    {f : SectionThread → SectionThread}
    (hinside : ∀ sec, sec ∈ (f (s.threads c)).inside →
      (f (s.threads c)).point ≠ .waiting sec → s.owner sec = some c)
    (hannounced : ∀ sec, (f (s.threads c)).point.Announces sec →
      (f (s.threads c)).sharedEntering = some sec)
    (hgoing : (s.updateThread c f).Going c) : (s.updateThread c f).Exclusive := by
  refine hs.of_current hc hc (fun v hne => updateThread_threads_ne hne f) (fun _ _ _ h => h)
    (fun sec hin hp => ?_) (fun sec hp => ?_) hgoing
  · rw [updateThread_threads_self] at hin hp
    exact hinside sec hin hp
  · rw [updateThread_threads_self] at hp ⊢
    exact hannounced sec hp

theorem Exclusive.advance_outside {c : Nat} (hs : s.Exclusive) (hc : s.threadCurrent = some c)
    {f : SectionThread → SectionThread} (hinside : ∀ sec, sec ∈ (f (s.threads c)).inside →
      (f (s.threads c)).point ≠ .waiting sec → s.owner sec = some c)
    (hannounced : ∀ sec, (f (s.threads c)).point.Announces sec →
      (f (s.threads c)).sharedEntering = some sec)
    (hpoint : ∀ sec, ¬ (f (s.threads c)).point.Acquires sec) : (s.updateThread c f).Exclusive := by
  refine hs.advance hc hinside hannounced (going_of_point fun sec hp => ?_)
  rw [updateThread_threads_self] at hp
  exact hpoint sec hp

theorem enter_exclusive {c : Nat} (hs : s.Exclusive) (hc : s.threadCurrent = some c)
    (hp : (s.threads c).point = .running) :
    (s.updateThread c fun th => { th with
      msectionCount := th.msectionCount + 1, point := .counted sec }).Exclusive := by
  refine hs.advance_outside hc (fun sec' hin _ => ?_) (fun _ h => h.elim) (fun _ h => h)
  exact hs.settled.inside c sec' hin (by rw [hp]; simp)

theorem announce_exclusive {c : Nat} (hs : s.Exclusive) (hc : s.threadCurrent = some c)
    (hp : (s.threads c).point = .counted sec) :
    (s.updateThread c fun th => { th with
      sharedEntering := some sec, point := .announced sec }).Exclusive := by
  refine hs.advance_outside hc (fun sec' hin _ => ?_) (fun sec' h => congrArg some h)
    (fun _ h => h)
  exact hs.settled.inside c sec' hin (by rw [hp]; simp)

theorem readOwner_exclusive {c : Nat} (hs : s.Exclusive) (hc : s.threadCurrent = some c)
    (hp : (s.threads c).point = .announced sec) (ha : s.Alive c) :
    (s.updateThread c fun th => { th with
      point := if (s.sections sec).owner = none then .readFree sec
        else if (s.sections sec).owner = some c then .acquired sec
        else .readOther sec }).Exclusive := by
  have hin : ∀ sec' ∈ (s.threads c).inside, s.owner sec' = some c := by
    intro sec' hin
    exact hs.settled.inside c sec' hin (by rw [hp]; simp)
  have hshared : (s.threads c).sharedEntering = some sec :=
    hs.settled.announced c sec ha (by rw [hp]; rfl)
  by_cases hfree : (s.sections sec).owner = none
  · simp only [if_pos hfree]
    refine hs.advance hc (fun sec' h _ => hin sec' h)
      (fun sec' h => hshared.trans (congrArg some h)) ?_
    refine ⟨fun _ sec' h => ?_, fun _ sec' h => ?_, fun _ sec' h => ?_⟩
    all_goals simp only [updateThread_threads_self] at h
    · simp at h
    · obtain rfl := SectionPoint.readFree.inj h
      exact .inl hfree
    · cases h
  · by_cases hown : (s.sections sec).owner = some c
    · simp only [if_neg hfree, if_pos hown]
      refine hs.advance hc (fun sec' h _ => hin sec' h)
        (fun sec' h => hshared.trans (congrArg some h)) ?_
      refine ⟨fun _ sec' h => ?_, fun _ sec' h => ?_, fun _ sec' h => ?_⟩
      all_goals simp only [updateThread_threads_self] at h
      · obtain rfl : sec = sec' := by simpa using h
        exact hown
      · cases h
      · cases h
    · simp only [if_neg hfree, if_neg hown]
      refine hs.advance hc (fun sec' h _ => hin sec' h)
        (fun sec' h => hshared.trans (congrArg some h)) ?_
      refine ⟨fun _ sec' h => ?_, fun _ sec' h => ?_, fun _ sec' h => ?_⟩
      all_goals simp only [updateThread_threads_self] at h
      · simp at h
      · cases h
      · obtain rfl := SectionPoint.readOther.inj h
        exact hfree

/-- The section is free, so that storing its owner takes it from nobody. -/
theorem storeOwner_exclusive {c : Nat} (hs : s.Exclusive) (hc : s.threadCurrent = some c)
    (hp : (s.threads c).point = .readFree sec) (ha : s.Alive c) :
    ((s.updateSection sec fun m => { m with owner := some c }).updateThread c fun th =>
      { th with point := .acquired sec }).Exclusive := by
  have hfree := (hs.going c hc).readFree ha sec hp
  have howner : ∀ sec' v, s.owner sec' = some v →
      (s.updateSection sec fun m => { m with owner := some c }).owner sec' = some v :=
    fun _ _ => owner_granted hfree
  refine hs.of_current hc hc (fun v hne => updateThread_threads_ne hne _)
    (fun sec' v _ hv => howner sec' v hv) (fun sec' hin _ => ?_) (fun sec' h => ?_) ?_
  · rw [updateThread_threads_self] at hin
    exact howner sec' c (hs.settled.inside c sec' hin (by rw [hp]; simp))
  · rw [updateThread_threads_self] at h ⊢
    exact (hs.settled.announced c sec ha (by rw [hp]; rfl)).trans (congrArg some h)
  · refine ⟨fun _ sec' h => ?_, fun _ sec' h => ?_, fun _ sec' h => ?_⟩
    all_goals simp only [updateThread_threads_self] at h
    · obtain rfl : sec = sec' := by simpa using h
      rw [updateThread_owner, updateSection_owner_self]
    · cases h
    · cases h

theorem finish_exclusive {c : Nat} (hs : s.Exclusive) (hc : s.threadCurrent = some c)
    (hp : (s.threads c).point = .acquired sec) (ha : s.Alive c) :
    (s.updateThread c fun th => { th with
      sharedEntering := none, point := .running, inside := sec :: th.inside }).Exclusive := by
  refine hs.advance_outside hc (fun sec' hin _ => ?_) (fun _ h => h.elim) (fun _ h => h)
  rcases List.mem_cons.mp hin with rfl | hin
  · exact (hs.going c hc).acquired ha _ (.inl hp)
  · exact hs.settled.inside c sec' hin (by rw [hp]; simp)

theorem leave_exclusive {c : Nat} (hs : s.Exclusive) (hc : s.threadCurrent = some c)
    (hp : (s.threads c).point = .running) (hin : sec ∈ (s.threads c).inside) :
    ((s.updateSection sec fun m => { m with owner := none }).updateThread c fun th =>
      { th with point := .left sec, inside := th.inside.filter (· ≠ sec) }).Exclusive := by
  have hinside : ∀ sec' ∈ (s.threads c).inside, s.owner sec' = some c := by
    intro sec' hin'
    exact hs.settled.inside c sec' hin' (by rw [hp]; simp)
  refine hs.of_current hc hc (fun v hne => updateThread_threads_ne hne _) (fun sec' v hne hv => ?_)
    (fun sec' hin' _ => ?_) (fun sec' h => ?_) (going_of_point fun sec' h => ?_)
  · rw [updateThread_owner, updateSection_owner_ne]
    · exact hv
    · rintro rfl
      exact hne (Option.some.inj (hv.symm.trans (hinside sec' hin)))
  · rw [updateThread_threads_self] at hin'
    obtain ⟨hmem, hne⟩ := List.mem_filter.mp hin'
    rw [updateThread_owner, updateSection_owner_ne (by simpa using hne)]
    exact hinside sec' hmem
  · rw [updateThread_threads_self] at h
    exact h.elim
  · rw [updateThread_threads_self] at h
    exact h

theorem discount_exclusive {c : Nat} (hs : s.Exclusive) (hc : s.threadCurrent = some c)
    (hp : (s.threads c).point = .left sec) :
    (s.updateThread c fun th => { th with
      msectionCount := th.msectionCount - 1, point := .discounted sec }).Exclusive := by
  refine hs.advance_outside hc (fun sec' hin _ => ?_) (fun _ h => h.elim) (fun _ h => h)
  exact hs.settled.inside c sec' hin (by rw [hp]; simp)

theorem return_exclusive {c : Nat} (hs : s.Exclusive) (hc : s.threadCurrent = some c)
    (hp : (s.threads c).point = .discounted sec) :
    (s.updateThread c fun th => { th with point := .running }).Exclusive := by
  refine hs.advance_outside hc (fun sec' hin _ => ?_) (fun _ h => h.elim) (fun _ h => h)
  exact hs.settled.inside c sec' hin (by rw [hp]; simp)

theorem waitReturn_exclusive {c : Nat} (hs : s.Exclusive) (hc : s.threadCurrent = some c)
    (hp : (s.threads c).point = .waiting sec) (ha : s.Alive c) :
    (s.updateThread c fun th => { th with point := .running }).Exclusive := by
  refine hs.advance_outside hc (fun sec' hin _ => ?_) (fun _ h => h.elim) (fun _ h => h)
  by_cases hne : sec' = sec
  · subst hne
    exact (hs.going c hc).acquired ha _ (.inr hp)
  · refine hs.settled.inside c sec' hin ?_
    rw [hp]
    simpa using Ne.symm hne

/-- The helper either finds the section its caller's or makes the scheduler run. -/
theorem enterHelper_exclusive {c : Nat} (hs : s.Exclusive) (hc : s.threadCurrent = some c)
    (hp : (s.threads c).point = .readOther sec) (ha : s.Alive c) :
    ((s.updateThread c fun th => { th with
      point := .acquired sec }).msectionEnterHelper c sec).KernelExclusive := by
  have hother := (hs.going c hc).readOther ha sec hp
  have hin : ∀ sec' ∈ (s.threads c).inside, s.owner sec' = some c := by
    intro sec' hin
    exact hs.settled.inside c sec' hin (by rw [hp]; simp)
  have hshared : (s.threads c).sharedEntering = some sec :=
    hs.settled.announced c sec ha (by rw [hp]; rfl)
  by_cases hown : s.owner sec = some c
  · have hnot : ¬ ((s.sections sec).owner ≠ none ∧ (s.sections sec).owner ≠ some c) :=
      fun h => h.2 hown
    have hstay : (s.updateThread c fun th => { th with
        point := .acquired sec }).msectionEnterHelper c sec =
        s.updateThread c fun th => { th with point := .acquired sec } := if_neg hnot
    rw [hstay]
    have hex : (s.updateThread c fun th => { th with point := .acquired sec }).Exclusive := by
      refine hs.advance hc (fun sec' h _ => hin sec' h)
        (fun sec' h => hshared.trans (congrArg some h)) ?_
      refine ⟨fun _ sec' h => ?_, fun _ sec' h => ?_, fun _ sec' h => ?_⟩
      all_goals simp only [updateThread_threads_self] at h
      · obtain rfl : sec = sec' := by simpa using h
        exact hown
      · cases h
      · cases h
    refine hex.enterKernel hc fun _ sec' h => .inl ?_
    rw [updateThread_threads_self] at h
    obtain rfl : sec = sec' := h
    exact hown
  · have hgo : (s.updateThread c fun th => { th with
        point := .acquired sec }).msectionEnterHelper c sec =
        ((s.updateThread c fun th => { th with point := .acquired sec }).updateThread c fun th =>
          { th with msectionEntering := some sec }).invalidate := if_pos ⟨hother, hown⟩
    rw [hgo]
    refine ⟨⟨fun v sec' h h' => ?_, fun v sec' h h' => ?_⟩, fun v h sec' h' => ?_, nofun⟩
    all_goals by_cases hne : v = c
    · subst hne
      simp only [invalidate, updateThread_threads_self] at h h'
      exact hin sec' h
    · simp only [invalidate, updateThread_threads_ne hne] at h h'
      exact hs.settled.inside v sec' h h'
    · subst hne
      simp only [invalidate, updateThread_threads_self] at h h' ⊢
      exact hshared.trans (congrArg some h')
    · simp only [Alive, invalidate, updateThread_threads_ne hne] at h h' ⊢
      exact hs.settled.announced v sec' h h'
    · subst hne
      simp only [invalidate, updateThread_threads_self] at h h' ⊢
      exact .inr (congrArg some h')
    · simp only [Alive, invalidate, updateThread_threads_ne hne] at h h' ⊢
      exact hs.ready v (fun he => hne (Option.some.inj (hc.symm.trans he)).symm) h sec' h'

/-- The waiter is recorded as entering the section it gives up, until it has it back. -/
theorem wait_exclusive {c : Nat} (hs : s.Exclusive) (hc : s.threadCurrent = some c)
    (hp : (s.threads c).point = .running) (hown : s.owner sec = some c) :
    (s.msectionWait c sec).KernelExclusive := by
  have hin : ∀ sec' ∈ (s.threads c).inside, s.owner sec' = some c := by
    intro sec' hin
    exact hs.settled.inside c sec' hin (by rw [hp]; simp)
  by_cases hdonator : (s.threads c).firstDonator ≠ none
  · have hcancel : s.msectionWait c sec = s.updateThread c fun th => { th with
        waitResult := .cancelled, point := .waiting sec } := if_pos hdonator
    rw [hcancel]
    have hex : (s.updateThread c fun th => { th with
        waitResult := .cancelled, point := .waiting sec }).Exclusive := by
      refine hs.advance hc (fun sec' h _ => hin sec' h) (fun sec' h => h.elim) ?_
      refine ⟨fun _ sec' h => ?_, fun _ sec' h => ?_, fun _ sec' h => ?_⟩
      all_goals simp only [updateThread_threads_self] at h
      · obtain rfl : sec = sec' := by simpa using h
        exact hown
      · cases h
      · cases h
    refine hex.enterKernel hc fun _ sec' h => .inl ?_
    rw [updateThread_threads_self] at h
    obtain rfl : sec = sec' := h
    exact hown
  · have hwait : s.msectionWait c sec = ((s.updateThread c fun th => { th with
        msectionEntering := some sec, state := .waiting, point := .waiting sec }).updateSection sec
          fun m => { m with owner := none }).invalidate := if_neg hdonator
    have howner : ∀ sec' v, v ≠ c ∨ sec' ≠ sec → s.owner sec' = some v →
        (s.updateSection sec fun m => { m with owner := none }).owner sec' = some v := by
      intro sec' v hne hv
      rw [updateSection_owner_ne]
      · exact hv
      · rintro rfl
        rcases hne with hne | hne
        · exact hne (Option.some.inj (hv.symm.trans hown))
        · exact hne rfl
    rw [hwait]
    refine ⟨⟨fun v sec' h h' => ?_, fun v sec' h h' => ?_⟩, fun v h sec' h' => ?_, nofun⟩
    all_goals by_cases hne : v = c
    · subst hne
      simp only [invalidate, updateSection, updateThread_threads_self] at h h'
      exact howner sec' v (.inr fun he => h' (he ▸ rfl)) (hin sec' h)
    · simp only [invalidate, updateSection, updateThread_threads_ne hne] at h h'
      exact howner sec' v (.inl hne) (hs.settled.inside v sec' h h')
    · subst hne
      simp only [invalidate, updateSection, updateThread_threads_self] at h'
      exact h'.elim
    · simp only [Alive, invalidate, updateSection, updateThread_threads_ne hne] at h h' ⊢
      exact hs.settled.announced v sec' h h'
    · subst hne
      simp only [invalidate, updateSection, updateThread_threads_self] at h' ⊢
      exact .inr (congrArg some h')
    · simp only [Alive, invalidate, updateSection, updateThread_threads_ne hne] at h h' ⊢
      exact (hs.ready v (fun he => hne (Option.some.inj (hc.symm.trans he)).symm) h sec'
        h').imp_left (howner sec' v (.inl hne))

theorem threadStart_exclusive (hs : s.KernelExclusive) (delayed : Bool) :
    (s.threadStart u delayed).KernelExclusive := by
  by_cases hstopped : (s.threads u).state = .stopped
  · rw [threadStart, if_pos hstopped]
    have hsw : Switchable s := ⟨hs.settled, hs.ready⟩
    have hreset := hsw.reset (u := u) (f := fun th => { resetContext th with
      state := if delayed then .waiting else .runnable
      msectionCount := 0
      sharedEntering := none
      killed := false }) rfl rfl
    refine ⟨hreset.settled, hreset.ready, fun hr v hv => ?_⟩
    by_cases hne : v = u
    · subst hne
      refine going_of_point fun sec hp => ?_
      rw [updateThread_threads_self] at hp
      exact hp
    · have hgo := hs.going hr v hv
      refine ⟨fun ha sec hp => ?_, fun ha sec hp => ?_, fun ha sec hp => ?_⟩
      all_goals rw [Alive, updateThread_threads_ne hne] at ha
      all_goals rw [updateThread_threads_ne hne] at hp
      · exact hgo.acquired ha sec hp
      · exact hgo.readFree ha sec hp
      · exact hgo.readOther ha sec hp
  · rwa [threadStart, if_neg hstopped]

/-- A thread comes back from the call at the end of `msection_leave`. -/
theorem KernelExclusive.return (hs : s.KernelExclusive)
    (hp : (s.threads u).point = .discounted sec) :
    (s.updateThread u fun th => { th with point := .running }).KernelExclusive := by
  have hpoint : ∀ sec, ¬ ((s.updateThread u fun th =>
      { th with point := .running }).threads u).point.Acquires sec := by
    intro sec' h
    rw [updateThread_threads_self] at h
    exact h
  refine ⟨⟨fun v sec' hin h => ?_, fun v sec' ha h => ?_⟩, fun v => ?_, fun hr v hv => ?_⟩
  all_goals by_cases hne : v = u
  · subst hne
    rw [updateThread_threads_self] at hin
    exact hs.settled.inside v sec' hin (by rw [hp]; nofun)
  · rw [updateThread_threads_ne hne] at hin h
    exact hs.settled.inside v sec' hin h
  · subst hne
    rw [updateThread_threads_self] at h
    exact h.elim
  · rw [Alive, updateThread_threads_ne hne] at ha
    rw [updateThread_threads_ne hne] at h ⊢
    exact hs.settled.announced v sec' ha h
  · subst hne
    exact fun _ sec' h => absurd h (hpoint sec')
  · rw [Ready, Alive, updateThread_threads_ne hne]
    exact hs.ready v
  · subst hne
    exact going_of_point hpoint
  · obtain ⟨h₁, h₂, h₃⟩ := hs.going hr v hv
    refine ⟨?_, ?_, ?_⟩
    all_goals rw [Alive, updateThread_threads_ne hne]
    · exact h₁
    · exact h₂
    · exact h₃

theorem threadKernel_exclusive {c : Nat} {e : SectionInput} {q : SectionSystem} {exit : KernelExit}
    (hs : s.Exclusive) (hc : s.threadCurrent = some c) (ha : s.Alive c)
    (h : s.threadKernel c (s.threads c) e = some (q, exit)) : q.KernelExclusive := by
  have hcall : (s.threads c).point = .running → s.KernelExclusive := fun hp =>
    hs.enterKernel hc (ready_of_running hp)
  cases e with
  | enterHelper exit' =>
    simp only [threadKernel] at h
    split at h
    · rename_i sec hp
      exact (Prod.mk.inj (Option.some.inj h)).1 ▸ enterHelper_exclusive hs hc hp ha
    · cases h
  | checkFlags exit' =>
    simp only [threadKernel] at h
    split at h
    · rename_i sec hp
      split_ifs at h
      obtain ⟨r, hr, hq⟩ := Option.map_eq_some_iff.mp h
      have hquiet := resched_quiet hr
      have hkernel := hs.enterKernel hc (ready_of_discounted hp)
      exact (Prod.mk.inj hq).1 ▸
        (hquiet.kernelExclusive hkernel).return ((hquiet.point c).trans hp)
    · cases h
  | wait sec refused exit' =>
    simp only [threadKernel] at h
    split_ifs at h with hcond
    exact (Prod.mk.inj (Option.some.inj h)).1 ▸ wait_exclusive hs hc hcond.1 hcond.2.1
  | notify sec targets exit' =>
    simp only [threadKernel] at h
    split_ifs at h with hcond
    obtain ⟨r, hr, hq⟩ := Option.map_eq_some_iff.mp h
    exact (Prod.mk.inj hq).1 ▸ (msectionNotify_steady hr).quiet.kernelExclusive (hcall hcond.1)
  | stopTarget target exit' =>
    simp only [threadKernel] at h
    split_ifs at h with hp hcond
    obtain ⟨r, hr, hq⟩ := Option.map_eq_some_iff.mp h
    exact (Prod.mk.inj hq).1 ▸ (threadStopTarget_quiet hr).kernelExclusive (hcall hp)
  | stop exit' =>
    simp only [threadKernel] at h
    split_ifs at h with hcond
    obtain ⟨r, hr, hq⟩ := Option.map_eq_some_iff.mp h
    have hquiet := (invalidate_steady r).quiet.trans (threadStop_quiet hr)
    exact (Prod.mk.inj hq).1 ▸ hquiet.kernelExclusive (hcall hcond.1)
  | start target delayed exit' =>
    simp only [threadKernel] at h
    split_ifs at h with hp hcond
    exact (Prod.mk.inj (Option.some.inj h)).1 ▸ threadStart_exclusive (hcall hp) delayed
  | block exit' =>
    simp only [threadKernel] at h
    split_ifs at h with hcond
    have hquiet : (s.updateThread c fun th => { th with state := .waiting }).Quiet s :=
      updateThread_quiet rfl rfl rfl fun _ => ⟨ha, rfl⟩
    exact (Prod.mk.inj (Option.some.inj h)).1 ▸ hquiet.kernelExclusive (hcall hcond.1)
  | call exit' =>
    simp only [threadKernel] at h
    split_ifs at h with hp
    exact (Prod.mk.inj (Option.some.inj h)).1 ▸ hcall hp
  | _ => cases h

theorem userStep_exclusive {c : Nat} {e : SectionInput} (hs : s.Exclusive)
    (hc : s.threadCurrent = some c) (ha : s.Alive c)
    (he : e ∈ [.announce, .readOwner, .storeOwner, .finish, .discount, .waitReturn] ∨
      ∃ sec, e = .enter sec ∨ e = .leave sec)
    (h : s.threadStep c (s.threads c) e = some t) : t.Exclusive := by
  rcases he with huser | ⟨sec, rfl | rfl⟩
  · simp only [List.mem_cons, List.not_mem_nil, or_false] at huser
    rcases huser with rfl | rfl | rfl | rfl | rfl | rfl
    all_goals
      simp only [threadStep] at h
      split at h
    all_goals try cases h
    · exact announce_exclusive hs hc (by assumption)
    · exact readOwner_exclusive hs hc (by assumption) ha
    · exact storeOwner_exclusive hs hc (by assumption) ha
    · exact finish_exclusive hs hc (by assumption) ha
    · exact discount_exclusive hs hc (by assumption)
    · exact waitReturn_exclusive hs hc (by assumption) ha
  · simp only [threadStep] at h
    split_ifs at h with hcond
    exact Option.some.inj h ▸ enter_exclusive hs hc hcond.1
  · simp only [threadStep] at h
    split_ifs at h with hcond
    exact Option.some.inj h ▸ leave_exclusive hs hc hcond.1 hcond.2

theorem threadStep_exclusive {c : Nat} {e : SectionInput} (hs : s.Exclusive)
    (hc : s.threadCurrent = some c) (ha : s.Alive c)
    (h : s.threadStep c (s.threads c) e = some t) : t.Exclusive := by
  cases hkernel : s.threadKernel c (s.threads c) e with
  | some r =>
    rw [threadStep_of_kernel hkernel] at h
    exact exitKernel_exclusive (threadKernel_exclusive hs hc ha hkernel) h
  | none =>
    rcases threadStep_of_no_kernel hkernel h with rfl | ⟨sec, hp, -, rfl⟩ | huser
    · exact hs
    · exact return_exclusive hs hc hp
    · exact userStep_exclusive hs hc ha huser h

/-- The step is not one of a thread that has been stopped. -/
def NotStopped (s : SectionSystem) : SectionInput → Prop
  | .onEvent _ => True
  | _ => ∀ c ∈ s.threadCurrent, s.Alive c

instance (s : SectionSystem) : (e : SectionInput) → Decidable (s.NotStopped e)
  | .onEvent _ => inferInstanceAs (Decidable True)
  | .enter _ | .announce | .readOwner | .storeOwner | .enterHelper _ | .finish | .leave _
  | .discount | .checkFlags _ | .wait _ _ _ | .waitReturn | .notify _ _ _ | .stopTarget _ _
  | .stop _ | .start _ _ _ | .block _ | .call _ =>
    inferInstanceAs (Decidable (∀ c ∈ s.threadCurrent, (s.threads c).state ≠ .stopped))

theorem stepAnyone_exclusive {e : SectionInput} (hs : s.Exclusive) (hok : s.NotStopped e)
    (h : s.stepAnyone e = some t) : t.Exclusive := by
  by_cases hev : ∃ exit, e = .onEvent exit
  · obtain ⟨exit, rfl⟩ := hev
    exact exitKernel_exclusive (recordEntering_exclusive hs) h
  · obtain ⟨c, hc, hrun⟩ := stepAnyone_thread (fun exit he => hev ⟨exit, he⟩) h
    have ha : s.Alive c := by
      cases e with
      | onEvent exit => exact absurd ⟨exit, rfl⟩ hev
      | _ => exact hok c hc
    exact threadStep_exclusive hs hc ha hrun

/-- No thread has anything to do with a section, as after the start of a partition. -/
structure Fresh (s : SectionSystem) : Prop where
  threads : ∀ u, (s.threads u).point = .running ∧ (s.threads u).inside = [] ∧
    (s.threads u).msectionCount = 0 ∧ (s.threads u).sharedEntering = none ∧
    (s.threads u).msectionEntering = none ∧ (s.threads u).donateTarget = none ∧
    (s.threads u).firstDonator = none
  owner : ∀ sec, s.owner sec = none

theorem Fresh.exclusive (hs : s.Fresh) : s.Exclusive := by
  have hpoint : ∀ u sec, ¬ (s.threads u).point.Acquires sec := by
    intro u sec hp
    rw [(hs.threads u).1] at hp
    exact hp
  refine ⟨⟨fun u sec hin _ => ?_, fun u sec _ hp => ?_⟩, fun u _ => ?_, fun u _ =>
    going_of_point (hpoint u)⟩
  · rw [(hs.threads u).2.1] at hin
    cases hin
  · rw [(hs.threads u).1] at hp
    exact hp.elim
  · exact ready_of_running (hs.threads u).1

/-- The thread has returned from `msection_enter`, has not left the section yet and does not
wait on it. -/
def Inside (s : SectionSystem) (u sec : Nat) : Prop :=
  sec ∈ (s.threads u).inside ∧ (s.threads u).point ≠ .waiting sec

/-- In every run in which no thread is executed that has been stopped, a thread inside a section
owns it, so no two threads are inside the same one. -/
theorem msection_mutual_exclusion {es : List SectionInput} (hs : s.Fresh)
    (hok : Run.Meets stepAnyone NotStopped s es) (h : Run.exec stepAnyone s es = some t) :
    (∀ u sec, t.Inside u sec → t.owner sec = some u) ∧
      ∀ u v sec, t.Inside u sec → t.Inside v sec → u = v := by
  have hex : t.Exclusive := Run.invariant_of_meets
    (fun _ _ _ hs hok h => stepAnyone_exclusive hs hok h) hs.exclusive hok h
  have hown : ∀ u sec, t.Inside u sec → t.owner sec = some u := by
    rintro u sec ⟨hin, hp⟩
    exact hex.settled.inside u sec hin hp
  refine ⟨hown, fun u v sec hu hv => ?_⟩
  exact Option.some.inj ((hown u sec hu).symm.trans (hown v sec hv))

/-- Threads 1 and 2 of a partition that has just started them. -/
def twoThreads : SectionSystem where
  threads u :=
    { state := if u = 1 ∨ u = 2 then .runnable else .stopped
      hasContext := false, waitResult := .ok, msectionEntering := none
      donateTarget := none, firstDonator := none, nextDonator := none
      msectionCount := 0, sharedEntering := none, killed := false
      point := .running, inside := [] }
  nthreadsUsed := 3
  sections _ := ⟨none, false⟩
  threadCurrent := none
  threadSelected := none
  waitingSection := none
  recheckNeeded := false
  threadError := none

theorem twoThreads_fresh : twoThreads.Fresh :=
  ⟨fun _ => ⟨rfl, rfl, rfl, rfl, rfl, rfl, rfl⟩, fun _ => rfl⟩

def switchEvent (u : Nat) : SectionInput := .onEvent ⟨[], true, .continue u⟩

/-- Thread 2 meets thread 1 inside the section and gets it when thread 1 leaves it. -/
def contendedRun : List SectionInput :=
  [switchEvent 1, .enter 0, .announce, .readOwner, .storeOwner, .finish,
    switchEvent 2, .enter 0, .announce, .readOwner, .enterHelper ⟨[], false, .continue 2⟩,
    .leave 0, .discount, .checkFlags ⟨[], false, .continue 2⟩, .finish]

theorem msection_mutual_exclusion_contended :
    ∃ t, Run.exec stepAnyone twoThreads contendedRun = some t ∧ t.Inside 2 0 ∧
      t.owner 0 = some 2 := by
  have hok : Run.Meets stepAnyone NotStopped twoThreads contendedRun :=
    Run.meets_of_checks (by decide +kernel)
  have hview : (Run.exec stepAnyone twoThreads contendedRun).map
      (fun t => ((t.threads 2).inside, (t.threads 2).point)) = some ([0], .running) := by
    decide +kernel
  obtain ⟨t, ht, hv⟩ := Option.map_eq_some_iff.mp hview
  obtain ⟨hinside, hpoint⟩ := Prod.mk.inj hv
  have hin : t.Inside 2 0 := by
    refine ⟨?_, ?_⟩
    · rw [hinside]
      decide
    · rw [hpoint]
      decide
  exact ⟨t, ht, hin, (msection_mutual_exclusion twoThreads_fresh hok ht).1 2 0 hin⟩

/-- Threads 1 to `n` of a partition that has just started them. -/
def startedThreads (n : Nat) : SectionSystem where
  threads u :=
    { state := if 0 < u ∧ u < n + 1 then .runnable else .stopped
      hasContext := false
      waitResult := .ok, msectionEntering := none
      donateTarget := none, firstDonator := none, nextDonator := none
      msectionCount := 0, sharedEntering := none, killed := false
      point := .running, inside := [] }
  nthreadsUsed := n + 1
  sections := fun _ => ⟨none, false⟩
  threadCurrent := none
  threadSelected := none
  waitingSection := none
  recheckNeeded := false
  threadError := none

theorem startedThreads_fresh (n : Nat) : (startedThreads n).Fresh :=
  ⟨fun _ => ⟨rfl, rfl, rfl, rfl, rfl, rfl, rfl⟩, fun _ => rfl⟩

/-- A free section is entered by the thread that the event selects. -/
def enterFree (u sec : Nat) : List SectionInput :=
  [switchEvent u, .enter sec, .announce, .readOwner, .storeOwner, .finish]

def stopRequest (u target : Nat) : List SectionInput :=
  [switchEvent u, .stopTarget target ⟨[], false, .continue u⟩]

/-- Nobody calls STOP inside a section. -/
def StopsOutside (s : SectionSystem) : SectionInput → Prop
  | .stopTarget _ _ | .stop _ => ∀ c ∈ s.threadCurrent, (s.threads c).msectionCount = 0
  | _ => True

instance (s : SectionSystem) : (e : SectionInput) → Decidable (s.StopsOutside e)
  | .stopTarget _ _ | .stop _ =>
    inferInstanceAs (Decidable (∀ c ∈ s.threadCurrent, (s.threads c).msectionCount = 0))
  | .onEvent _ | .enter _ | .announce | .readOwner | .storeOwner | .enterHelper _ | .finish
  | .leave _ | .discount | .checkFlags _ | .wait _ _ _ | .waitReturn | .notify _ _ _
  | .start _ _ _ | .block _ | .call _ => inferInstanceAs (Decidable True)

/-- Thread 3 stops thread 2, which calls STOP inside section 5 and goes on, as thread 3 waits for
it. When thread 1 leaves its section, thread 2 is stopped on its way into section 9, which thread 4
has entered meanwhile, and is executed once more. -/
def stoppedInside : List SectionInput :=
  enterFree 1 10 ++ enterFree 2 5 ++
  [switchEvent 3, .stopTarget 2 ⟨[], false, .continue 3⟩, .stopTarget 1 ⟨[], false, .continue 3⟩,
    .enter 9, .announce, .readOwner] ++ enterFree 4 9 ++
  [switchEvent 1, .leave 10, .discount, .checkFlags ⟨[], true, .continue 3⟩, .storeOwner, .finish]

/-- Thread 1 has become the owner of section 7, which it has left. So it is executed for thread 5
while it waits for thread 2 to stop, and stops thread 3. The end of thread 2 takes it for done,
that of thread 3 stops it on its way into section 10, and thread 4, which waits for thread 1 to
stop, has it executed once more. -/
def stoppedOwner : List SectionInput :=
  enterFree 2 8 ++ enterFree 3 9 ++
  [switchEvent 1, .enter 7, .announce, .onEvent ⟨[], false, .idle⟩, .readOwner, .storeOwner,
    .finish, .leave 7, .discount, .checkFlags ⟨[], false, .idle⟩, switchEvent 1,
    .stopTarget 2 ⟨[], false, .continue 1⟩, switchEvent 5, .enter 7, .announce, .readOwner,
    .enterHelper ⟨[], false, .continue 5⟩, .stopTarget 3 ⟨[], false, .continue 5⟩,
    switchEvent 2, .leave 8, .discount, .checkFlags ⟨[], true, .continue 1⟩,
    .enter 11, .announce, .readOwner, .storeOwner, .finish,
    switchEvent 4, .stopTarget 1 ⟨[], false, .continue 4⟩, .enter 10, .announce, .readOwner] ++
  enterFree 6 10 ++
  [switchEvent 3, .leave 9, .discount, .checkFlags ⟨[], true, .continue 4⟩, .storeOwner, .finish]

/-- Two threads inside one section: when STOP is called inside of one, and through a stale owner. -/
theorem msection_mutual_exclusion_fails :
    (∃ t, Run.exec stepAnyone (startedThreads 4) stoppedInside = some t ∧ t.Inside 2 9 ∧
        t.Inside 4 9) ∧
      Run.Meets stepAnyone StopsOutside (startedThreads 6) stoppedOwner ∧
      ∃ t, Run.exec stepAnyone (startedThreads 6) stoppedOwner = some t ∧ t.Inside 1 10 ∧
        t.Inside 6 10 := by
  have hinside : (Run.exec stepAnyone (startedThreads 4) stoppedInside).map (fun t =>
      ((t.threads 2).inside, (t.threads 2).point, (t.threads 4).inside, (t.threads 4).point)) =
        some ([9, 5], .running, [9], .running) := by
    decide +kernel
  have howner : (Run.exec stepAnyone (startedThreads 6) stoppedOwner).map (fun t =>
      ((t.threads 1).inside, (t.threads 1).point, (t.threads 6).inside, (t.threads 6).point)) =
        some ([10, 11], .running, [10], .running) := by
    decide +kernel
  refine ⟨?_, Run.meets_of_checks (by decide +kernel), ?_⟩
  · obtain ⟨t, ht, hv⟩ := Option.map_eq_some_iff.mp hinside
    simp only [Prod.mk.injEq] at hv
    refine ⟨t, ht, ?_, ?_⟩
    · simp [Inside, hv]
    · simp [Inside, hv]
  · obtain ⟨t, ht, hv⟩ := Option.map_eq_some_iff.mp howner
    simp only [Prod.mk.injEq] at hv
    refine ⟨t, ht, ?_, ?_⟩
    · simp [Inside, hv]
    · simp [Inside, hv]

end SectionSystem

end Chpok
