import Chpok.Kernel.StopLists

/-! Requests to stop, in any order, and the end of their targets. -/

namespace Chpok

namespace SectionSystem

variable {s t : SectionSystem} {u v c d : Nat} {ds : List Nat}

theorem StopLists.release (hs : s.StopLists) (hfree : (s.threads u).donateTarget = none)
    (hlist : s.DonatorList u ds) (h : t.Released ds u s) (hused : t.nthreadsUsed = s.nthreadsUsed)
    (herror : t.threadError = s.threadError) : t.StopLists := by
  refine ⟨hs.donations.release hfree hlist h, fun v es hv hes => ?_, fun d v hd => ?_,
    fun v hv => ?_, fun v hv => ?_, fun v hv => ?_⟩
  · by_cases hlast : v = u ∨ v ∈ ds
    · rw [hes.unique (h.list_nil hs.donations hfree hlist hlast)]
      trivial
    · obtain ⟨hvu, hvds⟩ := not_or.mp hlast
      rw [h.others v hvu hvds] at hv
      obtain ⟨es', hes'⟩ := hs.donations.list hv
      obtain ⟨hnew, hkeep⟩ := h.list hfree hlist hvu hvds hes'
      obtain rfl := hes.unique hnew
      apply LinkedList.later_congr (hs.later v es hv hes')
      intro e he
      exact congrArg _ (hkeep e he)
  · obtain ⟨hds, hdu, hd⟩ := h.donates hfree hd
    rw [h.others d hdu hds]
    exact hs.alive d v hd
  · by_cases hvu : v = u
    · subst hvu
      rw [h.self]
      exact hs.plain v hfree
    · by_cases hvds : v ∈ ds
      · rw [h.donators v hvds, resumed]
        split_ifs <;> rfl
      · rw [h.others v hvu hvds] at hv ⊢
        exact hs.plain v hv
  · rw [hused] at hv
    have hstopped := hs.used v hv
    by_cases hvu : v = u
    · subst hvu
      rw [h.self]
    · by_cases hvds : v ∈ ds
      · exact absurd hstopped (hs.alive v u ((hlist.mem v).mp hvds))
      · rwa [h.others v hvu hvds]
  · rw [hused]
    exact hs.error v (herror ▸ hv)

/-- `jet_resched` leaves its caller no donators unless it has another section to leave. -/
theorem resched_stopLists (hs : s.StopLists) (hfree : (s.threads c).donateTarget = none)
    (h : s.resched c = some t) :
    t.StopLists ∧ ∀ d, (t.threads d).donateTarget = some c → 0 < (t.threads c).msectionCount := by
  have hkept := checkReleased_keepsStops s
  have hsame : s.checkReleased.StopLists := hkept.stopLists hs
  cases hfirst : (s.threads c).firstDonator with
  | none =>
    simp only [resched, hfirst] at h
    obtain rfl := Option.some.inj h
    refine ⟨hsame, fun d hd => ?_⟩
    exact absurd ((hkept.target d).symm.trans hd) (hs.donations.nobody hfree hfirst d)
  | some d =>
    by_cases hcount : (s.threads c).msectionCount = 0
    · obtain ⟨ds, hlist⟩ := hs.donations.list hfree
      cases ds with
      | nil => cases hfirst.symm.trans hlist.path
      | cons e ds =>
        obtain ⟨t', ht', hreleased, hused, herror⟩ := hs.resched hlist hfree hcount
        obtain rfl := Option.some.inj (ht'.symm.trans h)
        have hnew := hs.release hfree hlist hreleased hused herror
        refine ⟨hnew, fun d' hd' => absurd hd' (hnew.no_target ?_ d')⟩
        rw [hreleased.self]
    · simp only [resched, hfirst, if_neg hcount] at h
      obtain rfl := Option.some.inj h
      refine ⟨hsame, fun _ _ => ?_⟩
      rw [hkept.count]
      exact Nat.pos_of_ne_zero hcount

/-- A step is made by a thread that has not stopped. One that waits for another thread to stop
neither calls STOP nor comes to `jet_resched`, and nobody calls STOP inside a section. -/
def InOrder (s : SectionSystem) : SectionInput → Prop
  | .onEvent _ => True
  | .stopTarget _ _ => ∀ c ∈ s.threadCurrent, (s.threads c).state ≠ .stopped ∧
      (s.threads c).msectionCount = 0 ∧ (s.threads c).donateTarget = none
  | .checkFlags _ => ∀ c ∈ s.threadCurrent, (s.threads c).state ≠ .stopped ∧
      (s.threads c).donateTarget = none
  | _ => ∀ c ∈ s.threadCurrent, (s.threads c).state ≠ .stopped

instance (s : SectionSystem) : (e : SectionInput) → Decidable (s.InOrder e)
  | .onEvent _ => inferInstanceAs (Decidable True)
  | .stopTarget _ _ => inferInstanceAs (Decidable (∀ c ∈ s.threadCurrent,
      (s.threads c).state ≠ .stopped ∧ (s.threads c).msectionCount = 0 ∧
        (s.threads c).donateTarget = none))
  | .checkFlags _ => inferInstanceAs (Decidable (∀ c ∈ s.threadCurrent,
      (s.threads c).state ≠ .stopped ∧ (s.threads c).donateTarget = none))
  | .enter _ | .announce | .readOwner | .storeOwner | .enterHelper _ | .finish | .leave _
  | .discount | .wait _ _ _ | .waitReturn | .notify _ _ _ | .stop _ | .start _ _ _ | .block _
  | .call _ => inferInstanceAs (Decidable (∀ c ∈ s.threadCurrent, (s.threads c).state ≠ .stopped))

theorem StopLists.wait (hs : s.StopLists) (halive : (s.threads c).state ≠ .stopped)
    (hfirst : (s.threads c).firstDonator = none) (f : SectionThread → SectionThread)
    (htarget : (f (s.threads c)).donateTarget = (s.threads c).donateTarget)
    (hsame : (f (s.threads c)).firstDonator = (s.threads c).firstDonator)
    (hnext : (f (s.threads c)).nextDonator = (s.threads c).nextDonator)
    (hstate : (f (s.threads c)).state = .waiting) : (s.updateThread c f).StopLists := by
  refine hs.updateThread htarget hsame hnext (fun d hd hu => ?_) (fun _ _ => ?_) fun _ h => ?_
  · exact absurd hd (hs.donations.nobody hu.donates hfirst d)
  · rw [hstate]
    nofun
  · exact absurd h halive

/-- A target that does not stand between the end of its last section and the test of its flags
has another section to leave. -/
theorem Target.stays {p : SectionPoint} (hu : s.Target u) (hp : (s.threads u).point = p)
    (hnot : ∀ sec, p ≠ .discounted sec) : 0 < (s.threads u).msectionCount := by
  rcases hu.leaves with hpos | ⟨sec, hsec⟩
  · exact hpos
  · exact absurd (hp.symm.trans hsec) (hnot sec)

theorem threadKernel_stopLists {e : SectionInput} {q : SectionSystem} {exit : KernelExit}
    (hs : s.StopLists) (hc : s.threadCurrent = some c) (hok : s.InOrder e)
    (h : s.threadKernel c (s.threads c) e = some (q, exit)) : q.StopLists := by
  cases e with
  | enterHelper exit =>
    simp only [threadKernel] at h
    split at h
    · rename_i sec hp
      obtain rfl := (Prod.mk.inj (Option.some.inj h)).1
      have hstep : (s.updateThread c fun th => { th with point := .acquired sec }).StopLists :=
        hs.goOn rfl rfl rfl rfl rfl fun _ hu => .inl (hu.stays hp (by simp))
      simp only [msectionEnterHelper]
      split_ifs
      · have hrecorded := hstep.goOn (u := c)
          (f := fun th => { th with msectionEntering := some sec }) rfl rfl rfl rfl rfl
          fun _ hu => hu.leaves
        exact hrecorded.congr rfl rfl rfl
      · exact hstep
    · cases h
  | checkFlags exit =>
    simp only [threadKernel] at h
    split at h
    · rename_i sec hp
      split_ifs at h
      obtain ⟨r, hr, hq⟩ := Option.map_eq_some_iff.mp h
      obtain rfl := (Prod.mk.inj hq).1
      obtain ⟨hlists, hleaves⟩ := resched_stopLists hs (hok c hc).2 hr
      refine hlists.goOn rfl rfl rfl rfl rfl ?_
      rintro ⟨d, hd⟩ _
      exact .inl (hleaves d hd)
    · cases h
  | wait sec refused exit =>
    simp only [threadKernel] at h
    split_ifs at h with hcond
    obtain rfl := (Prod.mk.inj (Option.some.inj h)).1
    simp only [msectionWait]
    split_ifs with hfirst
    · exact hs.goOn rfl rfl rfl rfl rfl fun _ hu => .inl (hu.stays hcond.1 (by simp))
    · have hwaits := hs.wait (hok c hc) (not_not.mp hfirst) (fun th => { th with
        msectionEntering := some sec, state := .waiting, point := .waiting sec }) rfl rfl rfl rfl
      exact hwaits.congr rfl rfl rfl
  | notify sec targets exit =>
    simp only [threadKernel] at h
    split_ifs at h
    obtain ⟨r, hr, hq⟩ := Option.map_eq_some_iff.mp h
    exact (Prod.mk.inj hq).1 ▸ (msectionNotify_keepsStops hr).stopLists hs
  | stopTarget target exit =>
    simp only [threadKernel] at h
    split_ifs at h with hp hcond
    obtain ⟨r, hr, hq⟩ := Option.map_eq_some_iff.mp h
    obtain ⟨halive, hcount, hfree⟩ := hok c hc
    have hdonator := hs.donations.donator hfree hcount hp
    exact (Prod.mk.inj hq).1 ▸ threadStopTarget_stopLists hs hdonator halive hcond.2.symm hr
  | stop exit =>
    simp only [threadKernel] at h
    split_ifs at h with hcond
    obtain ⟨r, hr, hq⟩ := Option.map_eq_some_iff.mp h
    have hnobody := hs.donations.nobody hcond.2.1 hcond.2.2
    have hstopped : r.invalidate.StopLists := (hs.stop hcond.2.1 hnobody hr).congr rfl rfl rfl
    exact (Prod.mk.inj hq).1 ▸ hstopped
  | start target delayed exit =>
    simp only [threadKernel] at h
    split_ifs at h with hp hcond
    obtain rfl := (Prod.mk.inj (Option.some.inj h)).1
    by_cases hstopped : (s.threads target).state = .stopped
    · rw [threadStart, if_pos hstopped]
      exact hs.restart hstopped ⟨hcond.1, hcond.2.1⟩ (fun th => { resetContext th with
        state := if delayed then .waiting else .runnable
        msectionCount := 0
        sharedEntering := none
        killed := false }) rfl rfl rfl
    · rw [threadStart, if_neg hstopped]
      exact hs
  | block exit =>
    simp only [threadKernel] at h
    split_ifs at h with hcond
    have hwaits := hs.wait (hok c hc) hcond.2.2 (fun th => { th with state := .waiting })
      rfl rfl rfl rfl
    exact (Prod.mk.inj (Option.some.inj h)).1 ▸ hwaits
  | call exit =>
    simp only [threadKernel] at h
    split_ifs at h
    exact (Prod.mk.inj (Option.some.inj h)).1 ▸ hs
  | _ => cases h

theorem threadStep_stopLists {e : SectionInput} (hs : s.StopLists)
    (hc : s.threadCurrent = some c) (hok : s.InOrder e)
    (h : s.threadStep c (s.threads c) e = some t) : t.StopLists := by
  cases hkernel : s.threadKernel c (s.threads c) e with
  | some r =>
    rw [threadStep_of_kernel hkernel] at h
    exact exitKernel_stopLists (threadKernel_stopLists hs hc hok hkernel) h
  | none =>
    rcases threadStep_of_no_kernel hkernel h with rfl | ⟨sec, hp, hflags, rfl⟩ | huser | huser
    · exact hs
    · refine hs.goOn rfl rfl rfl rfl rfl fun _ hu => .inl (Nat.pos_of_ne_zero ?_)
      exact fun hcount => hflags (.inl ⟨hcount, hu.killed⟩)
    · simp only [List.mem_cons, List.not_mem_nil, or_false] at huser
      rcases huser with rfl | rfl | rfl | rfl | rfl | rfl
      all_goals
        simp only [threadStep] at h
        split at h
      all_goals try cases h
      · rename_i hp
        exact hs.goOn rfl rfl rfl rfl rfl fun _ hu => .inl (hu.stays hp (by simp))
      · rename_i hp
        exact hs.goOn rfl rfl rfl rfl rfl fun _ hu => .inl (hu.stays hp (by simp))
      · rename_i sec hp
        have hstored : (s.updateSection sec fun m => { m with owner := some c }).StopLists :=
          hs.congr rfl rfl rfl
        exact hstored.goOn rfl rfl rfl rfl rfl fun _ hu => .inl (hu.stays hp (by simp))
      · rename_i hp
        exact hs.goOn rfl rfl rfl rfl rfl fun _ hu => .inl (hu.stays hp (by simp))
      · rename_i sec hp
        exact hs.goOn rfl rfl rfl rfl rfl fun _ _ => .inr ⟨sec, rfl⟩
      · rename_i hp
        exact hs.goOn rfl rfl rfl rfl rfl fun _ hu => .inl (hu.stays hp (by simp))
    · obtain ⟨sec, rfl | rfl⟩ := huser
      · simp only [threadStep] at h
        split_ifs at h
        obtain rfl := Option.some.inj h
        exact hs.goOn rfl rfl rfl rfl rfl fun _ _ => .inl (Nat.succ_pos _)
      · simp only [threadStep] at h
        split_ifs at h with hcond
        obtain rfl := Option.some.inj h
        have hreleased : (s.updateSection sec fun m => { m with owner := none }).StopLists :=
          hs.congr rfl rfl rfl
        exact hreleased.goOn rfl rfl rfl rfl rfl fun _ hu => .inl (hu.stays hcond.1 (by simp))

theorem stepAnyone_stopLists {e : SectionInput} (hs : s.StopLists) (hok : s.InOrder e)
    (h : s.stepAnyone e = some t) : t.StopLists := by
  by_cases hev : ∃ exit, e = .onEvent exit
  · obtain ⟨exit, rfl⟩ := hev
    exact exitKernel_stopLists (recordEntering_stopLists hs) h
  · obtain ⟨c, hc, hrun⟩ := stepAnyone_thread (fun exit he => hev ⟨exit, he⟩) h
    exact threadStep_stopLists hs hc hok hrun

/-- No thread has begun to stop another one, and only threads that exist are started. -/
structure Calm (s : SectionSystem) : Prop where
  links : ∀ u, (s.threads u).donateTarget = none ∧ (s.threads u).firstDonator = none ∧
    (s.threads u).nextDonator = none
  used : ∀ u, ¬ (0 < u ∧ u < s.nthreadsUsed) → (s.threads u).state = .stopped
  error : ∀ u, s.threadError = some u → 0 < u ∧ u < s.nthreadsUsed

theorem Calm.stopLists (hs : s.Calm) : s.StopLists := by
  have hnone : ∀ d u, (s.threads d).donateTarget ≠ some u := by
    intro d u hd
    rw [(hs.links d).1] at hd
    cases hd
  refine ⟨⟨fun u _ => ?_, fun d u hd => absurd hd (hnone d u)⟩, fun u ds _ hlist => ?_,
    fun d u hd => absurd hd (hnone d u), fun u _ => (hs.links u).2.2, hs.used, hs.error⟩
  · exact ⟨[], .nil, (hs.links u).2.1, fun d => iff_of_false (by simp) (hnone d u)⟩
  · have hnil : s.DonatorList u [] :=
      ⟨.nil, (hs.links u).2.1, fun d => iff_of_false (by simp) (hnone d u)⟩
    rw [hlist.unique hnil]
    trivial

/-- After the release nobody points to the target or to one of its donators. -/
theorem StopLists.unlinked (hs : s.StopLists) (hfree : (s.threads u).donateTarget = none)
    (hlist : s.DonatorList u ds) (ht : t.StopLists) (h : t.Released ds u s) {d : Nat}
    (hd : d ∈ u :: ds) (v : Nat) :
    (t.threads v).donateTarget ≠ some d ∧ (t.threads v).firstDonator ≠ some d ∧
      (t.threads v).nextDonator ≠ some d := by
  have hlast : d = u ∨ d ∈ ds := List.mem_cons.mp hd
  have hnil : t.DonatorList d [] := h.list_nil hs.donations hfree hlist hlast
  have hfreed : (t.threads d).donateTarget = none := by
    rcases hlast with rfl | hin
    · rw [h.self]
      exact hfree
    · exact (h.ends hin).1
  have hnobody : ∀ w, (t.threads w).donateTarget ≠ some d := by
    intro w hw
    simpa using (hnil.mem w).mpr hw
  -- The links of a list lead to its members, and `d` is on none.
  have hoff : ∀ w es, t.DonatorList w es → d ∉ es := by
    intro w es hes hin
    rw [(hes.mem d).mp hin] at hfreed
    cases hfreed
  refine ⟨hnobody v, ?_⟩
  cases hv : (t.threads v).donateTarget with
  | none =>
    obtain ⟨es, hes⟩ := ht.donations.list hv
    constructor
    · intro hfirst
      have hhead : some d = es.head? := hfirst.symm.trans (LinkedList.path_head hes.path)
      exact hoff v es hes (List.mem_of_head? hhead.symm)
    · rw [ht.plain v hv]
      nofun
  | some w =>
    have hw := ht.donations.target v w hv
    obtain ⟨es, hes⟩ := ht.donations.list hw.donates
    obtain ⟨before, after, rfl⟩ := List.append_of_mem ((hes.mem v).mpr hv)
    have hafter : d ∉ after := fun hin => hoff w _ hes (by simp [hin])
    constructor
    · intro hfirst
      exact hafter ((ht.later w _ hw.donates hes).mem hfirst)
    · intro hnext
      have hhead : some d = after.head? := hnext.symm.trans (LinkedList.path_succ hes.path)
      exact hafter (List.mem_of_head? hhead.symm)

/-- The threads that wait for `u` to stop are a list, from its first donator on; the end of `u`
releases all of them at once. -/
theorem stop_with_donation {es : List SectionInput} (hs : s.Calm)
    (hok : Run.Meets stepAnyone InOrder s es) (h : Run.exec stepAnyone s es = some t) :
    (∀ d u, (t.threads d).donateTarget = some u → (t.threads u).donateTarget = none ∧
      (t.threads u).state ≠ .stopped ∧ (t.threads d).state ≠ .stopped) ∧
    ∀ u, (t.threads u).donateTarget = none → ∃ ds : List Nat, ds.Nodup ∧
      LinkedList.Path (t.donatorLinks u) none ds none ∧
      (∀ d, d ∈ ds ↔ (t.threads d).donateTarget = some u) ∧
      (∀ before d after e, ds = before ++ d :: after → (t.threads d).firstDonator = some e →
        e ∈ after) ∧
      ((t.threads u).firstDonator ≠ none → (t.threads u).msectionCount = 0 →
        ∃ r, t.resched u = some r ∧ (r.threads u).state = .stopped ∧
          (∀ d ∈ ds, (r.threads d).state =
            if (t.threads d).firstDonator = none then (t.threads d).state else .stopped) ∧
          (∀ v, v ≠ u → v ∉ ds → r.threads v = t.threads v) ∧
          ∀ d ∈ u :: ds, ∀ v, (r.threads v).donateTarget ≠ some d ∧
            (r.threads v).firstDonator ≠ some d ∧ (r.threads v).nextDonator ≠ some d) := by
  have hlists : t.StopLists :=
    Run.invariant_of_meets (fun _ _ _ hs hok h => stepAnyone_stopLists hs hok h) hs.stopLists hok h
  refine ⟨fun d u hd => ?_, fun u hu => ?_⟩
  · have htarget := hlists.donations.target d u hd
    refine ⟨htarget.donates, ?_, hlists.alive d u hd⟩
    rw [htarget.runnable]
    nofun
  · obtain ⟨ds, hlist⟩ := hlists.donations.list hu
    have hlater := hlists.later u ds hu hlist
    refine ⟨ds, hlist.nodup, hlist.path, hlist.mem, ?_, fun hfirst hcount => ?_⟩
    · rintro before d after e rfl he
      exact hlater.mem he
    · cases ds with
      | nil => exact absurd hlist.path hfirst
      | cons d ds =>
        obtain ⟨r, hr, hreleased, hused, herror⟩ := hlists.resched hlist hu hcount
        have hnew := hlists.release hu hlist hreleased hused herror
        refine ⟨r, hr, ?_, fun e he => ?_, hreleased.others, fun e he v => ?_⟩
        · rw [hreleased.self]
        · rw [hreleased.donators e he, resumed]
          split_ifs <;> rfl
        · exact hlists.unlinked hu hlist hnew hreleased he v

theorem startedThreads_calm (n : Nat) : (startedThreads n).Calm :=
  ⟨fun _ => ⟨rfl, rfl, rfl⟩, fun _ hu => if_neg hu, nofun⟩

/-- Threads 2 and 4 stop thread 1, which is in a section, and thread 3 stops thread 2. -/
def nestedStops : List SectionInput :=
  enterFree 1 0 ++ stopRequest 2 1 ++ stopRequest 3 2 ++ stopRequest 4 1

theorem stop_with_donation_nested :
    ∃ t, Run.exec stepAnyone (startedThreads 4) nestedStops = some t ∧
      ∃ ds : List Nat, LinkedList.Path (t.donatorLinks 1) none ds none ∧
        ∀ d, d ∈ ds ↔ (t.threads d).donateTarget = some 1 := by
  have hok : Run.Meets stepAnyone InOrder (startedThreads 4) nestedStops :=
    Run.meets_of_checks (by decide +kernel)
  have hview : (Run.exec stepAnyone (startedThreads 4) nestedStops).map
      (fun t => (t.threads 1).donateTarget) = some none := by
    decide +kernel
  obtain ⟨t, ht, hfree⟩ := Option.map_eq_some_iff.mp hview
  obtain ⟨ds, -, hpath, hmem, -⟩ := (stop_with_donation (startedThreads_calm 4) hok ht).2 1 hfree
  exact ⟨t, ht, ds, hpath, hmem⟩

/-- Thread 1 is on its way into section 7 when an event records that and returns early. It becomes
the owner of the section that it has left; so it is executed for thread 3 while it waits for
thread 2 to stop, and calls STOP once more. -/
def strayStop : List SectionInput :=
  enterFree 2 8 ++ [switchEvent 1, .enter 7, .announce, .onEvent ⟨[], false, .idle⟩, .readOwner,
    .storeOwner, .finish, .leave 7, .discount, .checkFlags ⟨[], false, .idle⟩, switchEvent 1,
    .stopTarget 2 ⟨[], false, .continue 1⟩, switchEvent 3, .enter 7, .announce, .readOwner,
    .enterHelper ⟨[], false, .continue 3⟩, .stopTarget 2 ⟨[], false, .continue 1⟩]

theorem stop_with_donation_fails :
    Run.Meets stepAnyone StopsOutside (startedThreads 4) strayStop ∧
      ∃ t, Run.exec stepAnyone (startedThreads 4) strayStop = some t ∧
        (t.threads 2).donateTarget = none ∧
        ¬ ∃ ds : List Nat, LinkedList.Path (t.donatorLinks 2) none ds none := by
  refine ⟨Run.meets_of_checks (by decide +kernel), ?_⟩
  have hview : (Run.exec stepAnyone (startedThreads 4) strayStop).map (fun t =>
      ((t.threads 2).donateTarget, (t.threads 2).firstDonator, (t.threads 1).nextDonator)) =
        some (none, some 1, some 1) := by
    decide +kernel
  obtain ⟨t, ht, hv⟩ := Option.map_eq_some_iff.mp hview
  obtain ⟨htarget, hrest⟩ := Prod.mk.inj hv
  obtain ⟨hfirst, hnext⟩ := Prod.mk.inj hrest
  refine ⟨t, ht, htarget, ?_⟩
  rintro ⟨ds, hpath⟩
  -- The list goes round in a circle: thread 1 comes after thread 1.
  have hloop : ∀ ds : List Nat, ¬ LinkedList.Path (t.donatorLinks 2) (some 1) ds none := by
    intro ds
    induction ds with
    | nil =>
      intro hend
      cases hend.symm.trans hnext
    | cons d ds ih =>
      rintro ⟨hd, hrest⟩
      obtain rfl : d = 1 := Option.some.inj (hd.symm.trans hnext)
      exact ih hrest
  cases ds with
  | nil => cases hpath.symm.trans hfirst
  | cons d ds =>
    obtain rfl : d = 1 := Option.some.inj (hpath.1.symm.trans hfirst)
    exact hloop ds hpath.2

end SectionSystem

end Chpok
