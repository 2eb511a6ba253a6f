import Chpok.Kernel.MsectionDonation
import Chpok.Kernel.ThreadSelect

/-! The callers of STOP and its targets, whoever is executed. The donators of a thread are a list
in which each one comes before those that wait for itself, so that one pass over the list ends
all the requests. -/

namespace Chpok

namespace SectionSystem

variable {s t : SectionSystem} {u v c d : Nat} {ds : List Nat}

def firstDonator (s : SectionSystem) (d : Nat) : Option Nat := (s.threads d).firstDonator

structure StopLists (s : SectionSystem) : Prop where
  donations : s.Donations
  later : ∀ u ds, (s.threads u).donateTarget = none → s.DonatorList u ds →
    LinkedList.Later s.firstDonator ds
  alive : ∀ d u, (s.threads d).donateTarget = some u → (s.threads d).state ≠ .stopped
  plain : ∀ u, (s.threads u).donateTarget = none → (s.threads u).nextDonator = none
  used : ∀ u, ¬ (0 < u ∧ u < s.nthreadsUsed) → (s.threads u).state = .stopped
  error : ∀ u, s.threadError = some u → 0 < u ∧ u < s.nthreadsUsed

theorem StopLists.no_target (hs : s.StopLists) (hstopped : (s.threads u).state = .stopped) (d : Nat) :
    (s.threads d).donateTarget ≠ some u := by
  intro hd
  have hrunnable := (hs.donations.target d u hd).runnable
  rw [hstopped] at hrunnable
  cases hrunnable

theorem StopLists.no_donator (hs : s.StopLists) (hstopped : (s.threads u).state = .stopped) :
    (s.threads u).donateTarget = none := by
  cases htarget : (s.threads u).donateTarget with
  | none => rfl
  | some v => exact absurd hstopped (hs.alive u v htarget)

/-! Steps that leave the lists alone -/

/-- The lists stay; no thread that takes part stops, and a target goes on. -/
theorem StopLists.of_same (hs : s.StopLists) (hused : t.nthreadsUsed = s.nthreadsUsed)
    (herror : t.threadError = s.threadError)
    (htarget : ∀ u, (t.threads u).donateTarget = (s.threads u).donateTarget)
    (hfirst : ∀ u, (t.threads u).firstDonator = (s.threads u).firstDonator)
    (hnext : ∀ u, (t.threads u).nextDonator = (s.threads u).nextDonator)
    (hkeep : ∀ d u, (s.threads d).donateTarget = some u → s.Target u →
      (t.threads u).state = .runnable ∧ (t.threads u).killed = true ∧
      (0 < (t.threads u).msectionCount ∨ ∃ sec, (t.threads u).point = .discounted sec))
    (halive : ∀ u, (s.threads u).donateTarget ≠ none → (s.threads u).state ≠ .stopped →
      (t.threads u).state ≠ .stopped)
    (hstopped : ∀ u, ¬ (0 < u ∧ u < s.nthreadsUsed) → (s.threads u).state = .stopped →
      (t.threads u).state = .stopped) : t.StopLists := by
  refine ⟨hs.donations.of_same htarget hfirst hnext hkeep, ?_, ?_, ?_, ?_, ?_⟩
  · intro u ds hu hds
    rw [htarget] at hu
    have hds' : s.DonatorList u ds := by
      refine ⟨hds.nodup, ?_, fun d => ?_⟩
      · exact LinkedList.path_congr hds.path (hfirst u).symm fun d _ => (hnext d).symm
      · rw [hds.mem, htarget]
    exact LinkedList.later_congr (hs.later u ds hu hds') fun d _ => hfirst d
  · intro d u hd
    rw [htarget] at hd
    exact halive d (by rw [hd]; nofun) (hs.alive d u hd)
  · intro u hu
    rw [hnext]
    exact hs.plain u ((htarget u).symm.trans hu)
  · intro u hu
    rw [hused] at hu
    exact hstopped u hu (hs.used u hu)
  · intro u hu
    rw [hused]
    exact hs.error u (herror.symm.trans hu)

theorem StopLists.congr (hs : s.StopLists) (hused : t.nthreadsUsed = s.nthreadsUsed)
    (herror : t.threadError = s.threadError) (hthreads : t.threads = s.threads) : t.StopLists := by
  refine hs.of_same hused herror (fun u => ?_) (fun u => ?_) (fun u => ?_) (fun d u _ hu => ?_)
    (fun u _ hu => ?_) (fun u _ hu => ?_)
  · rw [hthreads]
  · rw [hthreads]
  · rw [hthreads]
  · rw [hthreads]
    exact ⟨hu.runnable, hu.killed, hu.leaves⟩
  · rwa [hthreads]
  · rwa [hthreads]

theorem StopLists.updateThread (hs : s.StopLists) {f : SectionThread → SectionThread}
    (htarget : (f (s.threads u)).donateTarget = (s.threads u).donateTarget)
    (hfirst : (f (s.threads u)).firstDonator = (s.threads u).firstDonator)
    (hnext : (f (s.threads u)).nextDonator = (s.threads u).nextDonator)
    (hkeep : ∀ d, (s.threads d).donateTarget = some u → s.Target u →
      (f (s.threads u)).state = .runnable ∧ (f (s.threads u)).killed = true ∧
      (0 < (f (s.threads u)).msectionCount ∨ ∃ sec, (f (s.threads u)).point = .discounted sec))
    (halive : (s.threads u).donateTarget ≠ none → (s.threads u).state ≠ .stopped →
      (f (s.threads u)).state ≠ .stopped)
    (hstopped : ¬ (0 < u ∧ u < s.nthreadsUsed) → (s.threads u).state = .stopped →
      (f (s.threads u)).state = .stopped) : (s.updateThread u f).StopLists := by
  have hcases : ∀ (P : SectionThread → SectionThread → Prop), (∀ th, P th th) →
      P (f (s.threads u)) (s.threads u) → ∀ v, P ((s.updateThread u f).threads v) (s.threads v) := by
    intro P hsame hu v
    by_cases hv : v = u
    · subst hv
      rwa [updateThread_threads_self]
    · rw [updateThread_threads_ne hv]
      exact hsame _
  refine hs.of_same rfl rfl ?_ ?_ ?_ (fun d v hd hv => ?_) (fun v => ?_) (fun v => ?_)
  · exact hcases (fun th' th => th'.donateTarget = th.donateTarget) (fun _ => rfl) htarget
  · exact hcases (fun th' th => th'.firstDonator = th.firstDonator) (fun _ => rfl) hfirst
  · exact hcases (fun th' th => th'.nextDonator = th.nextDonator) (fun _ => rfl) hnext
  all_goals by_cases hne : v = u
  · subst hne
    rw [updateThread_threads_self]
    exact hkeep d hd hv
  · rw [updateThread_threads_ne hne]
    exact ⟨hv.runnable, hv.killed, hv.leaves⟩
  · subst hne
    rw [updateThread_threads_self]
    exact halive
  · rw [updateThread_threads_ne hne]
    exact fun _ h => h
  · subst hne
    rw [updateThread_threads_self]
    exact hstopped
  · rw [updateThread_threads_ne hne]
    exact fun _ h => h

theorem StopLists.goOn (hs : s.StopLists) {f : SectionThread → SectionThread}
    (htarget : (f (s.threads u)).donateTarget = (s.threads u).donateTarget)
    (hfirst : (f (s.threads u)).firstDonator = (s.threads u).firstDonator)
    (hnext : (f (s.threads u)).nextDonator = (s.threads u).nextDonator)
    (hstate : (f (s.threads u)).state = (s.threads u).state)
    (hkilled : (f (s.threads u)).killed = (s.threads u).killed)
    (hleaves : (∃ d, (s.threads d).donateTarget = some u) → s.Target u →
      0 < (f (s.threads u)).msectionCount ∨ ∃ sec, (f (s.threads u)).point = .discounted sec) :
    (s.updateThread u f).StopLists := by
  refine hs.updateThread htarget hfirst hnext (fun d hd ht => ⟨?_, ?_, hleaves ⟨d, hd⟩ ht⟩)
    (fun _ h => ?_) fun _ h => ?_
  · rw [hstate]
    exact ht.runnable
  · rw [hkilled]
    exact ht.killed
  · rwa [hstate]
  · rwa [hstate]

/-- What the kernel does on its way leaves the lists and those that take part alone. -/
structure KeepsStops (t s : SectionSystem) : Prop where
  used : t.nthreadsUsed = s.nthreadsUsed
  error : t.threadError = s.threadError
  target : ∀ u, (t.threads u).donateTarget = (s.threads u).donateTarget
  first : ∀ u, (t.threads u).firstDonator = (s.threads u).firstDonator
  next : ∀ u, (t.threads u).nextDonator = (s.threads u).nextDonator
  killed : ∀ u, (t.threads u).killed = (s.threads u).killed
  count : ∀ u, (t.threads u).msectionCount = (s.threads u).msectionCount
  point : ∀ u, (t.threads u).point = (s.threads u).point
  runnable : ∀ u, (s.threads u).state = .runnable → (t.threads u).state = .runnable
  stopped : ∀ u, (t.threads u).state = .stopped ↔ (s.threads u).state = .stopped

theorem KeepsStops.stopLists (h : t.KeepsStops s) (hs : s.StopLists) : t.StopLists := by
  refine hs.of_same h.used h.error h.target h.first h.next (fun d u _ hu => ⟨?_, ?_, ?_⟩)
    (fun u _ hu => ?_) (fun u _ hu => ?_)
  · exact h.runnable u hu.runnable
  · rw [h.killed]
    exact hu.killed
  · rw [h.count, h.point]
    exact hu.leaves
  · rwa [Ne, h.stopped]
  · exact (h.stopped u).mpr hu

theorem keepsStops_of_threads (hused : t.nthreadsUsed = s.nthreadsUsed)
    (herror : t.threadError = s.threadError) (hthreads : t.threads = s.threads) :
    t.KeepsStops s := by
  constructor <;> simp [hused, herror, hthreads]

theorem Steady.keepsStops (h : t.Steady s) (hused : t.nthreadsUsed = s.nthreadsUsed)
    (herror : t.threadError = s.threadError) : t.KeepsStops s where
  used := hused
  error := herror
  target u := (h.thread u).target
  first u := (h.thread u).first
  next u := (h.thread u).next
  killed u := (h.thread u).killed
  count u := (h.thread u).count
  point u := (h.thread u).point
  runnable u := (h.thread u).runnable
  stopped u := (h.thread u).stopped

theorem Selects.keepsStops (h : Selects s t) : t.KeepsStops s := by
  have hkeep : ∀ {α : Type} (a : SectionThread → α),
      (∀ th : SectionThread, a { th with msectionEntering := none } = a th) →
      ∀ u, a (t.threads u) = a (s.threads u) := by
    intro α a ha u
    rcases h.threads u with he | he
    · rw [he]
    · rw [he, ha]
  have hstate := hkeep SectionThread.state fun _ => rfl
  exact {
    used := h.used
    error := h.error
    target := hkeep _ fun _ => rfl
    first := hkeep _ fun _ => rfl
    next := hkeep _ fun _ => rfl
    killed := hkeep _ fun _ => rfl
    count := hkeep _ fun _ => rfl
    point := hkeep _ fun _ => rfl
    runnable := fun u hu => (hstate u).trans hu
    stopped := fun u => by rw [hstate] }

theorem threadWakeUp_used (h : s.threadWakeUp u = some t) :
    t.nthreadsUsed = s.nthreadsUsed ∧ t.threadError = s.threadError := by
  simp only [threadWakeUp] at h
  split_ifs at h
  obtain rfl := Option.some.inj h
  exact ⟨rfl, rfl⟩

theorem wakeAll_keepsStops {us : List Nat} (h : s.wakeAll us = some t) : t.KeepsStops s := by
  have hused : t.nthreadsUsed = s.nthreadsUsed ∧ t.threadError = s.threadError := by
    induction us generalizing s with
    | nil =>
      obtain rfl := Option.some.inj h
      exact ⟨rfl, rfl⟩
    | cons u us ih =>
      obtain ⟨r, hr, ht⟩ := Option.bind_eq_some_iff.mp h
      have hfirst := threadWakeUp_used hr
      have hrest := ih ht
      exact ⟨hrest.1.trans hfirst.1, hrest.2.trans hfirst.2⟩
  exact (wakeAll_steady h).keepsStops hused.1 hused.2

theorem msectionNotify_keepsStops {sec : Nat} {us : List Nat}
    (h : msectionNotify sec s us = some t) : t.KeepsStops s := by
  have hused : t.nthreadsUsed = s.nthreadsUsed ∧ t.threadError = s.threadError := by
    induction us generalizing s with
    | nil =>
      obtain rfl := Option.some.inj h
      exact ⟨rfl, rfl⟩
    | cons u us ih =>
      simp only [msectionNotify] at h
      split_ifs at h
      obtain ⟨r, hr, ht⟩ := Option.bind_eq_some_iff.mp h
      have hfirst := threadWakeUp_used hr
      have hrest := ih ht
      exact ⟨hrest.1.trans hfirst.1, hrest.2.trans hfirst.2⟩
  exact (msectionNotify_steady h).keepsStops hused.1 hused.2

theorem interruptWait_keepsStops (h : s.interruptWait u = some t) : t.KeepsStops s := by
  have hused : t.nthreadsUsed = s.nthreadsUsed ∧ t.threadError = s.threadError := by
    simp only [interruptWait] at h
    split_ifs at h
    · obtain ⟨r, hr, rfl⟩ := Option.map_eq_some_iff.mp h
      have hwoken := threadWakeUp_used hr
      exact ⟨hwoken.1, hwoken.2⟩
    · obtain rfl := Option.some.inj h
      exact ⟨rfl, rfl⟩
  exact (interruptWait_steady h).keepsStops hused.1 hused.2

theorem checkReleased_keepsStops (s : SectionSystem) : s.checkReleased.KeepsStops s := by
  rcases ArincPartition.checkReleased_cases s with he | he
  · rw [he]
    exact keepsStops_of_threads rfl rfl rfl
  · rw [he]
    exact keepsStops_of_threads rfl rfl rfl

/-! The exit from the kernel -/

theorem recordEntering_stopLists (hs : s.StopLists) : s.recordEntering.StopLists := by
  simp only [recordEntering]
  split
  · exact hs
  · split
    · exact hs
    · exact hs.goOn rfl rfl rfl rfl rfl fun _ ht => ht.leaves

theorem StopLists.restart (hs : s.StopLists) (hstopped : (s.threads u).state = .stopped)
    (hused : 0 < u ∧ u < s.nthreadsUsed) (f : SectionThread → SectionThread)
    (htarget : (f (s.threads u)).donateTarget = (s.threads u).donateTarget)
    (hfirst : (f (s.threads u)).firstDonator = (s.threads u).firstDonator)
    (hnext : (f (s.threads u)).nextDonator = (s.threads u).nextDonator) :
    (s.updateThread u f).StopLists := by
  refine hs.updateThread htarget hfirst hnext (fun d hd _ => ?_) (fun hu => ?_) fun hu => ?_
  · exact absurd hd (hs.no_target hstopped d)
  · exact absurd (hs.no_donator hstopped) hu
  · exact absurd hused hu

theorem schedRule_stopLists {choice : SchedChoice} {r : SectionSystem × Option Nat}
    (hs : s.StopLists) (h : s.schedRule choice = some r) : r.1.StopLists := by
  cases choice with
  | idle =>
    obtain rfl := Option.some.inj h
    exact hs
  | «continue» u =>
    simp only [schedRule] at h
    split_ifs at h
    obtain rfl := Option.some.inj h
    exact hs
  | startError =>
    simp only [schedRule] at h
    split at h
    · cases h
    · rename_i e he
      split_ifs at h with hstopped
      obtain rfl := Option.some.inj h
      exact hs.restart hstopped (hs.error e he)
        (fun th => { resetContext th with state := .runnable }) rfl rfl rfl

theorem switchTo_stopLists {new : Option Nat} (hs : s.StopLists) (h : s.switchTo new = some t) :
    t.StopLists := by
  cases new with
  | none =>
    obtain rfl := Option.some.inj h
    exact hs.congr rfl rfl rfl
  | some u =>
    simp only [switchTo] at h
    split_ifs at h
    obtain rfl := Option.some.inj h
    have hkept := (hasContext_steady s u).keepsStops rfl rfl
    exact (hkept.stopLists hs).congr rfl rfl rfl

theorem exitKernel_stopLists {e : KernelExit} (hs : s.StopLists) (h : s.exitKernel e = some t) :
    t.StopLists := by
  obtain ⟨r, hr, ht⟩ := Option.bind_eq_some_iff.mp h
  have hwoken := (wakeAll_keepsStops hr).stopLists hs
  simp only [schedArinc] at ht
  split_ifs at ht
  · obtain ⟨q, hq, hsel⟩ := Option.bind_eq_some_iff.mp ht
    obtain ⟨n, hn, hswitch⟩ := Option.bind_eq_some_iff.mp hsel
    have hstart : StopLists { r with recheckNeeded := false } := hwoken.congr rfl rfl rfl
    have hruled : StopLists { q.1 with threadSelected := q.2 } :=
      (schedRule_stopLists hstart hq).congr rfl rfl rfl
    have hselected := (selectThread_selects hn).1.keepsStops.stopLists hruled
    exact switchTo_stopLists hselected hswitch
  · obtain rfl := Option.some.inj ht
    exact hwoken.congr rfl rfl rfl

/-! STOP -/

theorem StopLists.stop (hs : s.StopLists) (hfree : (s.threads u).donateTarget = none)
    (hnobody : ∀ d, (s.threads d).donateTarget ≠ some u) (h : s.threadStop u = some t) :
    t.StopLists := by
  simp only [threadStop] at h
  split_ifs at h
  obtain rfl := Option.some.inj h
  exact hs.updateThread rfl rfl rfl (fun d hd _ => absurd hd (hnobody d))
    (fun hu => absurd hfree hu) fun _ _ => rfl

theorem Donations.first_none (hs : s.Donations) (hfree : (s.threads u).donateTarget = none)
    (hnobody : ∀ d, (s.threads d).donateTarget ≠ some u) : (s.threads u).firstDonator = none := by
  obtain ⟨ds, hlist⟩ := hs.list hfree
  have hnil : ds = [] := List.eq_nil_iff_forall_not_mem.mpr fun d hd =>
    hnobody d ((hlist.mem d).mp hd)
  subst hnil
  exact hlist.path

/-- The caller is linked into the list of its target, before those that wait for itself. -/
theorem StopLists.insert {before after : List Nat} (hs : s.StopLists)
    (h : LinkedIn s t u c before after) (hlist : s.DonatorList u (before ++ after))
    (hc : s.Donator c) (halive : (s.threads c).state ≠ .stopped) (hdonations : t.Donations)
    (hlater : LinkedList.Later t.firstDonator (before ++ c :: after))
    (hfirst : ∀ d v, (s.threads d).donateTarget = some v → v ≠ u →
      (t.threads d).firstDonator = (s.threads d).firstDonator)
    (hstate : ∀ v, (t.threads v).state = (s.threads v).state)
    (hused : t.nthreadsUsed = s.nthreadsUsed) (herror : t.threadError = s.threadError) :
    t.StopLists := by
  refine ⟨hdonations, fun v ds hv hds => ?_, fun d v hd => ?_, fun v hv => ?_, fun v hv => ?_,
    fun v hv => ?_⟩
  · obtain ⟨hvc, hfree⟩ := h.free hv
    by_cases hvu : v = u
    · subst hvu
      rw [hds.unique (h.list hlist hc.free)]
      exact hlater
    · obtain ⟨es, hes⟩ := hs.donations.list hfree
      obtain rfl := hds.unique (h.list_ne hlist hc.free hvu hv hes)
      apply LinkedList.later_congr (hs.later v ds hfree hes)
      intro d hd
      exact hfirst d v ((hes.mem d).mp hd) hvu
  · rw [hstate]
    by_cases hdc : d = c
    · subst hdc
      exact halive
    · rw [h.others d hdc] at hd
      exact hs.alive d v hd
  · obtain ⟨hvc, hfree⟩ := h.free hv
    rw [h.next v]
    · exact hs.plain v hfree
    · intro hmem
      rcases List.mem_cons.mp hmem with he | hmem
      · exact hvc he
      · rw [(hlist.mem v).mp hmem] at hfree
        cases hfree
  · rw [hstate]
    exact hs.used v (hused ▸ hv)
  · rw [hused]
    exact hs.error v (herror ▸ hv)

theorem StopLists.donateFront (hs : s.StopLists) (hc : s.Donator c)
    (halive : (s.threads c).state ≠ .stopped) (hne : c ≠ u) (hu : s.Target u) :
    (s.donateFront c u).StopLists := by
  obtain ⟨ds, hlist⟩ := hs.donations.list hu.donates
  obtain ⟨hwc, hwu, hwo⟩ := donateFront_threads hne s
  have hlinked := donateFront_linkedIn hne hlist
  have hdonator : ∀ d v, (s.threads d).donateTarget = some v →
      (s.donateFront c u).threads d = s.threads d := by
    intro d v hd
    apply hwo d
    · rintro rfl
      rw [hc.free] at hd
      cases hd
    · rintro rfl
      rw [hu.donates] at hd
      cases hd
  refine hs.insert hlinked hlist hc halive (hs.donations.donateFront hc hne hu) ⟨?_, ?_⟩
    (fun d v hd _ => congrArg _ (hdonator d v hd)) (fun v => ?_) rfl rfl
  · intro e he
    have hcfirst := hs.donations.first_none hc.free hc.nobody
    rw [firstDonator, hwc] at he
    rw [hcfirst] at he
    cases he
  · apply LinkedList.later_congr (hs.later u ds hu.donates hlist)
    intro d hd
    exact congrArg _ (hdonator d u ((hlist.mem d).mp hd))
  · by_cases hvc : v = c
    · rw [hvc, hwc]
    · by_cases hvu : v = u
      · rw [hvu, hwu]
      · rw [hwo v hvc hvu]

theorem StopLists.donateBehind {e : Nat} {first : SectionThread → Option Nat}
    (hs : s.StopLists) (hc : s.Donator c) (halive : (s.threads c).state ≠ .stopped) (hne : c ≠ e)
    (he : (s.threads e).donateTarget = some u)
    (hfirst : ∀ d, first (s.threads e) = some d → d = c ∨ (s.threads e).firstDonator = some d) :
    (s.donateBehind c e u first).StopLists := by
  have hu := hs.donations.target e u he
  obtain ⟨ds, hlist⟩ := hs.donations.list hu.donates
  obtain ⟨before, after, rfl⟩ := List.append_of_mem ((hlist.mem e).mpr he)
  have hcu : c ≠ u := fun h => hc.nobody e (h ▸ he)
  have hue : u ≠ e := by
    rintro rfl
    rw [hu.donates] at he
    cases he
  have hlinked : LinkedIn s (s.donateBehind c e u first) u c (before ++ [e]) after :=
    donateBehind_linkedIn hne hcu hue he hlist
  obtain ⟨hwc, hwe, hwo⟩ := donateBehind_threads hne s u first
  have hlater := hs.later u _ hu.donates hlist
  have hdonator : ∀ d v, (s.threads d).donateTarget = some v → d ≠ e →
      (s.donateBehind c e u first).threads d = s.threads d := by
    intro d v hd hde
    refine hwo d ?_ hde
    rintro rfl
    rw [hc.free] at hd
    cases hd
  have hmem : ∀ d ∈ before ++ after, (s.threads d).donateTarget = some u ∧ d ≠ e := by
    intro d hd
    have hnot := (List.nodup_cons.mp (List.nodup_middle.mp hlist.nodup)).1
    refine ⟨(hlist.mem d).mp ?_, ne_of_mem_of_not_mem hd hnot⟩
    rcases List.mem_append.mp hd with hd | hd
    · simp [hd]
    · simp [hd]
  have hdonations : (s.donateBehind c e u first).Donations :=
    hs.donations.donateBehind hc hne he
  rw [List.append_cons] at hlist
  refine hs.insert hlinked hlist hc halive hdonations ?_ (fun d v hd hvu => ?_) (fun v => ?_) rfl rfl
  · rw [List.append_assoc]
    refine LinkedList.later_insert_behind hlater ?_ (fun d hd => ?_) fun d hd => ?_
    · rw [firstDonator, hwc]
      exact hs.donations.first_none hc.free hc.nobody
    · rw [firstDonator, hwe] at hd
      exact hfirst d hd
    · exact congrArg _ (hdonator d u (hmem d hd).1 (hmem d hd).2)
  · refine congrArg _ (hdonator d v hd ?_)
    rintro rfl
    exact hvu (Option.some.inj (hd.symm.trans he))
  · by_cases hvc : v = c
    · rw [hvc, hwc]
    · by_cases hve : v = e
      · rw [hve, hwe]
      · rw [hwo v hvc hve]

theorem threadStopTarget_stopLists (hs : s.StopLists) (hc : s.Donator c)
    (halive : (s.threads c).state ≠ .stopped) (hne : c ≠ u) (h : s.threadStopTarget c u = some t) :
    t.StopLists := by
  simp only [threadStopTarget] at h
  by_cases hstopped : (s.threads u).state = .stopped
  · rw [if_pos hstopped] at h
    exact Option.some.inj h ▸ hs
  rw [if_neg hstopped] at h
  cases htarget : (s.threads u).donateTarget with
  | some target =>
    simp only [htarget] at h
    obtain rfl := Option.some.inj h
    have hbehind : (s.donateBehind c u target fun th =>
        if th.firstDonator = none then some c else th.firstDonator).StopLists := by
      apply hs.donateBehind hc halive hne htarget
      intro d hd
      split_ifs at hd
      · exact Or.inl (Option.some.inj hd).symm
      · exact Or.inr hd
    exact hbehind.congr rfl rfl rfl
  | none =>
    simp only [htarget] at h
    by_cases hfirst : (s.threads u).firstDonator ≠ none
    · rw [if_pos hfirst] at h
      obtain rfl := Option.some.inj h
      have hu : s.Target u := by
        by_contra hnot
        exact hfirst (hs.donations.first_none htarget fun d hd => hnot (hs.donations.target d u hd))
      exact (hs.donateFront hc halive hne hu).congr rfl rfl rfl
    · rw [if_neg hfirst] at h
      have hfirst : (s.threads u).firstDonator = none := not_not.mp hfirst
      have hnobody := hs.donations.nobody htarget hfirst
      by_cases hcount : (s.threads u).msectionCount ≠ 0
      · rw [if_pos hcount] at h
        obtain ⟨r, hr, rfl⟩ := Option.map_eq_some_iff.mp h
        have hkept := interruptWait_keepsStops hr
        have hkilled : (r.updateThread u fun th => { th with killed := true }).StopLists := by
          refine (hkept.stopLists hs).updateThread rfl rfl rfl (fun d hd _ => ?_) (fun _ h => h)
            fun _ h => h
          exact absurd ((hkept.target d).symm.trans hd) (hnobody d)
        have hdonator : (r.updateThread u fun th => { th with killed := true }).Donator c := by
          apply hkilled.donations.donator
          · rw [updateThread_threads_ne hne]
            exact (hkept.target c).trans hc.free
          · rw [updateThread_threads_ne hne]
            exact (hkept.count c).trans hc.count
          · rw [updateThread_threads_ne hne]
            exact (hkept.point c).trans hc.point
        have hu : (r.updateThread u fun th => { th with killed := true }).Target u := by
          refine ⟨?_, ?_, ?_, .inl ?_⟩
          all_goals rw [updateThread_threads_self]
          · exact (hkept.target u).trans htarget
          · exact interruptWait_runnable hstopped hr
          · exact Nat.pos_of_ne_zero ((hkept.count u).trans_ne hcount)
        have hcalive : ((r.updateThread u fun th => { th with killed := true }).threads c).state ≠
            .stopped := by
          rw [updateThread_threads_ne hne]
          exact fun hc => halive ((hkept.stopped c).mp hc)
        have hlists := hkilled.donateFront hdonator hcalive hne hu
        rw [SectionSystem.donateFront, updateThread_updateThread, updateThread_threads_self] at hlists
        rw [← hfirst, ← hkept.first u]
        exact hlists.congr rfl rfl rfl
      · rw [if_neg hcount] at h
        exact hs.stop htarget hnobody h

/-! The end of a target -/

theorem resumeDonator_exists (halive : (s.threads d).firstDonator ≠ none →
    (s.threads d).state ≠ .stopped) : ∃ t, s.resumeDonator d = some t ∧
      t.nthreadsUsed = s.nthreadsUsed ∧ t.threadError = s.threadError := by
  rw [resumeDonator]
  by_cases hfirst : (s.threads d).firstDonator = none
  · rw [if_pos hfirst]
    exact ⟨_, rfl, rfl, rfl⟩
  · rw [if_neg hfirst, threadStop, updateThread_threads_self, if_neg (halive hfirst)]
    exact ⟨_, rfl, rfl, rfl⟩

/-- The loop ends after the last donator. -/
theorem resumeDonators_exists {fuel : Nat}
    (hpath : LinkedList.Path (s.donatorLinks u) (some d) ds none) (hnodup : (d :: ds).Nodup)
    (hfuel : (d :: ds).length ≤ fuel)
    (halive : ∀ e ∈ d :: ds, (s.threads e).firstDonator ≠ none → (s.threads e).state ≠ .stopped) :
    ∃ t, resumeDonators fuel s d = some t ∧
      t.nthreadsUsed = s.nthreadsUsed ∧ t.threadError = s.threadError := by
  induction fuel generalizing s d ds with
  | zero => cases hfuel
  | succ fuel ih =>
    obtain ⟨r, hr, hused, herror⟩ := resumeDonator_exists (halive d (by simp))
    rw [resumeDonators, hr, Option.bind_some]
    have hone := resumeDonator_resumed hr
    cases ds with
    | nil =>
      have hnext : (s.threads d).nextDonator = none := hpath
      rw [hnext]
      exact ⟨r, rfl, hused, herror⟩
    | cons e ds =>
      obtain ⟨hnext, hpath⟩ := hpath
      obtain ⟨hnot, hnodup⟩ := List.nodup_cons.mp hnodup
      have hnext : (s.threads d).nextDonator = some e := hnext
      have hkeep : ∀ e' ∈ e :: ds, r.threads e' = s.threads e' := by
        intro e' he'
        refine hone.others e' ?_
        rw [List.mem_singleton]
        rintro rfl
        exact hnot he'
      have hpath' : LinkedList.Path (r.donatorLinks u) (some e) ds none :=
        LinkedList.path_congr hpath (congrArg (·.nextDonator) (hkeep e (by simp)))
          fun e' he' => congrArg (·.nextDonator) (hkeep e' (by simp [he']))
      obtain ⟨t, ht, hused', herror'⟩ := ih hpath' hnodup (Nat.le_of_succ_le_succ hfuel)
        fun e' he' => by
          rw [hkeep e' he']
          exact halive e' (List.mem_cons_of_mem d he')
      rw [hnext]
      exact ⟨t, ht, hused'.trans hused, herror'.trans herror⟩

theorem StopLists.length_le (hs : s.StopLists) (hlist : s.DonatorList u ds) :
    ds.length ≤ s.nthreadsUsed := by
  have hsub : ds ⊆ List.range s.nthreadsUsed := by
    intro d hd
    rw [List.mem_range]
    by_contra hle
    exact hs.alive d u ((hlist.mem d).mp hd) (hs.used d fun h => hle h.2)
  simpa using (hlist.nodup.subperm hsub).length_le

/-- A target that has left its last section stops, and its donators are released. -/
theorem StopLists.resched (hs : s.StopLists) (hlist : s.DonatorList u (d :: ds))
    (hfree : (s.threads u).donateTarget = none) (hcount : (s.threads u).msectionCount = 0) :
    ∃ t, s.resched u = some t ∧ t.Released (d :: ds) u s ∧ t.nthreadsUsed = s.nthreadsUsed ∧
      t.threadError = s.threadError := by
  have hkept := checkReleased_keepsStops s
  have hfirst : (s.threads u).firstDonator = some d := hlist.path.1
  have htarget := hs.donations.target d u ((hlist.mem d).mp (by simp))
  have hthreads : s.checkReleased.threads = s.threads := by
    rcases ArincPartition.checkReleased_cases s with he | he
    · rw [he]
    · rw [he]
      rfl
  have hlist' : s.checkReleased.DonatorList u (d :: ds) := by
    refine ⟨hlist.nodup, LinkedList.path_congr hlist.path (hkept.first u) fun e _ => hkept.next e,
      fun e => ?_⟩
    rw [hlist.mem, hkept.target]
  rw [SectionSystem.resched, hfirst]
  dsimp only
  rw [if_pos hcount]
  have hstop : ∃ r, (s.checkReleased.updateThread u fun th =>
      { th with firstDonator := none }).threadStop u = some r ∧
        r.nthreadsUsed = s.nthreadsUsed ∧ r.threadError = s.threadError := by
    rw [threadStop, updateThread_threads_self, hthreads, if_neg (by simp [htarget.runnable])]
    exact ⟨_, rfl, hkept.used, hkept.error⟩
  obtain ⟨r, hr, hused, herror⟩ := hstop
  have hpath := threadStop_path hlist' hr
  have hothers : ∀ e ∈ d :: ds, r.threads e = s.threads e := by
    intro e he
    have hne : e ≠ u := by
      rintro rfl
      rw [(hlist.mem e).mp he] at hfree
      cases hfree
    simp only [threadStop] at hr
    split_ifs at hr
    obtain rfl := Option.some.inj hr
    rw [updateThread_threads_ne hne, updateThread_threads_ne hne, hthreads]
  obtain ⟨t, ht, hused', herror'⟩ := resumeDonators_exists hpath hlist.nodup (hs.length_le hlist)
    fun e he _ => by
      rw [hothers e he]
      exact hs.alive e u ((hlist.mem e).mp he)
  have hreleased := (resumeDonators_resumed hpath hlist.nodup ht).released
    ((hkept.target u).trans hfree) hlist' hr
  rw [hr, Option.bind_some]
  refine ⟨t, ht, ⟨?_, fun e he => ?_, fun v hv hvds => ?_⟩, hused'.trans hused,
    herror'.trans herror⟩
  · rw [hreleased.self, hthreads]
  · rw [hreleased.donators e he, hthreads]
  · rw [hreleased.others v hv hvds, hthreads]

end SectionSystem

end Chpok
