import Chpok.Kernel.MsectionOwner

/-! Donations. A thread that stops another one inside its section donates to it until the
section is left. The donators of a thread are a linked list, and a thread on such a list
executes nothing, so that it may be stopped itself when its turn comes. -/

namespace Chpok

namespace SectionSystem

variable {s t : SectionSystem} {u v sec : Nat}

theorem Donations.nobody (hs : s.Donations) (hu : (s.threads u).donateTarget = none)
    (hfirst : (s.threads u).firstDonator = none) (d : Nat) :
    (s.threads d).donateTarget ≠ some u := by
  obtain ⟨ds, -, hpath, hmem⟩ := hs.donators u hu
  intro hd
  have hhead := LinkedList.path_head hpath
  rw [show s.donatorLinks u none = none from hfirst] at hhead
  obtain rfl := List.head?_eq_none_iff.mp hhead.symm
  exact absurd ((hmem d).mpr hd) (by simp)

theorem Owned.stop (hs : s.Owned) (hcount : (s.threads u).msectionCount = 0)
    (hnobody : ∀ d, (s.threads d).donateTarget ≠ some u) (h : s.threadStop u = some t) :
    t.Owned := by
  simp only [threadStop] at h
  split_ifs at h
  obtain rfl := Option.some.inj h
  refine hs.updateThread ((hs.thread u).stop hcount) (fun sec hown => ?_)
    (hs.donations.updateThread rfl rfl rfl fun d hd _ => absurd hd (hnobody d))
  have := (hs.owner sec u hown).count_pos (hs.thread u)
  omega

/-- The donators of `u`, in the order of their links. -/
structure DonatorList (s : SectionSystem) (u : Nat) (ds : List Nat) : Prop where
  nodup : ds.Nodup
  path : LinkedList.Path (s.donatorLinks u) none ds none
  mem : ∀ d, d ∈ ds ↔ (s.threads d).donateTarget = some u

theorem Donations.list (hs : s.Donations) (hu : (s.threads u).donateTarget = none) :
    ∃ ds, s.DonatorList u ds := by
  obtain ⟨ds, hnodup, hpath, hmem⟩ := hs.donators u hu
  exact ⟨ds, hnodup, hpath, hmem⟩

theorem DonatorList.unique {ds es : List Nat} (h : s.DonatorList u ds) (h' : s.DonatorList u es) :
    ds = es := LinkedList.path_unique h.path h'.path

/-- In `t` the thread `c` is linked into the list of the donators of `u`. -/
structure LinkedIn (s t : SectionSystem) (u c : Nat) (before after : List Nat) : Prop where
  target : (t.threads c).donateTarget = some u
  others : ∀ d, d ≠ c → (t.threads d).donateTarget = (s.threads d).donateTarget
  links : ∀ p, (∀ d, p = some d → d ∈ c :: (before ++ after)) → t.donatorLinks u p =
    Function.update (Function.update (s.donatorLinks u) (some c) after.head?) before.getLast?
      (some c) p
  first : ∀ v, v ≠ u → (t.threads v).donateTarget = none →
    (t.threads v).firstDonator = (s.threads v).firstDonator
  next : ∀ d, d ∉ c :: (before ++ after) → (t.threads d).nextDonator = (s.threads d).nextDonator

section LinkedIn

variable {c : Nat} {before after ds : List Nat}

theorem LinkedIn.list (h : LinkedIn s t u c before after)
    (hlist : s.DonatorList u (before ++ after)) (hc : (s.threads c).donateTarget = none) :
    t.DonatorList u (before ++ c :: after) := by
  have hcnot : c ∉ before ++ after := by
    rw [hlist.mem, hc]
    exact nofun
  have hinsert := LinkedList.path_insert hlist.path hlist.nodup hcnot
  have hperm : ∀ d, d ∈ before ++ c :: after ↔ d ∈ c :: (before ++ after) := by
    intro d
    simp only [List.mem_append, List.mem_cons]
    exact or_left_comm
  refine ⟨?_, ?_, fun d => ?_⟩
  · exact List.nodup_middle.mpr (List.nodup_cons.mpr ⟨hcnot, hlist.nodup⟩)
  · refine LinkedList.path_congr hinsert (h.links none nofun) fun d hd => h.links (some d) ?_
    rintro d' ⟨⟩
    exact (hperm d).mp hd
  · rw [hperm]
    by_cases hdc : d = c
    · subst hdc
      simp [h.target]
    · rw [h.others d hdc, ← hlist.mem]
      simp [hdc]

theorem LinkedIn.apart (hlist : s.DonatorList u (before ++ after)) (hvu : v ≠ u)
    (hc : (s.threads c).donateTarget = none) (hds : s.DonatorList v ds) {d : Nat} (hd : d ∈ ds) :
    d ∉ c :: (before ++ after) := by
  intro hd'
  have hdv := (hds.mem d).mp hd
  rcases List.mem_cons.mp hd' with rfl | hd'
  · rw [hc] at hdv
    cases hdv
  · rw [(hlist.mem d).mp hd'] at hdv
    exact hvu (Option.some.inj hdv).symm

theorem LinkedIn.list_ne (h : LinkedIn s t u c before after)
    (hlist : s.DonatorList u (before ++ after)) (hc : (s.threads c).donateTarget = none)
    (hvu : v ≠ u) (hv : (t.threads v).donateTarget = none) (hds : s.DonatorList v ds) :
    t.DonatorList v ds := by
  have hapart := fun d => LinkedIn.apart (d := d) hlist hvu hc hds
  refine ⟨hds.nodup, LinkedList.path_congr hds.path (h.first v hvu hv) fun d hd =>
    h.next d (hapart d hd), fun d => ?_⟩
  by_cases hdc : d = c
  · subst hdc
    refine iff_of_false (fun hd => hapart d hd (by simp)) ?_
    rw [h.target]
    exact fun he => hvu (Option.some.inj he).symm
  · rw [h.others d hdc]
    exact hds.mem d

theorem LinkedIn.free (h : LinkedIn s t u c before after)
    (hv : (t.threads v).donateTarget = none) : v ≠ c ∧ (s.threads v).donateTarget = none := by
  have hvc : v ≠ c := by
    rintro rfl
    rw [h.target] at hv
    cases hv
  exact ⟨hvc, (h.others v hvc).symm.trans hv⟩

theorem Donations.insert (hs : s.Donations) (h : LinkedIn s t u c before after)
    (hlist : s.DonatorList u (before ++ after)) (hc : (s.threads c).donateTarget = none)
    (hnobody : ∀ d, (s.threads d).donateTarget ≠ some c) (hself : t.Target u)
    (hkeep : ∀ v, v ≠ u → v ≠ c → s.Target v → t.Target v) : t.Donations := by
  refine ⟨fun v hv => ?_, fun d v hd => ?_⟩
  · by_cases hvu : v = u
    · subst hvu
      have hnew := h.list hlist hc
      exact ⟨_, hnew.nodup, hnew.path, hnew.mem⟩
    · obtain ⟨ds, hds⟩ := hs.list (h.free hv).2
      have hnew := h.list_ne hlist hc hvu hv hds
      exact ⟨ds, hnew.nodup, hnew.path, hnew.mem⟩
  · by_cases hvu : v = u
    · exact hvu ▸ hself
    · have hdc : d ≠ c := by
        rintro rfl
        rw [h.target] at hd
        exact hvu (Option.some.inj hd).symm
      rw [h.others d hdc] at hd
      refine hkeep v hvu ?_ (hs.target d v hd)
      rintro rfl
      exact hnobody d hd

end LinkedIn

theorem Target.of_same (hs : s.Target u)
    (htarget : (t.threads u).donateTarget = (s.threads u).donateTarget)
    (hstate : (t.threads u).state = (s.threads u).state)
    (hkilled : (t.threads u).killed = (s.threads u).killed)
    (hcount : (t.threads u).msectionCount = (s.threads u).msectionCount)
    (hpoint : (t.threads u).point = (s.threads u).point) : t.Target u := by
  refine ⟨htarget.trans hs.donates, hstate.trans hs.runnable, hkilled.trans hs.killed, ?_⟩
  rw [hcount, hpoint]
  exact hs.leaves

/-- The current thread, outside all sections, starts to wait for the end of another one. -/
structure Donator (s : SectionSystem) (c : Nat) : Prop where
  free : (s.threads c).donateTarget = none
  count : (s.threads c).msectionCount = 0
  point : (s.threads c).point = .running
  nobody : ∀ d, (s.threads d).donateTarget ≠ some c

theorem donate_threads {c e : Nat} (hne : c ≠ e) (s : SectionSystem) (u : Nat)
    (next : Option Nat) (f : SectionThread → SectionThread) :
    ((s.updateThread e f).donate c u next).threads c =
        { s.threads c with donateTarget := some u, nextDonator := next } ∧
      ((s.updateThread e f).donate c u next).threads e = f (s.threads e) ∧
      ∀ v, v ≠ c → v ≠ e → ((s.updateThread e f).donate c u next).threads v = s.threads v := by
  refine ⟨?_, ?_, fun v hvc hve => ?_⟩
  · rw [SectionSystem.donate, updateThread_threads_self, updateThread_threads_ne hne]
  · rw [SectionSystem.donate, updateThread_threads_ne hne.symm, updateThread_threads_self]
  · rw [SectionSystem.donate, updateThread_threads_ne hvc, updateThread_threads_ne hve]

/-- Only the links of `c` and of one other thread change. -/
theorem Owned.donate {c e : Nat} {next : Option Nat} {f : SectionThread → SectionThread}
    (hs : s.Owned) (hc : s.Donator c) (hne : c ≠ e)
    (hthread : (f (s.threads e)).Orderly)
    (hclaims : ∀ sec, (s.threads e).Claims sec → (f (s.threads e)).Claims sec)
    (hdonations : ((s.updateThread e f).donate c u next).Donations) :
    ((s.updateThread e f).donate c u next).Owned := by
  obtain ⟨hself, he, hothers⟩ := donate_threads hne s u next f
  refine ⟨fun v => ?_, fun sec v hv => ?_, hdonations⟩
  · by_cases hvc : v = c
    · subst hvc
      rw [hself]
      exact { hs.thread v with donating := fun _ => ⟨hc.count, hc.point⟩ }
    · by_cases hve : v = e
      · subst hve
        rwa [he]
      · rw [hothers v hvc hve]
        exact hs.thread v
  · have hown : (s.threads v).Claims sec := hs.owner sec v hv
    by_cases hvc : v = c
    · subst hvc
      have := hown.count_pos (hs.thread v)
      rw [hc.count] at this
      cases this
    · by_cases hve : v = e
      · subst hve
        rw [he]
        exact hclaims sec hown
      · rwa [hothers v hvc hve]

/-- `pok_thread_stop_target` puts the caller in front of the donators of its target. -/
def donateFront (s : SectionSystem) (c u : Nat) : SectionSystem :=
  (s.updateThread u fun th => { th with firstDonator := some c }).donate c u
    (s.threads u).firstDonator

theorem donateFront_threads {c : Nat} (hne : c ≠ u) (s : SectionSystem) :
    (s.donateFront c u).threads c =
        { s.threads c with donateTarget := some u, nextDonator := (s.threads u).firstDonator } ∧
      (s.donateFront c u).threads u = { s.threads u with firstDonator := some c } ∧
      ∀ v, v ≠ c → v ≠ u → (s.donateFront c u).threads v = s.threads v :=
  donate_threads hne s u _ _

theorem donateFront_linkedIn {c : Nat} {ds : List Nat} (hne : c ≠ u)
    (hlist : s.DonatorList u ds) : LinkedIn s (s.donateFront c u) u c [] ds := by
  have hhead : (s.threads u).firstDonator = ds.head? := LinkedList.path_head hlist.path
  obtain ⟨hwc, hwu, hwo⟩ := donateFront_threads hne s
  generalize s.donateFront c u = w at hwc hwu hwo ⊢
  have hsame : ∀ v, v ≠ c → w.threads v = s.threads v ∨ v = u ∧ w.threads v =
      { s.threads v with firstDonator := some c } := by
    intro v hvc
    by_cases hvu : v = u
    · exact .inr ⟨hvu, hvu ▸ hwu⟩
    · exact .inl (hwo v hvc hvu)
  refine ⟨by rw [hwc], fun d hd => ?_, fun p hp => ?_, fun v hvu hv => ?_, fun d hd => ?_⟩
  · rcases hsame d hd with h | ⟨-, h⟩ <;> rw [h]
  · cases p with
    | none => simp [donatorLinks, hwu]
    | some d =>
      by_cases hdc : d = c
      · subst hdc
        simp [donatorLinks, hwc, hhead]
      · have hnext : (w.threads d).nextDonator = (s.threads d).nextDonator := by
          rcases hsame d hdc with h | ⟨-, h⟩ <;> rw [h]
        simp [donatorLinks, hdc, hnext]
  · have hvc : v ≠ c := by
      rintro rfl
      rw [hwc] at hv
      cases hv
    rw [hwo v hvc hvu]
  · have hdc : d ≠ c := fun he => hd (he ▸ by simp)
    rcases hsame d hdc with h | ⟨-, h⟩ <;> rw [h]

theorem Donations.donateFront {c : Nat} (hs : s.Donations) (hc : s.Donator c) (hne : c ≠ u)
    (hu : s.Target u) : (s.donateFront c u).Donations := by
  obtain ⟨ds, hlist⟩ := hs.list hu.donates
  obtain ⟨-, hwu, hwo⟩ := donateFront_threads hne s
  refine hs.insert (donateFront_linkedIn hne hlist) hlist hc.free hc.nobody ?_
    fun v hvu hvc hv => ?_
  · exact hu.of_same (by rw [hwu]) (by rw [hwu]) (by rw [hwu]) (by rw [hwu]) (by rw [hwu])
  · have h := hwo v hvc hvu
    exact hv.of_same (by rw [h]) (by rw [h]) (by rw [h]) (by rw [h]) (by rw [h])

theorem Owned.donate_front {c : Nat} (hs : s.Owned) (hc : s.Donator c) (hne : c ≠ u)
    (hu : s.Target u) : (s.donateFront c u).Owned :=
  hs.donate hc hne { hs.thread u with } (fun _ h => h) (hs.donations.donateFront hc hne hu)

/-- The caller is put behind a target `e` that is a donator of `u` itself. -/
def donateBehind (s : SectionSystem) (c e u : Nat) (first : SectionThread → Option Nat) :
    SectionSystem :=
  (s.updateThread e fun th => { th with
    firstDonator := first th, nextDonator := some c }).donate c u (s.threads e).nextDonator

theorem donateBehind_threads {c e : Nat} (hne : c ≠ e) (s : SectionSystem) (u : Nat)
    (first : SectionThread → Option Nat) :
    (s.donateBehind c e u first).threads c =
        { s.threads c with donateTarget := some u, nextDonator := (s.threads e).nextDonator } ∧
      (s.donateBehind c e u first).threads e =
        { s.threads e with firstDonator := first (s.threads e), nextDonator := some c } ∧
      ∀ v, v ≠ c → v ≠ e → (s.donateBehind c e u first).threads v = s.threads v :=
  donate_threads hne s u _ _

theorem donateBehind_linkedIn {c e : Nat} {before after : List Nat}
    {first : SectionThread → Option Nat} (hne : c ≠ e) (hcu : c ≠ u) (hue : u ≠ e)
    (he : (s.threads e).donateTarget = some u)
    (hlist : s.DonatorList u (before ++ e :: after)) :
    LinkedIn s (s.donateBehind c e u first) u c (before ++ [e]) after := by
  have hnext : (s.threads e).nextDonator = after.head? := LinkedList.path_succ hlist.path
  obtain ⟨hwc, hwe, hwo⟩ := donateBehind_threads hne s u first
  generalize s.donateBehind c e u first = w at hwc hwe hwo ⊢
  refine ⟨by rw [hwc], fun d hd => ?_, fun p hp => ?_, fun v hvu hv => ?_, fun d hd => ?_⟩
  · by_cases hde : d = e
    · rw [hde, hwe]
    · rw [hwo d hd hde]
  · cases p with
    | none => simp [donatorLinks, hwo u hcu.symm hue]
    | some d =>
      by_cases hdc : d = c
      · subst hdc
        simp [donatorLinks, hwc, hnext, hne]
      · by_cases hde : d = e
        · subst hde
          rw [List.getLast?_concat, Function.update_self]
          simp [donatorLinks, hwe]
        · simp [donatorLinks, hdc, hde, hwo d hdc hde]
  · have hvc : v ≠ c := by
      rintro rfl
      rw [hwc] at hv
      cases hv
    have hve : v ≠ e := by
      rintro rfl
      rw [hwe] at hv
      rw [he] at hv
      cases hv
    rw [hwo v hvc hve]
  · have hdc : d ≠ c := fun h => hd (h ▸ by simp)
    have hde : d ≠ e := fun h => hd (h ▸ by simp)
    rw [hwo d hdc hde]

theorem Donations.donateBehind {c e : Nat} {first : SectionThread → Option Nat}
    (hs : s.Donations) (hc : s.Donator c) (hne : c ≠ e)
    (he : (s.threads e).donateTarget = some u) : (s.donateBehind c e u first).Donations := by
  have hu := hs.target e u he
  obtain ⟨ds, hlist⟩ := hs.list hu.donates
  obtain ⟨before, after, rfl⟩ := List.append_of_mem ((hlist.mem e).mpr he)
  have hcu : c ≠ u := fun h => hc.nobody e (h ▸ he)
  have hue : u ≠ e := by
    rintro rfl
    rw [hu.donates] at he
    cases he
  have hlinked : LinkedIn s (s.donateBehind c e u first) u c (before ++ [e]) after :=
    donateBehind_linkedIn hne hcu hue he hlist
  rw [List.append_cons] at hlist
  obtain ⟨-, -, hwo⟩ := donateBehind_threads hne s u first
  refine hs.insert hlinked hlist hc.free hc.nobody ?_ fun v hvu hvc hv => ?_
  · have h := hwo u hcu.symm hue
    exact hu.of_same (by rw [h]) (by rw [h]) (by rw [h]) (by rw [h]) (by rw [h])
  · have hve : v ≠ e := by
      rintro rfl
      rw [hv.donates] at he
      cases he
    have h := hwo v hvc hve
    exact hv.of_same (by rw [h]) (by rw [h]) (by rw [h]) (by rw [h]) (by rw [h])

theorem Owned.donate_behind {c e : Nat} {first : SectionThread → Option Nat} (hs : s.Owned)
    (hc : s.Donator c) (hne : c ≠ e) (he : (s.threads e).donateTarget = some u) :
    (s.donateBehind c e u first).Owned :=
  hs.donate hc hne { hs.thread e with } (fun _ h => h) (hs.donations.donateBehind hc hne he)

theorem Donations.donator {c : Nat} (hs : s.Donations)
    (hfree : (s.threads c).donateTarget = none) (hcount : (s.threads c).msectionCount = 0)
    (hpoint : (s.threads c).point = .running) : s.Donator c := by
  refine ⟨hfree, hcount, hpoint, fun d hd => ?_⟩
  rcases (hs.target d c hd).leaves with hpos | ⟨sec, hleft⟩
  · omega
  · rw [hpoint] at hleft
    cases hleft

theorem Owned.invalidate (hs : s.Owned) : s.invalidate.KernelServed :=
  ⟨(invalidate_steady s).owned hs, nofun⟩

theorem interruptWait_runnable (hstopped : (s.threads u).state ≠ .stopped)
    (h : s.interruptWait u = some t) : (t.threads u).state = .runnable := by
  simp only [interruptWait] at h
  split_ifs at h with hwaiting
  · obtain ⟨r, hr, rfl⟩ := Option.map_eq_some_iff.mp h
    simp only [threadWakeUp] at hr
    split_ifs at hr
    obtain rfl := Option.some.inj hr
    rw [updateThread_threads_self, updateThread_threads_self]
  · obtain rfl := Option.some.inj h
    cases hstate : (s.threads u).state with
    | stopped => exact absurd hstate hstopped
    | waiting => exact absurd hstate hwaiting
    | runnable => rfl

theorem updateThread_updateThread (f g : SectionThread → SectionThread) :
    (s.updateThread u f).updateThread u g = s.updateThread u fun th => g (f th) := by
  simp [updateThread]

theorem threadStop_served {c : Nat} (hs : s.Served) (hc : s.threadCurrent = some c) (hne : c ≠ u)
    (hcount : (s.threads u).msectionCount = 0)
    (hnobody : ∀ d, (s.threads d).donateTarget ≠ some u) (h : s.threadStop u = some t) :
    t.KernelServed := by
  refine ⟨hs.owned.stop hcount hnobody h, fun _ v hv => ?_⟩
  simp only [threadStop] at h
  split_ifs at h
  obtain rfl := Option.some.inj h
  obtain rfl := Option.some.inj (hc.symm.trans hv)
  obtain ⟨htarget, hentering⟩ := hs.current c hc
  exact ⟨by rwa [updateThread_threads_ne hne], by rwa [updateThread_threads_ne hne]⟩

theorem threadStopTarget_served {c : Nat} (hs : s.Served) (hc : s.threadCurrent = some c)
    (hd : s.Donator c) (hne : c ≠ u) (h : s.threadStopTarget c u = some t) :
    t.KernelServed := by
  simp only [threadStopTarget] at h
  by_cases hstopped : (s.threads u).state = .stopped
  · rw [if_pos hstopped] at h
    exact Option.some.inj h ▸ ⟨hs.owned, fun _ => hs.current⟩
  rw [if_neg hstopped] at h
  cases htarget : (s.threads u).donateTarget with
  | some target =>
    simp only [htarget] at h
    exact Option.some.inj h ▸ (hs.owned.donate_behind hd hne htarget).invalidate
  | none =>
    simp only [htarget] at h
    by_cases hfirst : (s.threads u).firstDonator ≠ none
    · rw [if_pos hfirst] at h
      obtain ⟨ds, -, hpath, hmem⟩ := hs.owned.donations.donators u htarget
      have hu : s.Target u := by
        cases ds with
        | nil => exact absurd (LinkedList.path_head hpath) hfirst
        | cons d ds => exact hs.owned.donations.target d u ((hmem d).mp (by simp))
      exact Option.some.inj h ▸ (hs.owned.donate_front hd hne hu).invalidate
    · rw [if_neg hfirst] at h
      have hfirst : (s.threads u).firstDonator = none := not_not.mp hfirst
      have hnobody := hs.owned.donations.nobody htarget hfirst
      by_cases hcount : (s.threads u).msectionCount ≠ 0
      · rw [if_pos hcount] at h
        obtain ⟨r, hr, rfl⟩ := Option.map_eq_some_iff.mp h
        have hsteady := interruptWait_steady hr
        have hthread := hsteady.thread u
        have hkilled : (r.updateThread u fun th => { th with killed := true }).Owned := by
          have hr' := hsteady.owned hs.owned
          refine hr'.updateThread { hr'.thread u with } (hr'.owner · u)
            (hr'.donations.updateThread rfl rfl rfl fun d hd' ht => ?_)
          exact ⟨ht.runnable, rfl, ht.leaves⟩
        have hdonator : (r.updateThread u fun th => { th with killed := true }).Donator c := by
          have hsame := hsteady.thread c
          refine hkilled.donations.donator ?_ ?_ ?_
          all_goals rw [updateThread_threads_ne hne]
          · exact hsame.target.trans hd.free
          · exact hsame.count.trans hd.count
          · exact hsame.point.trans hd.point
        have hu : (r.updateThread u fun th => { th with killed := true }).Target u := by
          refine ⟨?_, ?_, ?_, .inl ?_⟩
          all_goals rw [updateThread_threads_self]
          · exact hthread.target.trans htarget
          · exact interruptWait_runnable hstopped hr
          · exact Nat.pos_of_ne_zero (hthread.count ▸ hcount)
        have howned := hkilled.donate_front hdonator hne hu
        rw [donateFront, updateThread_updateThread, updateThread_threads_self] at howned
        rw [← hfirst, ← hthread.first]
        exact howned.invalidate
      · rw [if_neg hcount] at h
        exact threadStop_served hs hc hne (not_not.mp hcount) hnobody h

/-- What becomes of a donator when its target has stopped. -/
def resumed (th : SectionThread) : SectionThread :=
  if th.firstDonator = none then { th with donateTarget := none, nextDonator := none }
  else { th with
    firstDonator := none, state := .stopped, msectionEntering := none
    donateTarget := none, nextDonator := none }

structure Resumed (ds : List Nat) (t s : SectionSystem) : Prop where
  sections : t.sections = s.sections
  current : t.threadCurrent = s.threadCurrent
  donators : ∀ d ∈ ds, t.threads d = resumed (s.threads d)
  others : ∀ u, u ∉ ds → t.threads u = s.threads u

theorem resumeDonator_resumed {d : Nat} (h : s.resumeDonator d = some t) :
    t.Resumed [d] s := by
  obtain ⟨r, hr, rfl⟩ := Option.map_eq_some_iff.mp h
  by_cases hfirst : (s.threads d).firstDonator = none
  · rw [if_pos hfirst] at hr
    obtain rfl := Option.some.inj hr
    refine ⟨rfl, rfl, fun d' hd' => ?_, fun u hu => ?_⟩
    · obtain rfl := List.mem_singleton.mp hd'
      dsimp only
      rw [updateThread_threads_self, resumed, if_pos hfirst]
    · dsimp only
      rw [updateThread_threads_ne (by simpa using hu)]
  · rw [if_neg hfirst] at hr
    simp only [threadStop] at hr
    split_ifs at hr
    obtain rfl := Option.some.inj hr
    refine ⟨rfl, rfl, fun d' hd' => ?_, fun u hu => ?_⟩
    · obtain rfl := List.mem_singleton.mp hd'
      dsimp only
      rw [updateThread_threads_self, updateThread_threads_self, updateThread_threads_self, resumed,
        if_neg hfirst]
    · have hne : u ≠ d := by simpa using hu
      dsimp only
      rw [updateThread_threads_ne hne, updateThread_threads_ne hne, updateThread_threads_ne hne]

/-- The loop goes through the list of the donators. -/
theorem resumeDonators_resumed {fuel d : Nat} {ds : List Nat}
    (hpath : LinkedList.Path (s.donatorLinks u) (some d) ds none) (hnodup : (d :: ds).Nodup)
    (h : resumeDonators fuel s d = some t) : t.Resumed (d :: ds) s := by
  induction fuel generalizing s d ds with
  | zero => cases h
  | succ fuel ih =>
    obtain ⟨r, hr, hrest⟩ := Option.bind_eq_some_iff.mp h
    have hone := resumeDonator_resumed hr
    cases ds with
    | nil =>
      have hnext : (s.threads d).nextDonator = none := hpath
      simp only [hnext] at hrest
      exact Option.some.inj hrest ▸ hone
    | cons e ds =>
      obtain ⟨hnext, hpath⟩ := hpath
      obtain ⟨hnot, hnodup⟩ := List.nodup_cons.mp hnodup
      have hnext : (s.threads d).nextDonator = some e := hnext
      simp only [hnext] at hrest
      have hkeep : ∀ e' ∈ e :: ds, r.threads e' = s.threads e' := by
        intro e' he'
        refine hone.others e' ?_
        rw [List.mem_singleton]
        rintro rfl
        exact hnot he'
      have hpath' : LinkedList.Path (r.donatorLinks u) (some e) ds none :=
        LinkedList.path_congr hpath (congrArg (·.nextDonator) (hkeep e (by simp)))
          fun e' he' => congrArg (·.nextDonator) (hkeep e' (by simp [he']))
      have hmore := ih hpath' hnodup hrest
      refine ⟨hmore.sections.trans hone.sections, hmore.current.trans hone.current,
        fun d' hd' => ?_, fun v hv => ?_⟩
      · rcases List.mem_cons.mp hd' with rfl | hd'
        · rw [hmore.others d' hnot, hone.donators d' (by simp)]
        · rw [hmore.donators d' hd', hkeep d' hd']
      · simp only [List.mem_cons, not_or] at hv
        rw [hmore.others v (by simp [hv]), hone.others v (by simp [hv])]

/-- The thread `c` has stopped at the end of its section, and its donators go on. -/
structure Released (ds : List Nat) (c : Nat) (t s : SectionSystem) : Prop where
  self : t.threads c = { s.threads c with
    firstDonator := none, state := .stopped, msectionEntering := none }
  donators : ∀ d ∈ ds, t.threads d = resumed (s.threads d)
  others : ∀ v, v ≠ c → v ∉ ds → t.threads v = s.threads v

section Released

variable {c d : Nat} {ds : List Nat}

theorem Resumed.released {r : SectionSystem} (hfree : (s.threads c).donateTarget = none)
    (hlist : s.DonatorList c ds)
    (hstop : (s.updateThread c fun th => { th with firstDonator := none }).threadStop c = some r)
    (h : t.Resumed ds r) : t.Released ds c s := by
  simp only [threadStop] at hstop
  split_ifs at hstop
  obtain rfl := Option.some.inj hstop
  rw [updateThread_updateThread] at h
  have hcnot : c ∉ ds := by
    rw [hlist.mem, hfree]
    simp
  constructor
  · rw [h.others c hcnot, updateThread_threads_self]
  · intro d hd
    rw [h.donators d hd, updateThread_threads_ne (ne_of_mem_of_not_mem hd hcnot)]
  · intro v hvc hv
    rw [h.others v hv, updateThread_threads_ne hvc]

theorem Released.ends (h : t.Released ds c s) (hd : d ∈ ds) :
    (t.threads d).donateTarget = none ∧ (t.threads d).firstDonator = none := by
  rw [h.donators d hd, resumed]
  split_ifs with hfirst
  · exact ⟨rfl, hfirst⟩
  · exact ⟨rfl, rfl⟩

theorem Released.donates (h : t.Released ds c s) (hfree : (s.threads c).donateTarget = none)
    (hd : (t.threads d).donateTarget = some v) :
    d ∉ ds ∧ d ≠ c ∧ (s.threads d).donateTarget = some v := by
  have hds : d ∉ ds := by
    intro hin
    rw [(h.ends hin).1] at hd
    cases hd
  have hdc : d ≠ c := by
    rintro rfl
    rw [h.self] at hd
    rw [hfree] at hd
    cases hd
  exact ⟨hds, hdc, by rwa [h.others d hdc hds] at hd⟩

theorem Released.target (h : t.Released ds c s) (hlist : s.DonatorList c ds) (hv : s.Target v)
    (hvc : v ≠ c) : t.threads v = s.threads v := by
  refine h.others v hvc fun hin => ?_
  have := (hlist.mem v).mp hin
  rw [hv.donates] at this
  cases this

theorem Released.list (h : t.Released ds c s) (hfree : (s.threads c).donateTarget = none)
    (hlist : s.DonatorList c ds) (hvc : v ≠ c) (hvds : v ∉ ds) {es : List Nat}
    (hes : s.DonatorList v es) :
    t.DonatorList v es ∧ ∀ e ∈ es, t.threads e = s.threads e := by
  have hkeep : ∀ e ∈ es, t.threads e = s.threads e := by
    intro e he
    have hev := (hes.mem e).mp he
    refine h.others e ?_ fun hin => ?_
    · rintro rfl
      rw [hfree] at hev
      cases hev
    · rw [(hlist.mem e).mp hin] at hev
      exact hvc (Option.some.inj hev).symm
  refine ⟨⟨hes.nodup, LinkedList.path_congr hes.path
    (congrArg (·.firstDonator) (h.others v hvc hvds))
    fun e he => congrArg (·.nextDonator) (hkeep e he), fun d => ?_⟩, hkeep⟩
  constructor
  · intro hd
    rw [hkeep d hd]
    exact (hes.mem d).mp hd
  · intro hd
    exact (hes.mem d).mpr (h.donates hfree hd).2.2

theorem Released.list_nil (h : t.Released ds c s) (hs : s.Donations)
    (hfree : (s.threads c).donateTarget = none) (hlist : s.DonatorList c ds)
    (hv : v = c ∨ v ∈ ds) : t.DonatorList v [] := by
  refine ⟨.nil, ?_, fun d => iff_of_false (by simp) fun hd => ?_⟩
  · rcases hv with rfl | hin
    · exact congrArg (·.firstDonator) h.self
    · exact (h.ends hin).2
  · obtain ⟨hds, -, hd⟩ := h.donates hfree hd
    rcases hv with rfl | hin
    · exact hds ((hlist.mem d).mpr hd)
    · have := (hlist.mem v).mp hin
      rw [(hs.target d v hd).donates] at this
      cases this

theorem Donations.release (hs : s.Donations) (hfree : (s.threads c).donateTarget = none)
    (hlist : s.DonatorList c ds) (h : t.Released ds c s) : t.Donations := by
  refine ⟨fun v hv => ?_, fun d v hd => ?_⟩
  · by_cases hlast : v = c ∨ v ∈ ds
    · have hnil := h.list_nil hs hfree hlist hlast
      exact ⟨[], hnil.nodup, hnil.path, hnil.mem⟩
    · obtain ⟨hvc, hvds⟩ := not_or.mp hlast
      rw [h.others v hvc hvds] at hv
      obtain ⟨es, hes⟩ := hs.list hv
      have hnew := (h.list hfree hlist hvc hvds hes).1
      exact ⟨es, hnew.nodup, hnew.path, hnew.mem⟩
  · obtain ⟨hds, -, hd⟩ := h.donates hfree hd
    have hv := hs.target d v hd
    have hplain := h.target hlist hv fun he => hds ((hlist.mem d).mpr (he ▸ hd))
    exact hv.of_same (by rw [hplain]) (by rw [hplain]) (by rw [hplain]) (by rw [hplain])
      (by rw [hplain])

theorem Owned.resume (hs : s.Owned) (hfree : (s.threads c).donateTarget = none)
    (hcount : (s.threads c).msectionCount = 0) (hlist : s.DonatorList c ds)
    (hsections : t.sections = s.sections) (h : t.Released ds c s) : t.Owned ∧ t.Free c := by
  refine ⟨⟨fun v => ?_, fun sec v hv => ?_, hs.donations.release hfree hlist h⟩, ?_⟩
  · by_cases hvc : v = c
    · subst hvc
      rw [h.self]
      exact { (hs.thread v).stop hcount with }
    · by_cases hin : v ∈ ds
      · have hcount' := ((hs.thread v).donating (by rw [(hlist.mem v).mp hin]; exact nofun)).1
        rw [h.donators v hin, resumed]
        split_ifs
        · exact { hs.thread v with donating := fun h => absurd rfl h }
        · exact { (hs.thread v).stop hcount' with donating := fun h => absurd rfl h }
      · rw [h.others v hvc hin]
        exact hs.thread v
  · have hown : s.owner sec = some v := by
      rw [SectionSystem.owner, hsections] at hv
      exact hv
    have hclaims := hs.owner sec v hown
    have hpos := hclaims.count_pos (hs.thread v)
    rw [h.others v]
    · exact hclaims
    · rintro rfl
      omega
    · intro hin
      have := (hlist.mem v).mp hin
      rw [hs.owner_donates hown] at this
      cases this
  · exact ⟨by rw [h.self]; exact hfree, by rw [h.self]⟩

end Released

theorem threadStop_path {c d : Nat} {ds : List Nat} {r : SectionSystem}
    (hlist : s.DonatorList c (d :: ds))
    (h : (s.updateThread c fun th => { th with firstDonator := none }).threadStop c = some r) :
    LinkedList.Path (r.donatorLinks c) (some d) ds none := by
  have hnext : ∀ v, (r.threads v).nextDonator = (s.threads v).nextDonator := by
    intro v
    simp only [threadStop] at h
    split_ifs at h
    obtain rfl := Option.some.inj h
    by_cases hvc : v = c
    · subst hvc
      rw [updateThread_threads_self, updateThread_threads_self]
    · rw [updateThread_threads_ne hvc, updateThread_threads_ne hvc]
  exact LinkedList.path_congr hlist.path.2 (hnext d) fun v _ => hnext v

theorem threadStop_sections {r : SectionSystem} {f : SectionThread → SectionThread}
    (h : (s.updateThread u f).threadStop v = some r) : r.sections = s.sections := by
  simp only [threadStop] at h
  split_ifs at h
  exact (Option.some.inj h) ▸ rfl

/-- `jet_resched` leaves the current thread no donators unless it has another section to
leave. -/
theorem resched_owned {c : Nat} (hs : s.Owned) (hc : s.Free c) (h : s.resched c = some t) :
    t.Owned ∧ t.Free c ∧
      ∀ d, (t.threads d).donateTarget = some c → 0 < (t.threads c).msectionCount := by
  have hsteady := checkReleased_steady s
  have howned := hsteady.owned hs
  have hthread := hsteady.thread c
  have hfree := hthread.target.trans hc.donates
  simp only [resched] at h
  cases hfirst : (s.threads c).firstDonator with
  | none =>
    simp only [hfirst] at h
    obtain rfl := Option.some.inj h
    exact ⟨howned, hsteady.free hc, fun d hd => absurd hd
      (howned.donations.nobody hfree (hthread.first.trans hfirst) d)⟩
  | some d =>
    simp only [hfirst] at h
    by_cases hcount : (s.threads c).msectionCount = 0
    · rw [if_pos hcount] at h
      obtain ⟨r, hr, ht⟩ := Option.bind_eq_some_iff.mp h
      obtain ⟨ds, hlist⟩ := howned.donations.list hfree
      have hhead : some d = ds.head? :=
        ((hthread.first.trans hfirst).symm.trans (LinkedList.path_head hlist.path))
      cases ds with
      | nil => cases hhead
      | cons e ds =>
        obtain rfl := Option.some.inj hhead
        have hresumed := resumeDonators_resumed (threadStop_path hlist hr) hlist.nodup ht
        have hreleased := hresumed.released hfree hlist hr
        have hsections : t.sections = s.checkReleased.sections :=
          hresumed.sections.trans (threadStop_sections hr)
        obtain ⟨howned', hfree'⟩ :=
          howned.resume hfree (hthread.count.trans hcount) hlist hsections hreleased
        refine ⟨howned', hfree', fun d' hd' => ?_⟩
        have := (howned'.donations.target d' c hd').runnable
        rw [hreleased.self] at this
        cases this
    · rw [if_neg hcount] at h
      obtain rfl := Option.some.inj h
      exact ⟨howned, hsteady.free hc, fun _ _ =>
        Nat.pos_of_ne_zero (hthread.count ▸ hcount)⟩

end SectionSystem

end Chpok
