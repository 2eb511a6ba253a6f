import Chpok.Kernel.MsectionExclusion
import Chpok.Library.LinkedList

/-! Ownership of msections: whoever owns a section is inside it or on the way into it, and
so is whoever the kernel has recorded as entering it. The scheduler keeps that. -/

namespace Chpok

namespace SectionPoint

/-- The thread is about to add the section to those that it is inside. -/
def Approaches (sec : Nat) : SectionPoint → Prop
  | .counted s | .announced s | .readFree s | .readOther s | .acquired s => s = sec
  | _ => False

/-- How much `msection_count` exceeds the number of the sections that the thread is inside. -/
def surplus : SectionPoint → Nat
  | .counted _ | .announced _ | .readFree _ | .readOther _ | .acquired _ | .left _ => 1
  | .running | .discounted _ | .waiting _ => 0

/-- The thread is in the course of entering the section, or gets it back after a wait. -/
def Enters (sec : Nat) (p : SectionPoint) : Prop := p.Announces sec ∨ p = .waiting sec

theorem Approaches.eq {sec sec' : Nat} {p : SectionPoint} (h : p.Approaches sec)
    (h' : p.Approaches sec') : sec = sec' := by
  cases p <;> first | exact h.symm.trans h' | exact h.elim

theorem Announces.approaches {sec : Nat} {p : SectionPoint} (h : p.Announces sec) :
    p.Approaches sec := by
  cases p <;> first | exact h | exact h.elim

theorem Announces.surplus {sec : Nat} {p : SectionPoint} (h : p.Announces sec) :
    p.surplus = 1 := by
  cases p <;> first | rfl | exact h.elim

end SectionPoint

/-- The fields of a thread agree with the place of its program. -/
structure SectionThread.Orderly (th : SectionThread) : Prop where
  count : th.msectionCount = th.inside.length + th.point.surplus
  nodup : th.inside.Nodup
  fresh : ∀ sec, th.point.Approaches sec → sec ∉ th.inside
  waiting : ∀ sec, th.point = .waiting sec → sec ∈ th.inside
  shared : ∀ sec, th.sharedEntering = some sec → th.point.Announces sec
  entering : ∀ sec, th.msectionEntering = some sec → th.state ≠ .stopped ∧ th.point.Enters sec
  stopped : th.state = .stopped → th.msectionCount = 0
  donating : th.donateTarget ≠ none → th.msectionCount = 0 ∧ th.point = .running

/-- A runnable thread that is inside the section or on the way into it. -/
def SectionThread.Claims (th : SectionThread) (sec : Nat) : Prop :=
  th.state = .runnable ∧ (sec ∈ th.inside ∨ th.point.Announces sec)

namespace SectionThread

variable {th th' : SectionThread} {sec : Nat}

theorem Claims.count_pos (h : th.Claims sec) (hth : th.Orderly) : 0 < th.msectionCount := by
  rw [hth.count]
  rcases h.2 with hin | hp
  · have := List.length_pos_of_mem hin
    omega
  · rw [hp.surplus]
    omega

theorem Orderly.claims (hth : th.Orderly) (hrunnable : th.state = .runnable)
    (h : th.point.Enters sec) : th.Claims sec := by
  rcases h with h | h
  · exact ⟨hrunnable, .inr h⟩
  · exact ⟨hrunnable, .inl (hth.waiting sec h)⟩

theorem Orderly.entering_count_pos (hth : th.Orderly) (h : th.point.Enters sec) :
    0 < th.msectionCount := by
  rw [hth.count]
  rcases h with h | h
  · rw [h.surplus]
    omega
  · have := List.length_pos_of_mem (hth.waiting sec h)
    omega

theorem Orderly.sameWay (hth : th.Orderly) (h : SectionSystem.SameWay th' th) : th'.Orderly := by
  obtain ⟨hpoint, hinside, hcount, hshared, hentering, htarget, -, -, -, -, hstopped⟩ := h
  refine ⟨?_, ?_, ?_, ?_, ?_, ?_, ?_, ?_⟩
  · rw [hcount, hinside, hpoint]
    exact hth.count
  · rw [hinside]
    exact hth.nodup
  · rw [hpoint, hinside]
    exact hth.fresh
  · rw [hpoint, hinside]
    exact hth.waiting
  · rw [hpoint, hshared]
    exact hth.shared
  · rw [hpoint, hentering, ne_eq, hstopped]
    exact hth.entering
  · rw [hstopped, hcount]
    exact hth.stopped
  · rw [htarget, hcount, hpoint]
    exact hth.donating

theorem Claims.sameWay (hth : th.Claims sec) (h : SectionSystem.SameWay th' th) :
    th'.Claims sec := by
  refine ⟨h.runnable hth.1, ?_⟩
  rw [h.inside, h.point]
  exact hth.2

theorem Orderly.stop (hth : th.Orderly) (hcount : th.msectionCount = 0) :
    Orderly { th with state := .stopped, msectionEntering := none } :=
  { hth with entering := nofun, stopped := fun _ => hcount }

theorem orderly_of_running (hpoint : th.point = .running) (hinside : th.inside = [])
    (hcount : th.msectionCount = 0) (hshared : th.sharedEntering = none)
    (hentering : th.msectionEntering = none) : th.Orderly := by
  refine ⟨?_, ?_, ?_, ?_, ?_, ?_, fun _ => hcount, fun _ => ⟨hcount, hpoint⟩⟩
  · rw [hcount, hinside, hpoint]
    rfl
  · rw [hinside]
    exact .nil
  · simp [hinside]
  · simp [hpoint]
  · simp [hshared]
  · simp [hentering]

theorem Orderly.start (hth : th.Orderly) (hstopped : th.state = .stopped)
    (hpoint : th'.point = .running) (hinside : th'.inside = [])
    (hcount : th'.msectionCount = 0 ∨ th'.msectionCount = th.msectionCount)
    (hshared : th'.sharedEntering = none ∨ th'.sharedEntering = th.sharedEntering)
    (hentering : th'.msectionEntering = th.msectionEntering) : th'.Orderly := by
  have hzero := hth.stopped hstopped
  refine orderly_of_running hpoint hinside ?_ ?_ ?_
  · rcases hcount with h | h
    · exact h
    · exact h.trans hzero
  · rcases hshared with h | h
    · exact h
    · rw [h, Option.eq_none_iff_forall_not_mem]
      intro sec hsec
      have := hth.entering_count_pos (.inl (hth.shared sec hsec))
      omega
  · rw [hentering, Option.eq_none_iff_forall_not_mem]
    intro sec hsec
    exact (hth.entering sec hsec).1 hstopped

section Program

variable (hth : th.Orderly) (hcurrent : th.donateTarget = none ∧ th.msectionEntering = none)

include hth hcurrent

theorem Orderly.enter (hpoint : th.point = .running) (hfresh : sec ∉ th.inside)
    (hstate : th.state = .runnable) :
    Orderly { th with msectionCount := th.msectionCount + 1, point := .counted sec } := by
  refine { hth with count := ?_, fresh := ?_, waiting := nofun, shared := ?_, entering := ?_,
                    stopped := ?_, donating := fun h => absurd hcurrent.1 h }
  · have := hth.count
    rw [hpoint] at this
    simpa [SectionPoint.surplus] using this
  · rintro sec' rfl
    exact hfresh
  · intro sec' h
    have := hth.shared sec' h
    rw [hpoint] at this
    exact this.elim
  · intro sec' h
    rw [hcurrent.2] at h
    cases h
  · simp [hstate]

theorem Orderly.approach {p : SectionPoint} {shared : Option Nat}
    (happroach : th.point.Approaches sec) (hp : p.Announces sec)
    (hcount : th.point.surplus = 1) (hshared : shared = some sec ∨ shared = th.sharedEntering) :
    Orderly { th with sharedEntering := shared, point := p } := by
  have hwait : ∀ sec', p ≠ .waiting sec' := by
    rintro sec' rfl
    exact hp
  refine { hth with count := ?_, fresh := ?_, waiting := fun sec' h => absurd h (hwait sec'),
                    shared := ?_, entering := ?_, donating := fun h => absurd hcurrent.1 h }
  · rw [hth.count, hcount, hp.surplus]
  · intro sec' h
    exact (h.eq hp.approaches) ▸ hth.fresh sec happroach
  · intro sec' h
    rcases hshared with rfl | rfl
    · exact Option.some.inj h ▸ hp
    · exact ((hth.shared sec' h).approaches.eq happroach) ▸ hp
  · intro sec' h
    rw [hcurrent.2] at h
    cases h

theorem Orderly.finish (hpoint : th.point = .acquired sec) :
    Orderly { th with sharedEntering := none, point := .running, inside := sec :: th.inside } := by
  have hfresh := hth.fresh sec (by rw [hpoint]; rfl)
  refine { hth with count := ?_, nodup := List.nodup_cons.mpr ⟨hfresh, hth.nodup⟩,
                    fresh := nofun, waiting := nofun, shared := nofun, entering := ?_,
                    donating := fun h => absurd hcurrent.1 h }
  · rw [hth.count, hpoint]
    simp [SectionPoint.surplus]
  · intro sec' h
    rw [hcurrent.2] at h
    cases h

theorem Orderly.leave (hpoint : th.point = .running) (hin : sec ∈ th.inside) :
    Orderly { th with point := .left sec, inside := th.inside.filter (· ≠ sec) } := by
  refine { hth with count := ?_, nodup := hth.nodup.filter _, fresh := nofun, waiting := nofun,
                    shared := ?_, entering := ?_, donating := fun h => absurd hcurrent.1 h }
  · have herase : th.inside.filter (· ≠ sec) = th.inside.erase sec := by
      rw [hth.nodup.erase_eq_filter]
      exact List.filter_congr fun x _ => by by_cases h : x = sec <;> simp [h]
    have hlength := List.length_pos_of_mem hin
    simp only [herase, List.length_erase_of_mem hin, hth.count, hpoint, SectionPoint.surplus]
    omega
  · intro sec' h
    have := hth.shared sec' h
    rw [hpoint] at this
    exact this.elim
  · intro sec' h
    rw [hcurrent.2] at h
    cases h

theorem Orderly.pass {p : SectionPoint} {count : Nat}
    (hpoint : ∀ sec, ¬ th.point.Announces sec) (hcount : count = th.inside.length + p.surplus)
    (hle : count ≤ th.msectionCount) (hp : p = .running ∨ ∃ sec, p = .discounted sec) :
    Orderly { th with msectionCount := count, point := p } := by
  refine { hth with count := hcount, fresh := ?_, waiting := ?_, shared := ?_, entering := ?_,
                    stopped := ?_, donating := fun h => absurd hcurrent.1 h }
  · rcases hp with rfl | ⟨sec, rfl⟩ <;> exact fun _ h => h.elim
  · rcases hp with rfl | ⟨sec, rfl⟩ <;> exact nofun
  · intro sec' h
    exact absurd (hth.shared sec' h) (hpoint sec')
  · intro sec' h
    rw [hcurrent.2] at h
    cases h
  · intro hstopped
    have := hth.stopped hstopped
    change count = 0
    omega

theorem Orderly.giveUp (hpoint : th.point = .running) (hin : sec ∈ th.inside) :
    Orderly { th with waitResult := .cancelled, point := .waiting sec } := by
  refine { hth with count := ?_, fresh := nofun, waiting := ?_, shared := ?_, entering := ?_,
                    donating := fun h => absurd hcurrent.1 h }
  · rw [hth.count, hpoint]
    rfl
  · rintro sec' ⟨⟩
    exact hin
  · intro sec' h
    have := hth.shared sec' h
    rw [hpoint] at this
    exact this.elim
  · intro sec' h
    rw [hcurrent.2] at h
    cases h

theorem Orderly.wait (hpoint : th.point = .running) (hin : sec ∈ th.inside) :
    Orderly { th with msectionEntering := some sec, state := .waiting, point := .waiting sec } := by
  refine { (hth.giveUp hcurrent hpoint hin) with entering := ?_, stopped := nofun }
  rintro sec' ⟨⟩
  exact ⟨nofun, .inr rfl⟩

end Program

theorem Orderly.record (hth : th.Orderly) (halive : th.state ≠ .stopped)
    (hp : th.point.Announces sec) : Orderly { th with msectionEntering := some sec } := by
  refine { hth with entering := ?_ }
  rintro sec' ⟨⟩
  exact ⟨halive, .inl hp⟩

end SectionThread

namespace SectionSystem

variable {s t : SectionSystem} {u v sec : Nat}

/-- The links of the donators of a thread, which starts the list. -/
def donatorLinks (s : SectionSystem) (u : Nat) : Option Nat → Option Nat
  | none => (s.threads u).firstDonator
  | some d => (s.threads d).nextDonator

/-- Whom others wait for: a thread that is to be stopped and comes to the end of its section. -/
structure Target (s : SectionSystem) (u : Nat) : Prop where
  donates : (s.threads u).donateTarget = none
  runnable : (s.threads u).state = .runnable
  killed : (s.threads u).killed = true
  leaves : 0 < (s.threads u).msectionCount ∨ ∃ sec, (s.threads u).point = .discounted sec

/-- The list of the donators of a thread is that of the threads which donate to it. -/
structure Donations (s : SectionSystem) : Prop where
  donators : ∀ u, (s.threads u).donateTarget = none → ∃ ds : List Nat, ds.Nodup ∧
    LinkedList.Path (s.donatorLinks u) none ds none ∧
    ∀ d, d ∈ ds ↔ (s.threads d).donateTarget = some u
  target : ∀ d u, (s.threads d).donateTarget = some u → s.Target u

structure Owned (s : SectionSystem) : Prop where
  thread : ∀ u, (s.threads u).Orderly
  owner : ∀ sec u, s.owner sec = some u → (s.threads u).Claims sec
  donations : s.Donations

/-- The thread may be executed: it enters nothing and gives its time to nobody. -/
structure Free (s : SectionSystem) (u : Nat) : Prop where
  donates : (s.threads u).donateTarget = none
  entering : (s.threads u).msectionEntering = none

/-- What holds outside the kernel, ... -/
structure Served (s : SectionSystem) : Prop where
  owned : s.Owned
  current : ∀ u, s.threadCurrent = some u → s.Free u

/-- ... and inside it, up to the decision of the scheduler. -/
structure KernelServed (s : SectionSystem) : Prop where
  owned : s.Owned
  current : s.recheckNeeded = false → ∀ u, s.threadCurrent = some u → s.Free u

theorem Donations.of_same (hs : s.Donations)
    (htarget : ∀ u, (t.threads u).donateTarget = (s.threads u).donateTarget)
    (hfirst : ∀ u, (t.threads u).firstDonator = (s.threads u).firstDonator)
    (hnext : ∀ u, (t.threads u).nextDonator = (s.threads u).nextDonator)
    (hkeep : ∀ d u, (s.threads d).donateTarget = some u → s.Target u →
      (t.threads u).state = .runnable ∧ (t.threads u).killed = true ∧
      (0 < (t.threads u).msectionCount ∨ ∃ sec, (t.threads u).point = .discounted sec)) :
    t.Donations := by
  refine ⟨fun u hu => ?_, fun d u hd => ?_⟩
  · rw [htarget] at hu
    obtain ⟨ds, hnodup, hpath, hmem⟩ := hs.donators u hu
    refine ⟨ds, hnodup, ?_, fun d => ?_⟩
    · exact LinkedList.path_congr hpath (hfirst u) fun d _ => hnext d
    · rw [htarget]
      exact hmem d
  · rw [htarget] at hd
    have ht := hs.target d u hd
    obtain ⟨hrunnable, hkilled, hleaves⟩ := hkeep d u hd ht
    exact ⟨(htarget u).trans ht.donates, hrunnable, hkilled, hleaves⟩

theorem Steady.donations (h : t.Steady s) (hs : s.Donations) : t.Donations := by
  refine hs.of_same (fun u => (h.thread u).target) (fun u => (h.thread u).first)
    (fun u => (h.thread u).next) fun d u _ ht => ⟨(h.thread u).runnable ht.runnable, ?_, ?_⟩
  · rw [(h.thread u).killed]
    exact ht.killed
  · rw [(h.thread u).count, (h.thread u).point]
    exact ht.leaves

theorem Steady.owned (h : t.Steady s) (hs : s.Owned) : t.Owned := by
  refine ⟨fun u => (hs.thread u).sameWay (h.thread u), fun sec u hu => ?_,
    h.donations hs.donations⟩
  rw [h.owner] at hu
  exact (hs.owner sec u hu).sameWay (h.thread u)

theorem Steady.free (h : t.Steady s) (hs : s.Free u) : t.Free u :=
  ⟨(h.thread u).target.trans hs.donates, (h.thread u).entering.trans hs.entering⟩

theorem Steady.kernelServed (h : t.Steady s) (hs : s.KernelServed) : t.KernelServed := by
  refine ⟨h.owned hs.owned, fun hr u hu => ?_⟩
  have hr' : s.recheckNeeded = false := by
    by_contra hne
    rw [h.recheck (by simpa using hne)] at hr
    cases hr
  exact h.free (hs.current hr' u (h.current ▸ hu))

theorem Donations.updateThread (hs : s.Donations) {f : SectionThread → SectionThread}
    (htarget : (f (s.threads u)).donateTarget = (s.threads u).donateTarget)
    (hfirst : (f (s.threads u)).firstDonator = (s.threads u).firstDonator)
    (hnext : (f (s.threads u)).nextDonator = (s.threads u).nextDonator)
    (hkeep : ∀ d, (s.threads d).donateTarget = some u → s.Target u →
      (f (s.threads u)).state = .runnable ∧ (f (s.threads u)).killed = true ∧
      (0 < (f (s.threads u)).msectionCount ∨
        ∃ sec, (f (s.threads u)).point = .discounted sec)) :
    (s.updateThread u f).Donations := by
  refine hs.of_same (fun v => ?_) (fun v => ?_) (fun v => ?_) fun d v hd ht => ?_
  all_goals by_cases hne : v = u
  · subst hne
    rwa [updateThread_threads_self]
  · rw [updateThread_threads_ne hne]
  · subst hne
    rwa [updateThread_threads_self]
  · rw [updateThread_threads_ne hne]
  · subst hne
    rwa [updateThread_threads_self]
  · rw [updateThread_threads_ne hne]
  · subst hne
    rw [updateThread_threads_self]
    exact hkeep d hd ht
  · rw [updateThread_threads_ne hne]
    exact ⟨ht.runnable, ht.killed, ht.leaves⟩

theorem Owned.updateThread (hs : s.Owned) {f : SectionThread → SectionThread}
    (hthread : (f (s.threads u)).Orderly)
    (howner : ∀ sec, s.owner sec = some u → (f (s.threads u)).Claims sec)
    (hdonations : (s.updateThread u f).Donations) : (s.updateThread u f).Owned := by
  refine ⟨fun v => ?_, fun sec v hv => ?_, hdonations⟩
  · by_cases hne : v = u
    · subst hne
      rwa [updateThread_threads_self]
    · rw [updateThread_threads_ne hne]
      exact hs.thread v
  · by_cases hne : v = u
    · subst hne
      rw [updateThread_threads_self]
      exact howner sec hv
    · rw [updateThread_threads_ne hne]
      exact hs.owner sec v hv

theorem Owned.congr (hs : s.Owned) (hthreads : t.threads = s.threads)
    (hsections : t.sections = s.sections) : t.Owned := by
  refine ⟨fun u => hthreads ▸ hs.thread u, fun sec u hu => ?_, ?_⟩
  · rw [hthreads]
    exact hs.owner sec u (by rwa [SectionSystem.owner, hsections] at hu)
  · refine hs.donations.of_same ?_ ?_ ?_ fun d u _ ht => ?_
    all_goals rw [hthreads]
    · exact fun _ => rfl
    · exact fun _ => rfl
    · exact fun _ => rfl
    · exact ⟨ht.runnable, ht.killed, ht.leaves⟩

theorem Owned.start (hs : s.Owned) (hstopped : (s.threads u).state = .stopped)
    {f : SectionThread → SectionThread} (hthread : (f (s.threads u)).Orderly)
    (htarget : (f (s.threads u)).donateTarget = (s.threads u).donateTarget)
    (hfirst : (f (s.threads u)).firstDonator = (s.threads u).firstDonator)
    (hnext : (f (s.threads u)).nextDonator = (s.threads u).nextDonator) :
    (s.updateThread u f).Owned := by
  refine hs.updateThread hthread (fun sec hown => ?_)
    (hs.donations.updateThread htarget hfirst hnext fun d _ ht => ?_)
  · have := (hs.owner sec u hown).1
    rw [hstopped] at this
    cases this
  · have := ht.runnable
    rw [hstopped] at this
    cases this

theorem Owned.grant (hs : s.Owned) (hrunnable : (s.threads u).state = .runnable)
    (hentering : (s.threads u).msectionEntering = some sec) : (s.grant u sec).Owned := by
  have henters := ((hs.thread u).entering sec hentering).2
  have hclear : (s.updateThread u fun th => { th with msectionEntering := none }).Owned := by
    refine hs.updateThread { hs.thread u with entering := nofun } (hs.owner · u)
      (hs.donations.updateThread rfl rfl rfl fun d _ ht => ?_)
    exact ⟨ht.runnable, ht.killed, ht.leaves⟩
  refine ⟨hclear.thread, fun sec' v hv => ?_,
    ⟨hclear.donations.donators, fun d v hd => ?_⟩⟩
  · by_cases hsec : sec' = sec
    · subst hsec
      obtain rfl : u = v := Option.some.inj (grant_owner_self.symm.trans hv)
      rw [grant_threads_self]
      exact (hs.thread u).claims hrunnable henters
    · refine hclear.owner sec' v ?_
      rwa [SectionSystem.grant, updateThread_owner, updateSection_owner_ne hsec] at hv
  · obtain ⟨h₁, h₂, h₃, h₄⟩ := hclear.donations.target d v hd
    exact ⟨h₁, h₂, h₃, h₄⟩

theorem Owned.owner_donates (hs : s.Owned) (howner : s.owner sec = some u) :
    (s.threads u).donateTarget = none := by
  have hpos := (hs.owner sec u howner).count_pos (hs.thread u)
  by_contra hdonates
  have := ((hs.thread u).donating hdonates).1
  omega

theorem selectThread_served {selected : Option Nat} {r : SectionSystem × Option Nat}
    (hs : s.Owned) (hrunnable : ∀ u, selected = some u → (s.threads u).state = .runnable)
    (h : s.selectThread selected = some r) : r.1.Owned ∧ ∀ n, r.2 = some n → r.1.Free n := by
  have hselected : ∀ u, selected = some u →
      (s.threads ((s.threads u).donateTarget.getD u)).donateTarget = none ∧
      (s.threads ((s.threads u).donateTarget.getD u)).state = .runnable := by
    intro u hu
    cases htarget : (s.threads u).donateTarget with
    | none => exact ⟨htarget, hrunnable u hu⟩
    | some target =>
      have ht := hs.donations.target u target htarget
      exact ⟨ht.donates, ht.runnable⟩
  obtain ⟨hr, hn⟩ := selectThread_rule (P := Owned)
    (Q := fun s u => (s.threads u).donateTarget = none ∧ (s.threads u).state = .runnable)
    Steady.owned
    (fun hsteady hq => ⟨(hsteady.thread _).target.trans hq.1, (hsteady.thread _).runnable hq.2⟩)
    (fun hs hq hentering _ => ⟨hs.grant hq.2 hentering, by rw [grant_threads_self]; exact hq⟩)
    (fun hs howner hrun => ⟨hs.owner_donates howner, hrun⟩) hs hselected h
  exact ⟨hr, fun n h => ⟨(hn n h).1.1, (hn n h).2⟩⟩

theorem schedRule_owned {choice : SchedChoice} {r : SectionSystem × Option Nat}
    (hs : s.Owned) (h : s.schedRule choice = some r) :
    r.1.Owned ∧ ∀ u, r.2 = some u → (r.1.threads u).state = .runnable := by
  cases choice with
  | idle =>
    obtain rfl := Option.some.inj h
    exact ⟨hs, nofun⟩
  | «continue» u =>
    simp only [schedRule] at h
    split_ifs at h with hrunnable
    obtain rfl := Option.some.inj h
    refine ⟨hs, fun v hv => ?_⟩
    obtain rfl := Option.some.inj hv
    exact hrunnable
  | startError =>
    simp only [schedRule] at h
    split at h
    · cases h
    · split_ifs at h with hstopped
      obtain rfl := Option.some.inj h
      refine ⟨?_, fun v hv => ?_⟩
      · exact hs.start (f := fun th => { resetContext th with state := .runnable }) hstopped
          ((hs.thread _).start hstopped rfl rfl (.inr rfl) (.inr rfl) rfl) rfl rfl rfl
      · obtain rfl := Option.some.inj hv
        rw [updateThread_threads_self]

theorem switchTo_served {new : Option Nat} (hs : s.Owned) (hnew : ∀ n, new = some n → s.Free n)
    (h : s.switchTo new = some t) : t.Served := by
  cases new with
  | none =>
    obtain rfl := Option.some.inj h
    exact ⟨hs.congr rfl rfl, nofun⟩
  | some n =>
    simp only [switchTo] at h
    split_ifs at h
    obtain rfl := Option.some.inj h
    have hsteady := hasContext_steady s n
    refine ⟨(hsteady.owned hs).congr rfl rfl, fun u hu => ?_⟩
    obtain rfl := Option.some.inj hu
    exact { hsteady.free (hnew n rfl) with }

theorem schedArinc_served {choice : SchedChoice} (hs : s.KernelServed)
    (h : s.schedArinc choice = some t) : t.Served := by
  simp only [schedArinc] at h
  by_cases hr : s.recheckNeeded = true
  · rw [if_pos hr] at h
    obtain ⟨r, hrule, hsel⟩ := Option.bind_eq_some_iff.mp h
    obtain ⟨n, hn, hsw⟩ := Option.bind_eq_some_iff.mp hsel
    have hstart : Owned { s with recheckNeeded := false } := hs.owned.congr rfl rfl
    obtain ⟨howned, hrunnable⟩ := schedRule_owned hstart hrule
    obtain ⟨howned', hfree⟩ := selectThread_served howned hrunnable hn
    exact switchTo_served howned' hfree hsw
  · rw [if_neg hr] at h
    obtain rfl := Option.some.inj h
    exact ⟨hs.owned, hs.current (by simpa using hr)⟩

theorem exitKernel_served {e : KernelExit} (hs : s.KernelServed)
    (h : s.exitKernel e = some t) : t.Served := by
  obtain ⟨r, hr, ht⟩ := Option.bind_eq_some_iff.mp h
  have hsteady := (recheck_steady r e.invalidate).trans (wakeAll_steady hr)
  exact schedArinc_served (hsteady.kernelServed hs) ht

end SectionSystem

end Chpok
