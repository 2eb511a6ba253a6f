import Chpok.Kernel.PeriodicRelease
import Chpok.Kernel.ArincExits
import Chpok.Library.Run
import Mathlib.Tactic.Ring

/-! The release points of a periodic process over the runs of its partition. After a start in
an `INIT` mode `next_activation` is the current release point when the process is released,
after a start in the `NORMAL` mode it is the next one already, and PERIODIC_WAIT adds a period
to it in both cases. -/

namespace Chpok

open Outcome SignedWord

/-- How a thread has been started, its first release point, and the PERIODIC_WAITs that it has
done since. -/
inductive ReleaseHistory where
  | unreleased
  | delayed (delay : Int)
  | released (inInit : Bool) (first : Int) (waits : Nat)
  deriving DecidableEq, Repr

/-- The history of `t` after a call of `c` that succeeds, if the call sets a release of `t` -/
def ReleaseHistory.afterCall (t : Nat) (p : ArincPartition) (c : Nat) (h : ReleaseHistory) :
    ArincCall → Option ReleaseHistory
  | .delayedStart id delay _ start =>
    if id = t then
      some (if p.mode = .normal then .released false (start + delay) 0 else .delayed delay)
    else none
  | .setMode .normal _ start =>
    match h with
    | .delayed delay => some (.released true (start + delay) 0)
    | _ => none
  | .endPeriod =>
    match h with
    | .released inInit first waits =>
      if c = t then some (.released inInit first (waits + 1)) else none
    | _ => none
  | _ => none

def ReleaseHistory.afterInput (hm : PartitionHm) (t : Nat) (p : ArincPartition)
    (h : ReleaseHistory) (e : ArincInput) : ReleaseHistory :=
  match e, p.threadCurrent with
  | .call call _, some c =>
    match p.call hm c call with
    | .ok (_, .ok) => (h.afterCall t p c call).getD h
    | _ => h
  | _, _ => h

/-- A thread that stops has no release any more. -/
def ReleaseHistory.next (hm : PartitionHm) (t : Nat) (p : ArincPartition) (h : ReleaseHistory)
    (q : ArincPartition) (e : ArincInput) : ReleaseHistory :=
  if (q.threads t).state = .stopped then .unreleased else h.afterInput hm t p e

/-- The release point that the last call has set, for a process of the given period -/
def ReleaseHistory.activation (period : Int) : ReleaseHistory → Option Int
  | .released inInit first waits =>
    some (first + (waits + if inInit ∨ waits = 0 then 0 else 1) * period)
  | _ => none

/-- The mode is switched when the release point has passed already. -/
def ArincCall.Passes (release : Int) : ArincCall → Prop
  | .setMode _ now _ => release ≤ now
  | _ => False

namespace ArincPartition

variable {p q r : ArincPartition} {t u c : Nat} {hm : PartitionHm} {hist : ReleaseHistory}

/-- One step, with the history of the thread `t` -/
def releaseStep (hm : PartitionHm) (t : Nat) (s : ArincPartition × ReleaseHistory)
    (e : ArincInput) : Option (ArincPartition × ReleaseHistory) :=
  match s.1.run hm e with
  | .ok q => some (q, s.2.next hm t s.1 q e)
  | .error _ => (s.1.step hm e).map (·, .unreleased)

/-- What the history says of the thread. The activation that follows the current one is known
already if the thread has been started in the `NORMAL` mode. It is stored in 64 bits. -/
def Follows (p : ArincPartition) (t : Nat) : ReleaseHistory → Prop
  | .unreleased => True
  | .delayed delay => p.mode ≠ .normal ∧ 0 < t ∧ t < p.nthreadsUsed ∧ (p.sched t).delayedTime = delay
  | .released inInit first waits => p.mode = .normal ∧ t < p.nthreadsUsed ∧
    (timeIsInfinity (p.sched t).period = false → (p.sched t).nextActivation =
      (first + (waits + if inInit then 0 else 1) * (p.sched t).period) % 2 ^ 64)

/-- The attributes of a thread are those that are allowed, and the history holds. -/
structure Planned (p : ArincPartition) (t : Nat) (hist : ReleaseHistory) : Prop where
  period : t < p.nthreadsUsed → (p.sched t).period ≠ 0
  capacity : t < p.nthreadsUsed → timeIsInfinity (p.sched t).period = false →
    timeIsInfinity (p.sched t).timeCapacity = false
  ordered : p.OrderedEvents
  follows : p.Follows t hist

/-- Nothing changes that the plan of the thread `t` depends on. -/
structure TimesKept (t : Nat) (p q : ArincPartition) : Prop where
  mode : q.mode = p.mode
  used : q.nthreadsUsed = p.nthreadsUsed
  times : (q.sched t).times = (p.sched t).times
  ordered : p.OrderedEvents → q.OrderedEvents

theorem TimesKept.refl (t : Nat) (p : ArincPartition) : TimesKept t p p :=
  ⟨rfl, rfl, rfl, fun h => h⟩

theorem TimesKept.trans (h : TimesKept t p q) (h' : TimesKept t q r) : TimesKept t p r where
  mode := h'.mode.trans h.mode
  used := h'.used.trans h.used
  times := h'.times.trans h.times
  ordered hp := h'.ordered (h.ordered hp)

theorem KeepsFrame.timesKept {armed : Nat → Prop} (h : KeepsFrame armed p q) (ht : ¬ armed t) :
    TimesKept t p q :=
  ⟨h.mode, h.used, h.times t ht, h.ordered⟩

theorem Planned.kept (h : Planned p t hist) (hk : TimesKept t p q) : Planned q t hist := by
  obtain ⟨hperiod, hcapacity, hdelayed, hnext⟩ := SchedThread.times_eq_iff.mp hk.times
  refine ⟨?_, ?_, hk.ordered h.ordered, ?_⟩
  · rw [hk.used, hperiod]
    exact h.period
  · rw [hk.used, hperiod, hcapacity]
    exact h.capacity
  · have hfollows := h.follows
    cases hist with
    | unreleased => trivial
    | delayed => simpa only [Follows, hk.mode, hk.used, hdelayed] using hfollows
    | released => simpa only [Follows, hk.mode, hk.used, hperiod, hnext] using hfollows

theorem Planned.set {hist' : ReleaseHistory} (h : Planned p t hist)
    (hk : KeepsFrame (fun _ => True) p q) (hfollows : q.Follows t hist') : Planned q t hist' := by
  obtain ⟨hperiod, hcapacity⟩ := Prod.mk.inj (hk.attr t)
  refine ⟨?_, ?_, hk.ordered h.ordered, hfollows⟩
  · rw [hk.used, hperiod]
    exact h.period
  · rw [hk.used, hperiod, hcapacity]
    exact h.capacity

theorem Planned.attr (h : Planned p t hist) (hlt : t < p.nthreadsUsed)
    (hperiod : timeIsInfinity (p.sched t).period = false) : PeriodicAttr p t :=
  ⟨hperiod, h.capacity hlt hperiod⟩

/-! The calls that set a release -/

theorem returning_errno {errno : PokErrno} {m : Except PartitionExit ArincPartition} :
    Sat (fun _ => True) (fun r => r.2 = errno ∨ r.1 = p) (returning errno m) := by
  cases m with
  | error e => trivial
  | ok r => exact Or.inl rfl

theorem pokThreadDelayedStart_refused {id : Nat} {delay now start : Int} :
    Sat (fun _ => True) (fun r => r.2 = .ok ∨ r.1 = p)
      (p.pokThreadDelayedStart id delay now start) := by
  refine Sat.ite (fun _ => ?_) fun _ => Or.inr rfl
  refine Sat.ite (fun _ => Or.inr rfl) fun _ => Sat.ite (fun _ => trivial) fun _ =>
    Sat.ite (fun _ => Or.inr rfl) fun _ => Sat.ite (fun _ => Or.inr rfl) fun _ =>
      Sat.ite (fun _ => Or.inl rfl) fun _ => returning_errno

theorem pokSchedEndPeriod_refused :
    Sat (fun _ => True) (fun r => r.2 = .ok ∨ r.1 = p) (p.pokSchedEndPeriod c) := by
  refine Sat.ite (fun _ => Or.inr rfl) fun _ => Sat.bind_of_forall fun allowed => ?_
  exact Sat.ite (fun _ => Or.inr rfl) fun _ => returning_errno

theorem pokThreadDelayedStart_started {id : Nat} {delay now start : Int}
    (h : p.pokThreadDelayedStart id delay now start = .ok (q, .ok)) : p.HasThread id ∧
      (p.threads id).state = .stopped ∧
        p.threadDelayedStartInternal id delay now start = .ok (q, .ok) := by
  unfold pokThreadDelayedStart withThread at h
  by_cases hid : p.HasThread id
  · rw [if_pos hid] at h
    dsimp only at h
    by_cases hdelay : timeIsInfinity delay = true
    · rw [if_pos hdelay] at h
      cases h
    · rw [if_neg hdelay] at h
      refine ⟨hid, ?_, h⟩
      by_contra hstopped
      unfold threadDelayedStartInternal at h
      rw [if_neg hdelay, if_pos hstopped] at h
      cases h
  · rw [if_neg hid] at h
    cases h

theorem pokThreadDelayedStart_failed {id : Nat} {delay now start : Int} {exit : PartitionExit}
    (h : p.pokThreadDelayedStart id delay now start = .error exit) : p.HasThread id ∧
      p.threadDelayedStartInternal id delay now start = .error exit := by
  unfold pokThreadDelayedStart withThread at h
  by_cases hid : p.HasThread id
  · rw [if_pos hid] at h
    dsimp only at h
    split_ifs at h
    exact ⟨hid, h⟩
  · rw [if_neg hid] at h
    cases h

theorem threadDelayedStartInternal_delayed {delay now start : Int} (hmode : p.mode ≠ .normal)
    (h : p.threadDelayedStartInternal t delay now start = .ok (q, .ok)) :
    (q.sched t).delayedTime = delay := by
  unfold threadDelayedStartInternal at h
  split_ifs at h with hinfinite hstopped hperiod
  · cases h
  · cases h
  · obtain ⟨rfl, -⟩ := Prod.mk.inj (Except.ok.inj h)
    simp [setState, updateThread, onSections]

theorem pokThreadDelayedStart_planned {delay now start : Int} {errno : PokErrno}
    (h : Planned p t hist) (hcall : p.pokThreadDelayedStart t delay now start = .ok (q, errno)) :
    Planned q t (if errno = .ok then
      if p.mode = .normal then .released false (start + delay) 0 else .delayed delay else hist) := by
  have hkeeps : Keeps (fun _ => True) p q :=
    (pokThreadDelayedStart_keeps fun _ => trivial).of_ok hcall
  by_cases herrno : errno = .ok
  · subst herrno
    obtain ⟨hthread, -, hstarted⟩ := pokThreadDelayedStart_started hcall
    have hlt : t < p.nthreadsUsed := hthread.2.1
    rw [if_pos rfl]
    apply h.set hkeeps.choice.toKeepsFrame
    by_cases hmode : p.mode = .normal
    · rw [if_pos hmode]
      refine ⟨hkeeps.choice.mode.trans hmode, hkeeps.choice.used.symm ▸ hlt, fun hperiod => ?_⟩
      have hperiod' : timeIsInfinity (p.sched t).period = false :=
        (Prod.mk.inj (hkeeps.choice.attr t)).1 ▸ hperiod
      obtain ⟨hreleased, -⟩ :=
        threadDelayedStartInternal_released (h.attr hlt hperiod') hmode hstarted
      rw [hreleased.next, hreleased.period, SignedWord.add, SignedWord.add,
        SignedWord.wrap_wrap_add, SignedWord.wrap_emod]
      simp
    · rw [if_neg hmode]
      exact ⟨hkeeps.choice.mode.symm ▸ hmode, hthread.1, hkeeps.choice.used.symm ▸ hlt,
        threadDelayedStartInternal_delayed hmode hstarted⟩
  · rw [if_neg herrno]
    obtain rfl : q = p := (pokThreadDelayedStart_refused.of_ok hcall).resolve_left herrno
    exact h

theorem pokSchedEndPeriod_planned {errno : PokErrno} (h : Planned p t hist)
    (hcall : p.pokSchedEndPeriod t = .ok (q, errno)) :
    Planned q t (if errno = .ok then (hist.afterCall t p t .endPeriod).getD hist else hist) := by
  have hkeeps : Keeps (fun _ => True) p q := (pokSchedEndPeriod_keeps fun _ => trivial).of_ok hcall
  by_cases herrno : errno = .ok
  · subst herrno
    rw [if_pos rfl]
    obtain ⟨hperiod, r, hr, -⟩ := pokSchedEndPeriod_waited rfl hcall
    have hmode : p.mode = .normal := threadWaitTimed_normal (p := p.updateSched t _) hr
    obtain ⟨hreleased, -⟩ := pokSchedEndPeriod_released rfl hcall
    apply h.set hkeeps.choice.toKeepsFrame
    have hfollows := h.follows
    cases hist with
    | unreleased => trivial
    | delayed => exact absurd hmode hfollows.1
    | released inInit first waits =>
      obtain ⟨-, hlt, hnext⟩ := hfollows
      have hafter : ((ReleaseHistory.released inInit first waits).afterCall t p t .endPeriod) =
          some (.released inInit first (waits + 1)) := if_pos rfl
      rw [hafter]
      refine ⟨hkeeps.choice.mode.trans hmode, hkeeps.choice.used.symm ▸ hlt, fun _ => ?_⟩
      rw [hreleased.next, hreleased.period, hnext hperiod, SignedWord.add,
        SignedWord.wrap_emod_add, SignedWord.wrap_emod]
      congr 1
      push_cast
      ring
  · rw [if_neg herrno]
    obtain rfl : q = p := (pokSchedEndPeriod_refused.of_ok hcall).resolve_left herrno
    exact h

/-- The switch to the `NORMAL` mode -/
theorem partitionSetMode_planned {mode : PartitionMode} {now start : Int} {errno : PokErrno}
    (h : Planned p t hist) (hstarted : hist ≠ .unreleased → (p.threads t).state ≠ .stopped)
    (hcall : p.partitionSetMode mode now start = .ok (q, errno)) :
    Planned q t (if errno = .ok then (hist.afterCall t p c (.setMode mode now start)).getD hist
      else hist) := by
  have hreset : ∀ m, returning .ok (p.partitionReset m) ≠ .ok (q, errno) := by
    intro m hr
    unfold partitionReset at hr
    split_ifs at hr
    · cases hr
    · cases hr
  cases mode with
  | initCold => exact absurd hcall (hreset _)
  | initWarm =>
    unfold partitionSetMode at hcall
    dsimp only at hcall
    split_ifs at hcall
    · obtain ⟨rfl, rfl⟩ := Prod.mk.inj (Except.ok.inj hcall)
      exact h
    · exact absurd hcall (hreset _)
  | idle => cases hcall
  | normal =>
    unfold partitionSetMode at hcall
    dsimp only at hcall
    split_ifs at hcall with hmode
    · obtain ⟨rfl, rfl⟩ := Prod.mk.inj (Except.ok.inj hcall)
      exact h
    · have hrelease := ok_of_returning hcall
      obtain rfl : errno = .ok := by
        rw [hrelease] at hcall
        exact (Prod.mk.inj (Except.ok.inj hcall)).2.symm
      rw [if_pos rfl]
      have hkeeps : Keeps (fun _ => True) { p with mode := .normal, lockLevel := 0 }.localInvalidate q :=
        (releaseThreads_keeps fun _ => trivial).of_ok hrelease
      have hframe := hkeeps.choice.toKeepsFrame
      obtain ⟨hperiod, hcapacity⟩ := Prod.mk.inj (hframe.attr t)
      have hfollows := h.follows
      refine ⟨?_, ?_, hframe.ordered h.ordered, ?_⟩
      · rw [hframe.used, hperiod]
        exact h.period
      · rw [hframe.used, hperiod, hcapacity]
        exact h.capacity
      · cases hist with
        | unreleased => trivial
        | delayed delay =>
          obtain ⟨-, hpos, hlt, hdelay⟩ := hfollows
          refine ⟨hframe.mode, hframe.used.symm ▸ hlt, fun hinfinite => ?_⟩
          have hstopped : (p.threads t).state ≠ .stopped := hstarted (by simp)
          have hattr : PeriodicAttr { p with mode := .normal, lockLevel := 0 }.localInvalidate t :=
            (h.attr hlt (hperiod ▸ hinfinite)).of_eq rfl rfl
          have hmem : t ∈ List.range' 1 (p.nthreadsUsed - 1) := by
            rw [List.mem_range'_1]
            omega
          obtain ⟨hreleased, -⟩ :=
            releaseThreads_released List.nodup_range' hmem hattr hstopped hrelease
          have hdelay' : ({ p with mode := .normal, lockLevel := 0 }.localInvalidate.sched
            t).delayedTime = delay := hdelay
          rw [hreleased.next, hdelay', SignedWord.add, SignedWord.wrap_emod]
          simp
        | released => exact absurd hfollows.1 hmode

/-! The calls that create threads, and all calls together -/

theorem attrErrno_sound {attr : ThreadAttr} (h : attrErrno attr = none) :
    attr.period ≠ 0 ∧ (timeIsInfinity attr.period = false → timeIsInfinity attr.timeCapacity = false) := by
  unfold attrErrno at h
  split_ifs at h with _ hperiod _ hcapacity _
  refine ⟨hperiod, fun hfinite => ?_⟩
  simpa [hfinite] using hcapacity

theorem Planned.fill {sched : Nat → SchedThread} (h : Planned p t hist)
    (hsched : ∀ u, u ≠ p.nthreadsUsed → (sched u).times = (p.sched u).times) :
    Planned { p with sched } t hist := by
  by_cases ht : t = p.nthreadsUsed
  · subst ht
    refine ⟨fun hlt => absurd hlt (Nat.lt_irrefl _), fun hlt => absurd hlt (Nat.lt_irrefl _),
      h.ordered, ?_⟩
    have hfollows := h.follows
    cases hist with
    | unreleased => trivial
    | delayed => exact absurd hfollows.2.2.1 (Nat.lt_irrefl _)
    | released => exact absurd hfollows.2.1 (Nat.lt_irrefl _)
  · exact h.kept ⟨rfl, rfl, hsched t ht, fun ho => ho⟩

/-- A thread is added. -/
theorem Planned.create (h : Planned p t hist) (hmode : q.mode = p.mode)
    (hused : q.nthreadsUsed = p.nthreadsUsed + 1) (hevents : q.delayedEvents = p.delayedEvents)
    (hsched : ∀ u, u ≠ p.nthreadsUsed → (q.sched u).times = (p.sched u).times)
    (hperiod : (q.sched p.nthreadsUsed).period ≠ 0)
    (hcapacity : timeIsInfinity (q.sched p.nthreadsUsed).period = false →
      timeIsInfinity (q.sched p.nthreadsUsed).timeCapacity = false) : Planned q t hist := by
  have hordered : q.OrderedEvents := by
    unfold OrderedEvents
    rw [hevents]
    exact h.ordered
  by_cases ht : t = p.nthreadsUsed
  · subst ht
    refine ⟨fun _ => hperiod, fun _ => hcapacity, hordered, ?_⟩
    have hfollows := h.follows
    cases hist with
    | unreleased => trivial
    | delayed => exact absurd hfollows.2.2.1 (Nat.lt_irrefl _)
    | released => exact absurd hfollows.2.1 (Nat.lt_irrefl _)
  · obtain ⟨hperiod', hcapacity', hdelayed, hnext⟩ := SchedThread.times_eq_iff.mp (hsched t ht)
    refine ⟨fun hlt => ?_, fun hlt => ?_, hordered, ?_⟩
    · rw [hperiod']
      exact h.period (by omega)
    · rw [hperiod', hcapacity']
      exact h.capacity (by omega)
    · have hfollows := h.follows
      cases hist with
      | unreleased => trivial
      | delayed =>
        obtain ⟨hm, hpos, hlt, hd⟩ := hfollows
        exact ⟨hmode ▸ hm, hpos, by omega, hdelayed.trans hd⟩
      | released =>
        obtain ⟨hm, hlt, hn⟩ := hfollows
        refine ⟨hmode.trans hm, by omega, ?_⟩
        rw [hperiod', hnext]
        exact hn

theorem pokThreadCreate_planned {attr : ThreadAttr} {entryOk stackOk : Bool}
    (h : Planned p t hist) :
    Sat (fun _ => True) (fun r => Planned r.1 t hist) (p.pokThreadCreate attr entryOk stackOk) := by
  refine Sat.ite (fun _ => h) fun _ => Sat.ite (fun _ => h) fun _ => ?_
  dsimp only
  generalize hfilled : p.updateSched p.nthreadsUsed (fun th => { th with
    basePriority := attr.priority, period := attr.period, timeCapacity := attr.timeCapacity }) = filled
  have hfill : Planned filled t hist := by
    subst hfilled
    apply h.fill
    intro u hu
    rw [Function.update_of_ne hu]
  have hnamed : Planned (filled.updateSched p.nthreadsUsed fun th => { th with name := attr.name })
      t hist :=
    hfill.kept ⟨rfl, rfl, updateSched_times (g := fun th => { th with name := attr.name }) rfl t,
      fun ho => ho⟩
  split
  · exact hfill
  · rename_i hattr
    refine Sat.ite (fun _ => hfill) fun _ => Sat.ite (fun _ => hnamed) fun _ =>
      Sat.ite (fun _ => hnamed) fun _ => ?_
    obtain ⟨hperiod, hcapacity⟩ := attrErrno_sound hattr
    subst hfilled
    rw [sat_ok]
    refine h.create rfl rfl rfl ?_ ?_ ?_
    · intro u hu
      simp [onSections, threadCreate_sched, Function.update_of_ne hu]
    · simpa [onSections, threadCreate_sched] using hperiod
    · simpa [onSections, threadCreate_sched] using hcapacity

theorem errorThreadCreate_planned {entryOk stackOk : Bool} (h : Planned p t hist) :
    Sat (fun _ => True) (fun r => Planned r.1 t hist) (p.errorThreadCreate entryOk stackOk) := by
  refine Sat.ite (fun _ => h) fun _ => Sat.ite (fun _ => h) fun _ => Sat.ite (fun _ => h) fun _ =>
    Sat.ite (fun _ => h) fun _ => Sat.ite (fun _ => ?_) fun _ => ?_
  · apply Planned.fill h
    intro u hu
    rw [Function.update_of_ne hu]
  · rw [sat_ok]
    refine h.create rfl rfl rfl ?_ ?_ ?_
    · intro u hu
      simp [onSections, threadCreate_sched, Function.update_of_ne hu]
    · simp [onSections, threadCreate_sched]
    · simp [onSections, threadCreate_sched, timeIsInfinity]

theorem pokSchedReplenish_times {budget now : Int} :
    Sat (fun _ => True) (fun r => TimesKept t p r.1) (p.pokSchedReplenish c budget now) := by
  have hsame := TimesKept.refl t p
  refine Sat.ite (fun _ => hsame) fun _ => Sat.ite (fun _ => hsame) fun _ =>
    Sat.ite (fun _ => hsame) fun _ => Sat.ite (fun _ => ?_) fun _ => ?_
  · exact Sat.ite (fun _ => hsame) fun _ => ⟨rfl, rfl, rfl, ordered_delayedEventRemove⟩
  · exact Sat.ite (fun _ => hsame) fun _ => ⟨rfl, rfl, rfl, ordered_delayedEventAdd⟩

theorem error_of_running {exit : PartitionExit} (hexit : exit ≠ .refused)
    {m : Except PartitionExit (ArincPartition × PokErrno)}
    (h : (if (p.threads c).point ≠ .running then .error .refused else m) = .error exit) :
    m = .error exit := by
  split_ifs at h
  · exact absurd (Except.error.inj h).symm hexit
  · exact h

theorem ok_of_running {r : ArincPartition × PokErrno}
    {m : Except PartitionExit (ArincPartition × PokErrno)}
    (h : (if (p.threads c).point ≠ .running then .error .refused else m) = .ok r) :
    m = .ok r := by
  split_ifs at h
  exact h

/-- A call moves the plan on as the history says. -/
theorem call_planned {call : ArincCall} {errno : PokErrno} (h : Planned p t hist)
    (hstarted : hist ≠ .unreleased → (p.threads t).state ≠ .stopped) (hfree : HandlerFree p)
    (hcall : p.call hm c call = .ok (q, errno)) :
    Planned q t (if errno = .ok then (hist.afterCall t p c call).getD hist else hist) := by
  have hsame : ∀ {m : Except PartitionExit (ArincPartition × PokErrno)},
      Sat (fun _ => True) (fun r => TimesKept t p r.1) m →
        Sat (fun _ => True) (fun r => Planned r.1 t hist) m :=
    fun hm => hm.weaken fun _ hk => h.kept hk
  have hframe : ∀ {m : Except PartitionExit (ArincPartition × PokErrno)},
      Sat (fun _ => True) (fun r => KeepsChoice (fun _ => False) p r.1) m →
        Sat (fun _ => True) (fun r => Planned r.1 t hist) m :=
    fun hm => hsame (hm.weaken fun _ hk => hk.toKeepsFrame.timesKept fun hf => hf)
  have hunset : hist.afterCall t p c call = none →
      Sat (fun _ => True) (fun r => Planned r.1 t hist) (p.call hm c call) →
        Planned q t (if errno = .ok then (hist.afterCall t p c call).getD hist else hist) := by
    intro hnone hsat
    rw [hnone, Option.getD_none, ite_self]
    exact hsat.of_ok hcall
  have hplain : Plain call → (∀ u, p.setsTimes c call = some u → u ≠ t) →
      Sat (fun _ => True) (fun r => Planned r.1 t hist) (p.call hm c call) := by
    intro hp hne
    have hk : KeepingCall (fun u => u ≠ t) p (p.call hm c call) := call_keeps hp hfree hne
    exact hsame (hk.weaken fun _ hr => hr.choice.toKeepsFrame.timesKept fun hself => hself rfl)
  cases call with
  | create =>
    exact hunset rfl (Sat.ite (fun _ => trivial) fun _ => pokThreadCreate_planned h)
  | createError =>
    exact hunset rfl (Sat.ite (fun _ => trivial) fun _ => errorThreadCreate_planned h)
  | delayedStart id delay now start =>
    by_cases hid : id = t
    · subst hid
      have hplanned := pokThreadDelayedStart_planned h (ok_of_running hcall)
      rwa [ReleaseHistory.afterCall, if_pos rfl, Option.getD_some]
    · apply hunset (if_neg hid)
      apply hplain trivial
      intro u hu
      dsimp only [setsTimes] at hu
      split_ifs at hu
      obtain rfl := Option.some.inj hu
      exact hid
  | stop => exact hunset rfl (Sat.ite (fun _ => trivial) fun _ => hframe pokThreadStop_keeps)
  | endPeriod =>
    by_cases hc : c = t
    · subst hc
      exact pokSchedEndPeriod_planned h (ok_of_running hcall)
    · have hnone : hist.afterCall t p c .endPeriod = none := by
        cases hist with
        | unreleased | delayed => rfl
        | released => exact if_neg hc
      apply hunset hnone
      apply hplain trivial
      intro u hu
      dsimp only [setsTimes, setsDeadline] at hu
      split_ifs at hu
      obtain rfl := Option.some.inj hu
      exact hc
  | replenish =>
    exact hunset rfl (Sat.ite (fun _ => trivial) fun _ => hsame pokSchedReplenish_times)
  | incLockLevel =>
    refine hunset rfl (Sat.ite (fun _ => trivial) fun _ => ?_)
    unfold ArincPartition.incLockLevel
    split_ifs
    · exact h
    · exact h
    · exact h.kept ⟨rfl, rfl, rfl, fun ho => ho⟩
  | decLockLevel =>
    refine hunset rfl (Sat.ite (fun _ => trivial) fun _ => ?_)
    unfold ArincPartition.decLockLevel
    split_ifs
    · exact h
    · exact h
    · exact h.kept ⟨rfl, rfl, rfl, fun ho => ho⟩
    · exact h.kept ⟨rfl, rfl, rfl, fun ho => ho⟩
  | setMode => exact partitionSetMode_planned h hstarted (ok_of_running hcall)
  | raiseApplicationError =>
    exact hunset rfl (Sat.ite (fun _ => trivial) fun _ => hframe raiseApplicationError_keeps)
  | raiseOsError =>
    exact hunset rfl (Sat.ite (fun _ => trivial) fun _ => hframe raiseOsError_keeps)
  | errorGet =>
    refine hunset rfl (Sat.ite (fun _ => trivial) fun _ => ?_)
    have hget : Sat (fun _ => True) (fun r => KeepsFrame (fun _ => False) p r.1) (p.errorGet c) :=
      errorGet_frame
    exact hget.map fun _ hk => h.kept (hk.timesKept fun hf => hf)
  | _ => exact hunset rfl (hplain trivial nofun)

/-! The steps of a partition -/

theorem drain_times {events : List DrainedEvent} :
    Sat (fun _ => True) (TimesKept t p) (drain hm events p) :=
  drain_keeps.weaken fun _ (hk : KeepsChoice (fun _ => False) p _) =>
    hk.toKeepsFrame.timesKept fun hf => hf

theorem reschedule_times : Sat (fun _ => True) (TimesKept t p) p.reschedule := by
  refine Sat.ite (fun _ => ?_) fun _ => TimesKept.refl t p
  apply (schedRule_ruled.mono (fun _ _ => trivial) fun _ hn => hn).bind
  intro n hn
  apply selectAndSwitch_switched.mono (fun _ _ => trivial)
  intro q hs
  have hruled : TimesKept t p n.1 := by
    cases hn with
    | init | handler | normal => exact ⟨rfl, rfl, rfl, fun ho => ho⟩
    | start e =>
      refine ⟨rfl, rfl, ?_, fun ho => ho⟩
      exact updateSched_times (g := fun th => { th with priority := th.basePriority }) rfl t
  apply hruled.trans
  rw [hs.rest]
  exact ⟨rfl, hs.used, rfl, fun ho => ho⟩

theorem beforeRecheck_planned {e : ArincInput} (h : Planned p t hist)
    (hstarted : hist ≠ .unreleased → (p.threads t).state ≠ .stopped) (hfree : HandlerFree p) :
    Sat (fun _ => True) (fun q => Planned q t (hist.afterInput hm t p e)) (p.beforeRecheck hm e) := by
  have hdrained : ∀ {r : ArincPartition} {events : List DrainedEvent} {hist' : ReleaseHistory},
      Planned r t hist' → Sat (fun _ => True) (fun q => Planned q t hist') (drain hm events r) := by
    intro r events hist' hr
    have hdrain : Sat (fun _ => True) (TimesKept t r) (drain hm events r) := drain_times
    exact hdrain.weaken fun q hq => hr.kept hq
  have hkept : ∀ {r : ArincPartition}, KeepsFrame (fun _ => False) p r → Planned r t hist :=
    fun hk => h.kept (hk.timesKept fun hf => hf)
  cases e with
  | user | restart => trivial
  | onEvent =>
    have hk : Keeps (fun _ => False) p (p.onSections (·.recordEntering)) := recordEntering_keeps
    exact hdrained (hkept hk.choice.toKeepsFrame)
  | recheck => exact hdrained h
  | fault =>
    exact withCurrent_of_forall fun c _ => Sat.bind processError_keeps
      fun r (hk : KeepsChoice (fun _ => False) p r) => hdrained (hkept hk.toKeepsFrame)
  | deadlineOor =>
    exact Sat.bind emitDeadlineOor_keeps
      fun r (hk : KeepsChoice (fun _ => False) p r) => hdrained (hkept hk.toKeepsFrame)
  | call call events =>
    apply withCurrent_of_forall
    intro c hc
    cases hcall : p.call hm c call with
    | error e => trivial
    | ok r =>
      apply hdrained
      have hplanned := call_planned h hstarted hfree hcall
      simp only [ReleaseHistory.afterInput, hc, hcall]
      split
      · rename_i heq
        obtain ⟨-, herrno⟩ := Prod.mk.inj (Except.ok.inj heq)
        rwa [if_pos (congrArg Prod.snd (Except.ok.inj heq))] at hplanned
      · rename_i hne
        rwa [if_neg fun herrno => hne r.1 (by rw [← herrno])] at hplanned

theorem run_planned {e : ArincInput} (h : Planned p t hist)
    (hstarted : hist ≠ .unreleased → (p.threads t).state ≠ .stopped) (hfree : HandlerFree p) :
    Sat (fun _ => True) (fun q => Planned q t (hist.afterInput hm t p e)) (p.run hm e) := by
  have hscheduled : Sat (fun _ => True) (fun q => Planned q t (hist.afterInput hm t p e))
      ((p.beforeRecheck hm e).bind reschedule) := by
    refine (beforeRecheck_planned h hstarted hfree).bind fun r hr => ?_
    have hschedule : Sat (fun _ => True) (TimesKept t r) r.reschedule := reschedule_times
    exact hschedule.weaken fun q hq => hr.kept hq
  cases e with
  | restart => trivial
  | user e =>
    refine Sat.ite (fun _ => trivial) fun _ => withCurrent_of_forall fun c _ => ?_
    unfold liftSections
    split
    · trivial
    · rename_i s hs
      have hk : Keeps (fun _ => False) p (p.onSections fun _ => s) := userStep_keeps hs
      exact h.kept (hk.choice.toKeepsFrame.timesKept fun hf => hf)
  | onEvent | recheck | fault | deadlineOor | call =>
    exact Sat.ite (fun _ => trivial) fun _ => hscheduled

/-- Between the steps of a partition -/
structure Scheduled (t : Nat) (s : ArincPartition × ReleaseHistory) : Prop where
  planned : Planned s.1 t s.2
  started : s.2 ≠ .unreleased → (s.1.threads t).state ≠ .stopped
  free : HandlerFree s.1

theorem partitionArincStart_scheduled : Scheduled t (p.partitionArincStart, .unreleased) where
  planned := by
    have hmain : t < p.partitionArincStart.nthreadsUsed → t = 0 := by
      intro hlt
      have hused : p.partitionArincStart.nthreadsUsed = 1 := rfl
      omega
    have hperiod : (p.partitionArincStart.sched 0).period = -1 := rfl
    refine ⟨fun hlt => ?_, fun hlt => ?_, List.Pairwise.nil, trivial⟩
    · rw [hmain hlt, hperiod]
      simp
    · rw [hmain hlt, hperiod]
      simp [timeIsInfinity]
  started hne := absurd rfl hne
  free := nofun

theorem releaseStep_scheduled {s s' : ArincPartition × ReleaseHistory} {e : ArincInput}
    (h : s.1.halted = false → Scheduled t s) (hstep : releaseStep hm t s e = some s') :
    s'.1.halted = false → Scheduled t s' := by
  unfold releaseStep at hstep
  split at hstep
  · rename_i q hq
    obtain rfl := Option.some.inj hstep
    intro _
    obtain ⟨hplanned, hstarted, hfree⟩ := h (running_of_ok hq)
    have hafter := (run_planned hplanned hstarted hfree).of_ok hq
    refine ⟨?_, ?_, (run_free hfree).of_ok hq⟩
    · unfold ReleaseHistory.next
      split_ifs
      · exact ⟨hafter.period, hafter.capacity, hafter.ordered, trivial⟩
      · exact hafter
    · unfold ReleaseHistory.next
      split_ifs with hstopped
      · exact fun hne => absurd rfl hne
      · exact fun _ => hstopped
  · rename_i exit hexit
    obtain ⟨q, hq, rfl⟩ := Option.map_eq_some_iff.mp hstep
    have hrun : s.1.halted = false → Sat (fun _ => True) (fun r => Scheduled t (r, .unreleased))
        (s.1.run hm e) := by
      intro _
      rw [hexit]
      trivial
    exact step_rule hrun (fun r _ => partitionArincStart_scheduled) hq

/-- After the call the thread has its deadline, and it waits for its release if it has not been
released by the call. -/
structure ReleasedAt (p q : ArincPartition) (t : Nat) (call : ArincCall) (release : Int) : Prop where
  deadline : q.TimedAt t .deadline (release + (p.sched t).timeCapacity)
  released : call.Passes release ∧ (q.threads t).state = .runnable ∨
    q.Awaits t release ∧ ((p.threads t).state = .waiting ∨ p.mode = .normal →
      (q.threads t).state = .waiting)

theorem waited_of_afterCall {call : ArincCall} {inInit : Bool} {first : Int} {waits : Nat}
    (hset : hist.afterCall t p c call = some (.released inInit first waits)) (hwaits : waits ≠ 0)
    (hfollows : p.Follows t hist) : t < p.nthreadsUsed := by
  cases call with
  | delayedStart =>
    dsimp only [ReleaseHistory.afterCall] at hset
    split_ifs at hset
    · cases Option.some.inj hset
      exact absurd rfl hwaits
    · cases Option.some.inj hset
  | setMode mode =>
    cases mode with
    | initCold | initWarm | idle => cases hset
    | normal =>
      cases hist with
      | unreleased | released => cases hset
      | delayed =>
        cases Option.some.inj hset
        exact absurd rfl hwaits
  | endPeriod =>
    cases hist with
    | unreleased | delayed => cases hset
    | released => exact hfollows.2.1
  | _ => cases hset

/-- What a call that sets a release sets, in 64 bits, when the release is meant to be at
`release`. -/
structure SetsRelease (p q : ArincPartition) (t : Nat) (call : ArincCall) (release : Int) :
    Prop where
  attr : PeriodicAttr p t
  deadline : q.TimedAt t .deadline (wrap (release + (p.sched t).timeCapacity))
  released : call.Passes (wrap release) ∧ (q.threads t).state = .runnable ∨
    q.Awaits t (wrap release) ∧ ((p.threads t).state = .waiting ∨ p.mode = .normal →
      (q.threads t).state = .waiting)

theorem Follows.waitTime {inInit : Bool} {first : Int} {waits : Nat}
    (h : p.Follows t (.released inInit first waits))
    (hperiod : timeIsInfinity (p.sched t).period = false) :
    add (p.sched t).nextActivation (p.sched t).period =
      wrap (first + ((waits + 1 : Nat) + if inInit then 0 else 1) * (p.sched t).period) := by
  rw [h.2.2 hperiod, add, wrap_emod_add]
  congr 1
  push_cast
  ring

/-- A call that sets a release sets the one of the history. -/
theorem call_activation {call : ArincCall} {hist' : ReleaseHistory} {release : Int}
    (h : Scheduled t (p, hist)) (hcall : p.call hm c call = .ok (q, .ok))
    (hset : hist.afterCall t p c call = some hist')
    (hrelease : hist'.activation (p.sched t).period = some release)
    (hperiod : timeIsInfinity (p.sched t).period = false) : SetsRelease p q t call release := by
  have hplanned : Planned p t hist := h.planned
  have hfollows := hplanned.follows
  cases call with
  | delayedStart id delay now start =>
    dsimp only [ReleaseHistory.afterCall] at hset
    split_ifs at hset with hid hmode
    · subst hid
      obtain rfl := Option.some.inj hset
      obtain rfl : start + delay = release := by simpa [ReleaseHistory.activation] using hrelease
      obtain ⟨hthread, -, hstarted⟩ := pokThreadDelayedStart_started (ok_of_running hcall)
      have hattr := hplanned.attr hthread.2.1 hperiod
      obtain ⟨hreleased, hawaits, hstate⟩ :=
        threadDelayedStartInternal_released hattr hmode hstarted
      have hdeadline := hreleased.deadline
      rw [add, add, wrap_wrap_add] at hdeadline
      exact ⟨hattr, hdeadline, Or.inr ⟨hawaits, fun _ => hstate⟩⟩
    · obtain rfl := Option.some.inj hset
      cases hrelease
  | setMode mode now start =>
    cases mode with
    | initCold | initWarm | idle => cases hset
    | normal =>
      cases hist with
      | unreleased | released => cases hset
      | delayed delay =>
        obtain rfl := Option.some.inj hset
        obtain rfl : start + delay = release := by simpa [ReleaseHistory.activation] using hrelease
        obtain ⟨hinit, hpos, hlt, hdelay⟩ := hfollows
        have hswitch : p.partitionSetModeNormal now start = .ok q := by
          have hmode := ok_of_running hcall
          unfold partitionSetMode at hmode
          dsimp only at hmode
          rw [if_neg hinit] at hmode
          exact ok_of_returning hmode
        have hmem : t ∈ List.range' 1 (p.nthreadsUsed - 1) := by
          rw [List.mem_range'_1]
          omega
        have hattr := hplanned.attr hlt hperiod
        have hattr' : PeriodicAttr { p with mode := .normal, lockLevel := 0 }.localInvalidate t :=
          hattr.of_eq rfl rfl
        have hstopped : (p.threads t).state ≠ .stopped := h.started (by simp)
        obtain ⟨hreleased, hfires⟩ :=
          releaseThreads_released List.nodup_range' hmem hattr' hstopped hswitch
        have hsched : { p with mode := .normal, lockLevel := 0 }.localInvalidate.sched = p.sched := rfl
        have hdeadline := hreleased.deadline
        rw [hsched, hdelay] at hdeadline hfires
        rw [add, add, wrap_wrap_add] at hdeadline
        exact ⟨hattr, hdeadline, hfires.imp_right fun hw =>
          ⟨hw.1, fun hwas => hw.2.trans (hwas.resolve_right hinit)⟩⟩
  | endPeriod =>
    cases hist with
    | unreleased | delayed => cases hset
    | released inInit first waits =>
      dsimp only [ReleaseHistory.afterCall] at hset
      split_ifs at hset with hc
      subst hc
      obtain rfl := Option.some.inj hset
      have hrelease' : add (p.sched c).nextActivation (p.sched c).period = wrap release := by
        rw [hfollows.waitTime hperiod, ← Option.some.inj hrelease]
        cases inInit <;> simp
      obtain ⟨hreleased, hawaits, hstate⟩ :=
        pokSchedEndPeriod_released hrelease' (ok_of_running hcall)
      have hdeadline := hreleased.deadline
      rw [add, wrap_wrap_add] at hdeadline
      exact ⟨hplanned.attr hfollows.2.1 hperiod, hdeadline, Or.inr ⟨hawaits, fun _ => hstate⟩⟩
  | _ => cases hset

/-- The release point after the waits is the one that is set, and it fits with its deadline. -/
def ReleaseFits (period timeCapacity : Int) (inInit : Bool) (first : Int) (waits : Nat) : Prop :=
  (inInit = true ∨ waits = 0) ∧ first + waits * period + timeCapacity < 2 ^ 63

theorem call_released {call : ArincCall} {inInit : Bool} {first : Int} {waits : Nat}
    (h : Scheduled t (p, hist)) (hcall : p.call hm c call = .ok (q, .ok))
    (hset : hist.afterCall t p c call = some (.released inInit first waits))
    (hperiod : timeIsInfinity (p.sched t).period = false) (hword : (p.sched t).period < 2 ^ 63)
    (hfirst : 0 ≤ first) :
    ReleasedAt p q t call (first + waits * (p.sched t).period) ↔
      ReleaseFits (p.sched t).period (p.sched t).timeCapacity inInit first waits := by
  have hsets := call_activation h hcall hset rfl hperiod
  have hcapacity : 0 ≤ (p.sched t).timeCapacity := by
    simpa [timeIsInfinity] using hsets.attr.capacity
  have hnonneg : 0 ≤ (p.sched t).period := by simpa [timeIsInfinity] using hperiod
  have hrelease : 0 ≤ first + waits * (p.sched t).period :=
    add_nonneg hfirst (mul_nonneg (Int.natCast_nonneg waits) hnonneg)
  unfold ReleaseFits
  by_cases hearly : inInit = true ∨ waits = 0
  · rw [if_pos hearly, add_zero] at hsets
    generalize first + waits * (p.sched t).period = release at hsets hrelease ⊢
    constructor
    · intro hat
      refine ⟨hearly, ?_⟩
      exact (wrap_eq_iff.mp (hat.deadline.inj hsets.deadline).symm).2
    · rintro ⟨-, hlow⟩
      have hdeadline := hsets.deadline
      have hreleased := hsets.released
      rw [wrap_of_inRange ⟨by omega, hlow⟩] at hdeadline
      rw [wrap_of_inRange ⟨by omega, by omega⟩] at hreleased
      exact ⟨hdeadline, hreleased⟩
  · rw [if_neg hearly] at hsets
    refine iff_of_false (fun hat => ?_) fun hfits => hearly hfits.1
    have hpositive : (p.sched t).period ≠ 0 := by
      apply h.planned.period
      rw [not_or] at hearly
      exact waited_of_afterCall hset hearly.2 h.planned.follows
    -- the deadline that is set is a period too late, and a period is less than the range
    have heq := congrArg (· % 2 ^ 64) (hat.deadline.inj hsets.deadline)
    simp only [wrap_emod, add_mul, one_mul] at heq
    omega

/-- The assertion on infinite times is failed only by a release that does not fit. -/
theorem call_unfailed {call : ArincCall} {inInit : Bool} {first : Int} {waits : Nat}
    (h : Scheduled t (p, hist)) (hcall : p.call hm c call = .error (.failed .threadWaitTimed))
    (hset : hist.afterCall t p c call = some (.released inInit first waits))
    (hperiod : timeIsInfinity (p.sched t).period = false) (hfirst : 0 ≤ first) :
    ¬ ReleaseFits (p.sched t).period (p.sched t).timeCapacity inInit first waits := by
  rintro ⟨hearly, hlow⟩
  have hplanned : Planned p t hist := h.planned
  have hfollows := hplanned.follows
  have hnonneg : 0 ≤ (p.sched t).period := by simpa [timeIsInfinity] using hperiod
  have hrelease : 0 ≤ first + waits * (p.sched t).period :=
    add_nonneg hfirst (mul_nonneg (Int.natCast_nonneg waits) hnonneg)
  have hfits : t < p.nthreadsUsed → wrap (first + waits * (p.sched t).period) =
      first + waits * (p.sched t).period := by
    intro hlt
    have hcapacity : 0 ≤ (p.sched t).timeCapacity := by
      simpa [timeIsInfinity] using hplanned.capacity hlt hperiod
    exact wrap_of_inRange ⟨by omega, by omega⟩
  cases call with
  | delayedStart id delay now start =>
    dsimp only [ReleaseHistory.afterCall] at hset
    split_ifs at hset with hid hmode
    · subst hid
      obtain ⟨rfl, rfl, rfl⟩ := ReleaseHistory.released.inj (Option.some.inj hset)
      rw [Nat.cast_zero, zero_mul, add_zero] at hfits hrelease
      have hstart := error_of_running (by simp) hcall
      obtain ⟨hthread, hinternal⟩ := pokThreadDelayedStart_failed hstart
      have hunwrapped : 0 ≤ add start delay := by
        rw [add, hfits hthread.2.1]
        exact hrelease
      have hattr := hplanned.attr hthread.2.1 hperiod
      exact (threadDelayedStartInternal_notTimed hattr hunwrapped).of_error hinternal rfl
    · cases Option.some.inj hset
  | setMode mode now start =>
    cases mode with
    | initCold | initWarm | idle => cases hset
    | normal =>
      have hswitch := error_of_running (by simp) hcall
      unfold partitionSetMode at hswitch
      dsimp only at hswitch
      split_ifs at hswitch
      exact releaseThreads_notTimed.map_exit.of_error hswitch rfl
  | endPeriod =>
    cases hist with
    | unreleased | delayed => cases hset
    | released inInit' first' waits' =>
      dsimp only [ReleaseHistory.afterCall] at hset
      split_ifs at hset with hc
      subst hc
      obtain ⟨rfl, rfl, rfl⟩ := ReleaseHistory.released.inj (Option.some.inj hset)
      obtain rfl : inInit' = true := hearly.resolve_right (Nat.succ_ne_zero waits')
      have hunwrapped : 0 ≤ add (p.sched c).nextActivation (p.sched c).period := by
        rw [hfollows.waitTime hperiod, if_pos rfl, add_zero, hfits hfollows.2.1]
        exact hrelease
      exact (pokSchedEndPeriod_notTimed hunwrapped).of_error (error_of_running (by simp) hcall) rfl
  | _ => cases hset

/-- In every run, a process that has been started in an `INIT` mode is released after its k-th
PERIODIC_WAIT k periods after its first release point, as long as the release point and its
deadline fit into 64 bits, and a process that has been started in the `NORMAL` mode one period
later than that. It is released by the first check of the timed events that finds its release
point passed. -/
theorem release_points {nthreads : Nat} {es : List ArincInput}
    (hrun : Run.exec (releaseStep hm t) (boot nthreads, .unreleased) es = some (p, hist))
    (hhalted : p.halted = false) :
    (∀ c call inInit first waits, p.threadCurrent = some c →
      hist.afterCall t p c call = some (.released inInit first waits) →
      timeIsInfinity (p.sched t).period = false → (p.sched t).period < 2 ^ 63 → 0 ≤ first →
      (∀ q, p.call hm c call = .ok (q, .ok) →
        (ReleasedAt p q t call (first + waits * (p.sched t).period) ↔
          ReleaseFits (p.sched t).period (p.sched t).timeCapacity inInit first waits)) ∧
      (p.call hm c call = .error (.failed .threadWaitTimed) →
        ¬ ReleaseFits (p.sched t).period (p.sched t).timeCapacity inInit first waits)) ∧
    ∀ release now q, p.Awaits t release → (p.threads t).state = .waiting →
      delayedEventQueueCheck hm now p.delayedEvents.length p = .ok q →
      ((q.threads t).state = .runnable ↔ release ≤ now) := by
  have hscheduled : p.halted = false → Scheduled t (p, hist) :=
    Run.invariant (fun _ _ _ h hstep => releaseStep_scheduled h hstep)
      (fun _ => partitionArincStart_scheduled) hrun
  have h := hscheduled hhalted
  constructor
  · intro c call inInit first waits _ hset hperiod hword hfirst
    exact ⟨fun q hcall => call_released h hcall hset hperiod hword hfirst,
      fun hcall => call_unfailed h hcall hset hperiod hfirst⟩
  · intro release now q hawaits hwaiting hq
    exact (hawaits.check hwaiting h.planned.ordered (Nat.le_refl _)).of_ok hq

/-- A periodic process is started in an `INIT` mode with a delay, and is released. -/
def initStartRun : List ArincInput :=
  [.call (.create ⟨[65], 5, 10, 10⟩ true true) [], .call (.delayedStart 1 3 0 0) [],
    .call (.setMode .normal 0 100) [], .onEvent [.timer 103]]

/-- A periodic process is started by another one in the `NORMAL` mode, and is released. -/
def normalStartRun : List ArincInput :=
  [.call (.create ⟨[65], 5, 10, 10⟩ true true) [], .call (.create ⟨[66], 1, -1, -1⟩ true true) [],
    .call (.delayedStart 2 0 0 0) [], .call (.setMode .normal 0 0) [],
    .call (.delayedStart 1 0 0 100) [], .onEvent [.timer 100]]

set_option synthInstance.maxSize 1000 in
theorem release_points_init :
    ∃ p q, Run.exec (releaseStep lenientHm 1) (boot 4, .unreleased) initStartRun =
        some (p, .released true 103 0) ∧
      p.call lenientHm 1 .endPeriod = .ok (q, .ok) ∧ ReleasedAt p q 1 .endPeriod 113 := by
  have hview : (Run.exec (releaseStep lenientHm 1) (boot 4, .unreleased) initStartRun).map
      (fun s => (s.2, s.1.halted, s.1.threadCurrent, (s.1.sched 1).period,
        (s.1.sched 1).timeCapacity, ((s.1.call lenientHm 1 .endPeriod).toOption.map (·.2)))) =
          some (.released true 103 0, false, some 1, 10, 10, some .ok) := by decide +kernel
  obtain ⟨⟨p, hist⟩, hp, hv⟩ := Option.map_eq_some_iff.mp hview
  simp only [Prod.mk.injEq] at hv
  obtain ⟨rfl, hhalted, hcurrent, hperiod, hcapacity, hcall⟩ := hv
  obtain ⟨⟨q, errno⟩, hq, herrno⟩ := Option.map_eq_some_iff.mp hcall
  obtain rfl : errno = .ok := herrno
  have hq' := ok_of_toOption hq
  refine ⟨p, q, hp, hq', ?_⟩
  have hreleased := (((release_points hp hhalted).1 1 .endPeriod true 103 1 hcurrent rfl
    (by rw [hperiod]; decide) (by rw [hperiod]; decide) (by decide)).1 q hq').mpr
      ⟨Or.inl rfl, by rw [hperiod, hcapacity]; decide⟩
  simpa [hperiod] using hreleased

set_option synthInstance.maxSize 1000 in
/-- The first PERIODIC_WAIT after a start in the `NORMAL` mode skips a release point. -/
theorem release_points_fail :
    ∃ p q, Run.exec (releaseStep lenientHm 1) (boot 4, .unreleased) normalStartRun =
        some (p, .released false 100 0) ∧
      p.threadCurrent = some 1 ∧ (p.sched 1).period = 10 ∧
      p.call lenientHm 1 .endPeriod = .ok (q, .ok) ∧ ¬ ReleasedAt p q 1 .endPeriod 110 ∧
      q.delayedEvents = [⟨1, .delayed, 120⟩, ⟨1, .deadline, 130⟩] := by
  have hview : (Run.exec (releaseStep lenientHm 1) (boot 4, .unreleased) normalStartRun).map
      (fun s => (s.2, s.1.threadCurrent, (s.1.sched 1).period, (s.1.sched 1).timeCapacity,
        ((s.1.call lenientHm 1 .endPeriod).toOption.map fun r => (r.2, r.1.delayedEvents)))) =
          some (.released false 100 0, some 1, 10, 10,
            some (.ok, [⟨1, .delayed, 120⟩, ⟨1, .deadline, 130⟩])) := by decide +kernel
  obtain ⟨⟨p, hist⟩, hp, hv⟩ := Option.map_eq_some_iff.mp hview
  simp only [Prod.mk.injEq] at hv
  obtain ⟨rfl, hcurrent, hperiod, hcapacity, hcall⟩ := hv
  obtain ⟨⟨q, errno⟩, hq, hafter⟩ := Option.map_eq_some_iff.mp hcall
  obtain ⟨rfl, hevents⟩ := Prod.mk.inj hafter
  refine ⟨p, q, hp, hcurrent, hperiod, ok_of_toOption hq, fun hat => ?_, hevents⟩
  have hdeadline := hat.deadline 130
  rw [hevents, hcapacity] at hdeadline
  simp at hdeadline

end ArincPartition

end Chpok
