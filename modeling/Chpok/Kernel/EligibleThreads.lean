import Chpok.Kernel.ArincPartition
import Chpok.Library.Outcome
import Chpok.Library.PriorityInsert

/-! The eligible threads of a partition are its runnable ones that are not suspended. A
function that moves a thread first leaves the others as they are, whatever it makes of the
thread, and then settles the thread. -/

namespace Chpok

theorem pairwise_insertByPriority {priority arrivedAt : Nat → Nat} {t n : Nat} {l : List Nat}
    (horder : l.Pairwise fun a b => priority b < priority a ∨
      priority a = priority b ∧ arrivedAt a < arrivedAt b)
    (ht : t ∉ l) (harrived : ∀ u ∈ l, arrivedAt u < n) :
    (insertByPriority priority t l).Pairwise fun a b => priority b < priority a ∨
      priority a = priority b ∧
        Function.update arrivedAt t n a < Function.update arrivedAt t n b := by
  have hne : ∀ u ∈ l, u ≠ t := fun u hu he => ht (he ▸ hu)
  apply PriorityInsert.pairwise
  · apply horder.imp_of_mem
    intro a b ha hb hab
    rwa [Function.update_of_ne (hne a ha), Function.update_of_ne (hne b hb)]
  · exact fun b _ hb => Or.inl hb
  · intro b hb hnot
    have hlt := harrived b hb
    rw [Function.update_self, Function.update_of_ne (hne b hb)]
    omega
  · intro b hb c hc hab hbc
    rw [Function.update_of_ne (hne b hb)] at hab hbc
    rw [Function.update_of_ne (hne c hc)] at hbc ⊢
    omega

/-- The times that say when a thread is released, and its deadlines. -/
def SchedThread.times (th : SchedThread) : Int × Int × Int × Int :=
  (th.period, th.timeCapacity, th.delayedTime, th.nextActivation)

/-- The times that a thread is created with. -/
def SchedThread.attrTimes (th : SchedThread) : Int × Int := (th.period, th.timeCapacity)

theorem SchedThread.attrTimes_of_times {th th' : SchedThread} (h : th.times = th'.times) :
    th.attrTimes = th'.attrTimes := by
  simp only [times, Prod.mk.injEq] at h
  rw [attrTimes, attrTimes, h.1, h.2.1]

namespace ArincPartition

variable {p q : ArincPartition} {t u : Nat} {x : Option Nat} {kind : DelayedKind} {time : Int}

/-- What the list of eligible threads contains. -/
def Eligible (p : ArincPartition) (t : Nat) : Prop :=
  p.mode = .normal ∧ p.HasThread t ∧ (p.threads t).state = .runnable ∧
    (p.sched t).suspended = false

def Waits (p : ArincPartition) (t : Nat) : Prop :=
  p.mode = .normal ∧ p.HasThread t ∧ (p.threads t).state = .waiting

/-- By decreasing priority and, among equals, in the order of arrival. -/
def Precedes (p : ArincPartition) (a b : Nat) : Prop :=
  (p.sched b).priority < (p.sched a).priority ∨
    (p.sched a).priority = (p.sched b).priority ∧ p.arrivedAt a < p.arrivedAt b

/-- All threads but `x` are in their lists. -/
structure SoundBut (x : Option Nat) (p : ArincPartition) : Prop where
  nodup : p.eligibleThreads.Nodup
  eligible : ∀ u, some u ≠ x → (u ∈ p.eligibleThreads ↔ p.Eligible u)
  order : (p.eligibleThreads.filter fun u => some u ≠ x).Pairwise p.Precedes
  arrived : ∀ u ∈ p.eligibleThreads, p.arrivedAt u < p.arrivals
  delayed : ∀ u, some u ≠ x → p.DelayedEventActive u .delayed → p.Waits u
  resumes : ∀ u, some u ≠ x → p.DelayedEventActive u .delayed →
    (p.sched u).delayedFunc = .resumeWaited → (p.sched u).waitElem = none
  unique : (p.delayedEvents.map fun e => (e.thread, e.kind)).Nodup
  linked : ∀ u, some u ≠ x → u < p.nthreadsUsed → (p.sched u).waitElem ≠ none → p.Waits u
  waiters : ∀ port u, u ∈ p.waiters port ↔
    u < p.nthreadsUsed ∧ (p.sched u).waitElem = some port
  waitersNodup : ∀ port, (p.waiters port).Nodup
  donated : ∀ u, some u ≠ x → u < p.nthreadsUsed → (p.threads u).firstDonator ≠ none →
    p.HasThread u ∧ (p.threads u).state ≠ .stopped
  waiting : ∀ u, some u ≠ x → u < p.nthreadsUsed → (p.threads u).state = .waiting → p.HasThread u

/-- The partitions differ at most in the thread `x` and in what the lists do not depend on. -/
structure SameBut (x : Option Nat) (p q : ArincPartition) : Prop where
  mode : q.mode = p.mode
  used : q.nthreadsUsed = p.nthreadsUsed
  error : q.threadError = p.threadError
  eligibleThreads : q.eligibleThreads = p.eligibleThreads
  arrivals : q.arrivals = p.arrivals
  arrivedAt : q.arrivedAt = p.arrivedAt
  delayedEvents : q.delayedEvents = p.delayedEvents
  waiters : q.waiters = p.waiters
  waitElem : ∀ u, (q.sched u).waitElem = (p.sched u).waitElem
  state : ∀ u, some u ≠ x → (q.threads u).state = (p.threads u).state
  donator : ∀ u, some u ≠ x → (q.threads u).firstDonator = (p.threads u).firstDonator
  suspended : ∀ u, some u ≠ x → (q.sched u).suspended = (p.sched u).suspended
  priority : ∀ u, some u ≠ x → (q.sched u).priority = (p.sched u).priority
  delayedFunc : ∀ u, some u ≠ x → (q.sched u).delayedFunc = (p.sched u).delayedFunc

theorem SameBut.hasThread (h : SameBut x p q) : q.HasThread u ↔ p.HasThread u := by
  simp only [SectionSystem.HasThread, h.used, h.error]

theorem eligible_congr (hmode : q.mode = p.mode) (hthread : q.HasThread u ↔ p.HasThread u)
    (hstate : (q.threads u).state = (p.threads u).state)
    (hsuspended : (q.sched u).suspended = (p.sched u).suspended) :
    q.Eligible u ↔ p.Eligible u := by
  simp only [Eligible, hmode, hthread, hstate, hsuspended]

theorem SameBut.eligible (h : SameBut x p q) (hu : some u ≠ x) : q.Eligible u ↔ p.Eligible u := by
  simp only [Eligible, h.mode, h.hasThread, h.state u hu, h.suspended u hu]

theorem SameBut.waits (h : SameBut x p q) (hu : some u ≠ x) : q.Waits u ↔ p.Waits u := by
  simp only [Waits, h.mode, h.hasThread, h.state u hu]

theorem SameBut.active (h : SameBut x p q) :
    q.DelayedEventActive u kind ↔ p.DelayedEventActive u kind := by
  simp only [DelayedEventActive, h.delayedEvents]

theorem SameBut.trans {r : ArincPartition} (h : SameBut x p q) (h' : SameBut x q r) :
    SameBut x p r where
  mode := h'.mode.trans h.mode
  used := h'.used.trans h.used
  error := h'.error.trans h.error
  eligibleThreads := h'.eligibleThreads.trans h.eligibleThreads
  arrivals := h'.arrivals.trans h.arrivals
  arrivedAt := h'.arrivedAt.trans h.arrivedAt
  delayedEvents := h'.delayedEvents.trans h.delayedEvents
  waiters := h'.waiters.trans h.waiters
  waitElem u := (h'.waitElem u).trans (h.waitElem u)
  state u hu := (h'.state u hu).trans (h.state u hu)
  donator u hu := (h'.donator u hu).trans (h.donator u hu)
  suspended u hu := (h'.suspended u hu).trans (h.suspended u hu)
  priority u hu := (h'.priority u hu).trans (h.priority u hu)
  delayedFunc u hu := (h'.delayedFunc u hu).trans (h.delayedFunc u hu)

theorem SoundBut.same (h : SoundBut x p) (hs : SameBut x p q) : SoundBut x q where
  nodup := hs.eligibleThreads ▸ h.nodup
  eligible u hu := by rw [hs.eligibleThreads, hs.eligible hu, h.eligible u hu]
  order := by
    rw [hs.eligibleThreads]
    apply h.order.imp_of_mem
    intro a b ha hb hab
    have hax : some a ≠ x := by simpa using (List.mem_filter.mp ha).2
    have hbx : some b ≠ x := by simpa using (List.mem_filter.mp hb).2
    simpa only [Precedes, hs.priority a hax, hs.priority b hbx, hs.arrivedAt] using hab
  arrived := by simpa only [hs.eligibleThreads, hs.arrivedAt, hs.arrivals] using h.arrived
  delayed u hu hd := (hs.waits hu).mpr (h.delayed u hu (hs.active.mp hd))
  resumes u hu hd hf := by
    rw [hs.delayedFunc u hu] at hf
    rw [hs.waitElem]
    exact h.resumes u hu (hs.active.mp hd) hf
  unique := hs.delayedEvents ▸ h.unique
  linked u hu hlt hl := by
    rw [hs.used] at hlt
    rw [hs.waitElem] at hl
    exact (hs.waits hu).mpr (h.linked u hu hlt hl)
  waiters port u := by rw [hs.waiters, hs.used, hs.waitElem, h.waiters]
  waitersNodup port := hs.waiters ▸ h.waitersNodup port
  donated u hu hlt hd := by
    rw [hs.used] at hlt
    rw [hs.donator u hu] at hd
    rw [hs.state u hu, hs.hasThread]
    exact h.donated u hu hlt hd
  waiting u hu hlt hw := by
    rw [hs.used] at hlt
    rw [hs.state u hu] at hw
    exact hs.hasThread.mpr (h.waiting u hu hlt hw)

theorem SoundBut.except (h : SoundBut none p) (t : Nat) : SoundBut (some t) p where
  nodup := h.nodup
  eligible u _ := h.eligible u (by simp)
  order := h.order.sublist (by simp)
  arrived := h.arrived
  delayed u _ := h.delayed u (by simp)
  resumes u _ := h.resumes u (by simp)
  unique := h.unique
  linked u _ := h.linked u (by simp)
  waiters := h.waiters
  waitersNodup := h.waitersNodup
  donated u _ := h.donated u (by simp)
  waiting u _ := h.waiting u (by simp)

theorem SoundBut.pairwise (h : SoundBut none p) : p.eligibleThreads.Pairwise p.Precedes := by
  simpa using h.order

/-- What the events, the ports and the donators of a thread require of it. -/
structure Kept (t : Nat) (p : ArincPartition) : Prop where
  delayed : p.DelayedEventActive t .delayed → p.Waits t
  resumes : p.DelayedEventActive t .delayed → (p.sched t).delayedFunc = .resumeWaited →
    (p.sched t).waitElem = none
  linked : t < p.nthreadsUsed → (p.sched t).waitElem ≠ none → p.Waits t
  donated : t < p.nthreadsUsed → (p.threads t).firstDonator ≠ none →
    p.HasThread t ∧ (p.threads t).state ≠ .stopped
  waiting : t < p.nthreadsUsed → (p.threads t).state = .waiting → p.HasThread t

theorem SoundBut.kept (h : SoundBut none p) (t : Nat) : Kept t p where
  delayed := h.delayed t (by simp)
  resumes := h.resumes t (by simp)
  linked := h.linked t (by simp)
  donated := h.donated t (by simp)
  waiting := h.waiting t (by simp)

/-- The thread that was left out is settled. -/
theorem SoundBut.settle (h : SoundBut (some t) p)
    (heligible : t ∈ p.eligibleThreads ↔ p.Eligible t)
    (horder : p.eligibleThreads.Pairwise p.Precedes) (hkept : Kept t p) : SoundBut none p where
  nodup := h.nodup
  eligible u _ := by
    by_cases hu : u = t
    · exact hu ▸ heligible
    · exact h.eligible u (by simpa using hu)
  order := by simpa using horder
  arrived := h.arrived
  delayed u _ hd := by
    by_cases hu : u = t
    · subst hu
      exact hkept.delayed hd
    · exact h.delayed u (by simpa using hu) hd
  resumes u _ hd := by
    by_cases hu : u = t
    · subst hu
      exact hkept.resumes hd
    · exact h.resumes u (by simpa using hu) hd
  unique := h.unique
  linked u _ hlt hl := by
    by_cases hu : u = t
    · subst hu
      exact hkept.linked hlt hl
    · exact h.linked u (by simpa using hu) hlt hl
  waiters := h.waiters
  waitersNodup := h.waitersNodup
  donated u _ hlt hd := by
    by_cases hu : u = t
    · subst hu
      exact hkept.donated hlt hd
    · exact h.donated u (by simpa using hu) hlt hd
  waiting u _ hlt hw := by
    by_cases hu : u = t
    · subst hu
      exact hkept.waiting hlt hw
    · exact h.waiting u (by simpa using hu) hlt hw

theorem SoundBut.pairwise_of_notMem (h : SoundBut (some t) p) (ht : t ∉ p.eligibleThreads) :
    p.eligibleThreads.Pairwise p.Precedes := by
  have hall : ∀ u ∈ p.eligibleThreads, decide (some u ≠ some t) = true := by
    intro u hu
    have hne : u ≠ t := fun he => ht (he ▸ hu)
    simpa using hne
  rw [← List.filter_eq_self.mpr hall]
  exact h.order

theorem SameBut.refl (x : Option Nat) (p : ArincPartition) : SameBut x p p where
  mode := rfl
  used := rfl
  error := rfl
  eligibleThreads := rfl
  arrivals := rfl
  arrivedAt := rfl
  delayedEvents := rfl
  waiters := rfl
  waitElem _ := rfl
  state _ _ := rfl
  donator _ _ := rfl
  suspended _ _ := rfl
  priority _ _ := rfl
  delayedFunc _ _ := rfl

section Primitives

variable {f : SectionThread → SectionThread} {g : SchedThread → SchedThread}
  {e : ErrorThread → ErrorThread}

@[simp]
theorem updateThread_threads : (p.updateThread t f).threads =
    Function.update p.threads t (f (p.threads t)) := rfl

@[simp]
theorem updateSched_sched : (p.updateSched t g).sched =
    Function.update p.sched t (g (p.sched t)) := rfl

theorem threadCreate_threads : (p.threadCreate t).threads =
    Function.update p.threads t { SectionSystem.resetContext (p.threads t) with
      msectionCount := 0
      sharedEntering := none
      state := .stopped
      donateTarget := none
      firstDonator := none
      nextDonator := none
      msectionEntering := none } := rfl

theorem threadCreate_sched : (p.threadCreate t).sched =
    Function.update p.sched t { p.sched t with
      priority := (p.sched t).basePriority, suspended := false, waitElem := none } := rfl

theorem sameBut_updateThread
    (hf : some t ≠ x → (f (p.threads t)).state = (p.threads t).state ∧
      (f (p.threads t)).firstDonator = (p.threads t).firstDonator) :
    SameBut x p (p.updateThread t f) where
  __ := SameBut.refl x p
  state u hu := by
    by_cases h : u = t
    · subst h
      simp [(hf hu).1]
    · simp [Function.update_of_ne h]
  donator u hu := by
    by_cases h : u = t
    · subst h
      simp [(hf hu).2]
    · simp [Function.update_of_ne h]

theorem sameBut_updateSched (hw : (g (p.sched t)).waitElem = (p.sched t).waitElem)
    (hg : some t ≠ x → (g (p.sched t)).suspended = (p.sched t).suspended ∧
      (g (p.sched t)).priority = (p.sched t).priority ∧
      (g (p.sched t)).delayedFunc = (p.sched t).delayedFunc) :
    SameBut x p (p.updateSched t g) where
  __ := SameBut.refl x p
  waitElem u := by
    by_cases h : u = t
    · subst h
      simp [hw]
    · simp [Function.update_of_ne h]
  suspended u hu := by
    by_cases h : u = t
    · subst h
      simp [(hg hu).1]
    · simp [Function.update_of_ne h]
  priority u hu := by
    by_cases h : u = t
    · subst h
      simp [(hg hu).2.1]
    · simp [Function.update_of_ne h]
  delayedFunc u hu := by
    by_cases h : u = t
    · subst h
      simp [(hg hu).2.2]
    · simp [Function.update_of_ne h]

theorem sameBut_dropLock : SameBut x p (p.dropLock t) := by
  unfold dropLock
  split_ifs
  · exact { SameBut.refl x p with }
  · exact SameBut.refl x p

theorem sameBut_dropUnrecoverable : SameBut x p (p.dropUnrecoverable t) := by
  unfold dropUnrecoverable
  split_ifs
  · exact { SameBut.refl x p with }
  · exact SameBut.refl x p

end Primitives

/-! The timed events of a thread. -/

theorem active_delayedEventRemove {k : DelayedKind} :
    (p.delayedEventRemove t kind).DelayedEventActive u k ↔
      p.DelayedEventActive u k ∧ ¬ (u = t ∧ k = kind) := by
  simp only [DelayedEventActive, delayedEventRemove, List.mem_filter, decide_eq_true_eq]
  constructor
  · rintro ⟨e, ⟨he, hne⟩, rfl, rfl⟩
    exact ⟨⟨e, he, rfl, rfl⟩, hne⟩
  · rintro ⟨⟨e, he, rfl, rfl⟩, hne⟩
    exact ⟨e, ⟨he, hne⟩, rfl, rfl⟩

theorem mem_delayedEventAdd {event : DelayedEvent} :
    event ∈ (p.delayedEventAdd t kind time).delayedEvents ↔
      event = ⟨t, kind, time⟩ ∨ event ∈ (p.delayedEventRemove t kind).delayedEvents :=
  List.mem_orderedInsert _

theorem active_delayedEventAdd {k : DelayedKind} :
    (p.delayedEventAdd t kind time).DelayedEventActive u k ↔
      u = t ∧ k = kind ∨ p.DelayedEventActive u k := by
  have hsplit : (p.delayedEventAdd t kind time).DelayedEventActive u k ↔
      (t = u ∧ kind = k) ∨ (p.delayedEventRemove t kind).DelayedEventActive u k := by
    simp only [DelayedEventActive, mem_delayedEventAdd, or_and_right, exists_or, exists_eq_left]
  rw [hsplit, active_delayedEventRemove]
  by_cases h : u = t ∧ k = kind
  · simp [h]
  · have h' : ¬ (t = u ∧ kind = k) := fun he => h ⟨he.1.symm, he.2.symm⟩
    simp [h, h']

theorem unique_delayedEventRemove (h : (p.delayedEvents.map fun e => (e.thread, e.kind)).Nodup) :
    ((p.delayedEventRemove t kind).delayedEvents.map fun e => (e.thread, e.kind)).Nodup :=
  h.sublist (List.filter_sublist.map _)

theorem unique_delayedEventAdd (h : (p.delayedEvents.map fun e => (e.thread, e.kind)).Nodup) :
    ((p.delayedEventAdd t kind time).delayedEvents.map fun e => (e.thread, e.kind)).Nodup := by
  have hperm := (List.perm_orderedInsert
    (fun event other : DelayedEvent => event.timepoint < other.timepoint) ⟨t, kind, time⟩
    (p.delayedEventRemove t kind).delayedEvents).map fun e => (e.thread, e.kind)
  apply hperm.nodup_iff.mpr
  rw [List.map_cons, List.nodup_cons]
  constructor
  · intro hmem
    obtain ⟨e, he, heq⟩ := List.mem_map.mp hmem
    have hfree := (List.mem_filter.mp he).2
    simp only [Prod.mk.injEq] at heq
    simp [heq.1, heq.2] at hfree
  · exact unique_delayedEventRemove h

theorem SoundBut.delayedEventRemove (h : SoundBut x p) :
    SoundBut x (p.delayedEventRemove t kind) where
  nodup := h.nodup
  eligible := h.eligible
  order := h.order
  arrived := h.arrived
  delayed u hu hd := h.delayed u hu (active_delayedEventRemove.mp hd).1
  resumes u hu hd := h.resumes u hu (active_delayedEventRemove.mp hd).1
  unique := unique_delayedEventRemove h.unique
  linked := h.linked
  waiters := h.waiters
  waitersNodup := h.waitersNodup
  donated := h.donated
  waiting := h.waiting

theorem SoundBut.delayedEventAdd (h : SoundBut x p) (ht : kind = .delayed → some t = x) :
    SoundBut x (p.delayedEventAdd t kind time) where
  nodup := h.nodup
  eligible := h.eligible
  order := h.order
  arrived := h.arrived
  delayed u hu hd := by
    rcases active_delayedEventAdd.mp hd with ⟨rfl, hk⟩ | hd
    · exact absurd (ht hk.symm) hu
    · exact h.delayed u hu hd
  resumes u hu hd := by
    rcases active_delayedEventAdd.mp hd with ⟨rfl, hk⟩ | hd
    · exact absurd (ht hk.symm) hu
    · exact h.resumes u hu hd
  unique := unique_delayedEventAdd h.unique
  linked := h.linked
  waiters := h.waiters
  waitersNodup := h.waitersNodup
  donated := h.donated
  waiting := h.waiting

/-! The conditional functions, as one update each. -/

theorem invalidateIfFirst_eq : p.invalidateIfFirst t =
    { p with recheckNeeded := p.recheckNeeded || decide (p.eligibleThreads.head? = some t) } := by
  unfold invalidateIfFirst
  split_ifs with h
  · simp [h, localInvalidate, onSections, SectionSystem.invalidate]
  · simp [h]

theorem dropLock_eq : p.dropLock t =
    { p with
      lockLevel := if 0 < p.lockLevel ∧ p.threadLocked = t then 0 else p.lockLevel
      recheckNeeded := p.recheckNeeded || decide (0 < p.lockLevel ∧ p.threadLocked = t) } := by
  unfold dropLock
  split_ifs with h
  · simp [h, localInvalidate, onSections, SectionSystem.invalidate]
  · simp [h]

theorem dropUnrecoverable_eq : p.dropUnrecoverable t =
    { p with
      errors := (p.dropUnrecoverable t).errors
      nthreadsUnrecoverable := (p.dropUnrecoverable t).nthreadsUnrecoverable } := by
  unfold dropUnrecoverable
  split_ifs
  · rfl
  · rfl

theorem threadWqRemove_eq : p.threadWqRemove t =
    { p.updateSched t (fun th => { th with waitElem := none }) with
      waiters := (p.threadWqRemove t).waiters } := by
  cases hw : (p.sched t).waitElem with
  | none =>
    have hsame : { p.sched t with waitElem := none } = p.sched t := by rw [← hw]
    simp only [threadWqRemove, hw, updateSched, hsame, Function.update_eq_self]
  | some port => simp only [threadWqRemove, hw]

@[simp]
theorem invalidateIfFirst_threads : (p.invalidateIfFirst t).threads = p.threads := by
  rw [invalidateIfFirst_eq]

@[simp]
theorem invalidateIfFirst_sched : (p.invalidateIfFirst t).sched = p.sched := by
  rw [invalidateIfFirst_eq]

@[simp]
theorem invalidateIfFirst_eligibleThreads : (p.invalidateIfFirst t).eligibleThreads = p.eligibleThreads := by
  rw [invalidateIfFirst_eq]

@[simp]
theorem invalidateIfFirst_delayedEvents : (p.invalidateIfFirst t).delayedEvents = p.delayedEvents := by
  rw [invalidateIfFirst_eq]

@[simp]
theorem dropLock_threads : (p.dropLock t).threads = p.threads := by
  rw [dropLock_eq]

@[simp]
theorem dropLock_sched : (p.dropLock t).sched = p.sched := by
  rw [dropLock_eq]

@[simp]
theorem dropLock_eligibleThreads : (p.dropLock t).eligibleThreads = p.eligibleThreads := by
  rw [dropLock_eq]

@[simp]
theorem dropLock_delayedEvents : (p.dropLock t).delayedEvents = p.delayedEvents := by
  rw [dropLock_eq]

@[simp]
theorem dropUnrecoverable_threads : (p.dropUnrecoverable t).threads = p.threads := by
  rw [dropUnrecoverable_eq]

@[simp]
theorem dropUnrecoverable_sched : (p.dropUnrecoverable t).sched = p.sched := by
  rw [dropUnrecoverable_eq]

@[simp]
theorem dropUnrecoverable_eligibleThreads : (p.dropUnrecoverable t).eligibleThreads = p.eligibleThreads := by
  rw [dropUnrecoverable_eq]

@[simp]
theorem dropUnrecoverable_delayedEvents : (p.dropUnrecoverable t).delayedEvents = p.delayedEvents := by
  rw [dropUnrecoverable_eq]

@[simp]
theorem threadWqRemove_threads : (p.threadWqRemove t).threads = p.threads := by
  rw [threadWqRemove_eq]
  rfl

@[simp]
theorem threadWqRemove_eligibleThreads : (p.threadWqRemove t).eligibleThreads = p.eligibleThreads := by
  rw [threadWqRemove_eq]
  rfl

@[simp]
theorem threadWqRemove_delayedEvents : (p.threadWqRemove t).delayedEvents = p.delayedEvents := by
  rw [threadWqRemove_eq]
  rfl

@[simp]
theorem threadWqRemove_sched : (p.threadWqRemove t).sched =
    Function.update p.sched t { p.sched t with waitElem := none } := by
  rw [threadWqRemove_eq]
  rfl

theorem mem_waiters_threadWqRemove {port : Nat} (hnodup : (p.waiters port).Nodup)
    (hw : ∀ port, t ∈ p.waiters port → (p.sched t).waitElem = some port) :
    u ∈ (p.threadWqRemove t).waiters port ↔ u ∈ p.waiters port ∧ u ≠ t := by
  cases hp : (p.sched t).waitElem with
  | none =>
    simp only [threadWqRemove, hp]
    constructor
    · intro hu
      refine ⟨hu, ?_⟩
      rintro rfl
      rw [hw port hu] at hp
      cases hp
    · exact And.left
  | some port' =>
    simp only [threadWqRemove, hp]
    by_cases hport : port = port'
    · subst hport
      rw [Function.update_self, hnodup.mem_erase_iff]
      exact and_comm
    · rw [Function.update_of_ne hport]
      constructor
      · intro hu
        refine ⟨hu, ?_⟩
        rintro rfl
        rw [hw port hu] at hp
        exact hport (Option.some.inj hp)
      · exact And.left

theorem nodup_waiters_threadWqRemove {port : Nat} (h : (p.waiters port).Nodup) :
    ((p.threadWqRemove t).waiters port).Nodup := by
  cases hp : (p.sched t).waitElem with
  | none => simpa only [threadWqRemove, hp] using h
  | some port' =>
    simp only [threadWqRemove, hp]
    by_cases hport : port = port'
    · subst hport
      rw [Function.update_self]
      exact h.erase _
    · rwa [Function.update_of_ne hport]

theorem SoundBut.threadWqRemove (h : SoundBut (some t) p) : SoundBut (some t) (p.threadWqRemove t) where
  nodup := by rw [threadWqRemove_eq]; exact h.nodup
  eligible u hu := by
    have hne : u ≠ t := by simpa using hu
    have hsame : (p.threadWqRemove t).Eligible u ↔ p.Eligible u := by
      rw [threadWqRemove_eq]
      apply eligible_congr
      · rfl
      · rfl
      · rfl
      · simp only [updateSched_sched, Function.update_of_ne hne]
    rw [hsame, threadWqRemove_eq]
    exact h.eligible u hu
  order := by
    rw [threadWqRemove_eq]
    apply h.order.imp_of_mem
    intro a b ha hb hab
    have hat : a ≠ t := by simpa using (List.mem_filter.mp ha).2
    have hbt : b ≠ t := by simpa using (List.mem_filter.mp hb).2
    simp only [Precedes, updateSched_sched, Function.update_of_ne hat, Function.update_of_ne hbt]
    exact hab
  arrived := by rw [threadWqRemove_eq]; exact h.arrived
  delayed u hu := by rw [threadWqRemove_eq]; exact h.delayed u hu
  resumes u hu hd hf := by
    have hne : u ≠ t := by simpa using hu
    rw [threadWqRemove_sched, Function.update_of_ne hne] at hf ⊢
    rw [threadWqRemove_eq] at hd
    exact h.resumes u hu hd hf
  unique := by rw [threadWqRemove_eq]; exact h.unique
  linked u hu hlt hl := by
    have hne : u ≠ t := by simpa using hu
    rw [threadWqRemove_eq] at hlt hl ⊢
    simp only [updateSched_sched, Function.update_of_ne hne] at hl
    exact h.linked u hu hlt hl
  waiters port u := by
    rw [mem_waiters_threadWqRemove (h.waitersNodup port)
      fun port ht => ((h.waiters port t).mp ht).2, h.waiters]
    rw [threadWqRemove_eq]
    by_cases hu : u = t
    · simp [hu]
    · simp [hu, updateSched]
  waitersNodup port := nodup_waiters_threadWqRemove (h.waitersNodup port)
  donated u hu := by rw [threadWqRemove_eq]; exact h.donated u hu
  waiting u hu := by rw [threadWqRemove_eq]; exact h.waiting u hu

theorem SoundBut.threadSetUneligible (h : SoundBut (some t) p) :
    SoundBut (some t) (p.threadSetUneligible t) where
  nodup := h.nodup.erase t
  eligible u hu := by
    have hne : u ≠ t := by simpa using hu
    rw [ArincPartition.threadSetUneligible, invalidateIfFirst_eq]
    simpa [Eligible, SectionSystem.HasThread, List.mem_erase_of_ne hne] using h.eligible u hu
  order := by
    rw [ArincPartition.threadSetUneligible, invalidateIfFirst_eq]
    exact h.order.sublist (List.erase_sublist.filter _)
  arrived u hu := by
    rw [ArincPartition.threadSetUneligible, invalidateIfFirst_eq] at hu ⊢
    exact h.arrived u (List.mem_of_mem_erase hu)
  delayed u hu := by
    rw [ArincPartition.threadSetUneligible, invalidateIfFirst_eq]
    exact h.delayed u hu
  resumes u hu := by
    rw [ArincPartition.threadSetUneligible, invalidateIfFirst_eq]
    exact h.resumes u hu
  unique := by
    rw [ArincPartition.threadSetUneligible, invalidateIfFirst_eq]
    exact h.unique
  linked u hu := by
    rw [ArincPartition.threadSetUneligible, invalidateIfFirst_eq]
    exact h.linked u hu
  waiters port u := by
    rw [ArincPartition.threadSetUneligible, invalidateIfFirst_eq]
    exact h.waiters port u
  waitersNodup port := by
    rw [ArincPartition.threadSetUneligible, invalidateIfFirst_eq]
    exact h.waitersNodup port
  donated u hu := by
    rw [ArincPartition.threadSetUneligible, invalidateIfFirst_eq]
    exact h.donated u hu
  waiting u hu := by
    rw [ArincPartition.threadSetUneligible, invalidateIfFirst_eq]
    exact h.waiting u hu

theorem notMem_threadSetUneligible (h : p.eligibleThreads.Nodup) :
    t ∉ (p.threadSetUneligible t).eligibleThreads := by
  intro ht
  exact h.not_mem_erase ht

/-- The events are in the order of their times. -/
def OrderedEvents (p : ArincPartition) : Prop :=
  p.delayedEvents.Pairwise fun e later => e.timepoint ≤ later.timepoint

theorem ordered_delayedEventRemove (h : p.OrderedEvents) :
    (p.delayedEventRemove t kind).OrderedEvents :=
  List.Pairwise.filter _ h

theorem ordered_delayedEventAdd (h : p.OrderedEvents) :
    (p.delayedEventAdd t kind time).OrderedEvents := by
  apply PriorityInsert.pairwise (ordered_delayedEventRemove h)
  · exact fun _ _ hlt => Int.le_of_lt hlt
  · exact fun _ _ hnot => Int.not_lt.mp hnot
  · exact fun _ _ _ _ hab hbc => Int.le_trans hab hbc

/-- A thread has at most one timed event of each kind. -/
def UniqueEvents (p : ArincPartition) : Prop :=
  (p.delayedEvents.map fun e => (e.thread, e.kind)).Nodup

/-- What concerns the release of the thread `t` is left alone. -/
structure Apart (t : Nat) (p q : ArincPartition) : Prop where
  thread : q.threads t = p.threads t
  sched : q.sched t = p.sched t
  events : ∀ e : DelayedEvent, e.thread = t → (e ∈ q.delayedEvents ↔ e ∈ p.delayedEvents)

theorem Apart.refl (t : Nat) (p : ArincPartition) : Apart t p p :=
  ⟨rfl, rfl, fun _ _ => Iff.rfl⟩

theorem Apart.trans {r : ArincPartition} (h : Apart t p q) (h' : Apart t q r) : Apart t p r where
  thread := h'.thread.trans h.thread
  sched := h'.sched.trans h.sched
  events e he := (h'.events e he).trans (h.events e he)

/-- A function of `thread_internal.c` that moves the thread `t` and nothing else. Where it
changes what the scheduler would choose, it has the choice rechecked. -/
structure Moves (t : Nat) (p q : ArincPartition) : Prop where
  sound : SoundBut (some t) p → SoundBut (some t) q
  mode : q.mode = p.mode
  used : q.nthreadsUsed = p.nthreadsUsed
  error : q.threadError = p.threadError
  current : q.threadCurrent = p.threadCurrent
  selected : q.threadSelected = p.threadSelected
  locked : q.threadLocked = p.threadLocked
  errorList : q.errorList = p.errorList
  handler : q.isErrorHandler = p.isErrorHandler
  bits : ∀ u, (q.errors u).errorBits = (p.errors u).errorBits
  log : q.errorLog = p.errorLog
  threads : ∀ u, u ≠ t → q.threads u = p.threads u
  target : (q.threads t).donateTarget = (p.threads t).donateTarget
  firstDonator : (q.threads t).firstDonator = (p.threads t).firstDonator
  nextDonator : (q.threads t).nextDonator = (p.threads t).nextDonator
  count : (q.threads t).msectionCount = (p.threads t).msectionCount
  entering : (q.threads t).msectionEntering = (p.threads t).msectionEntering ∨
    (q.threads t).msectionEntering = none
  deadline : ∀ u, q.DelayedEventActive u .deadline → p.DelayedEventActive u .deadline
  unique : p.UniqueEvents → q.UniqueEvents
  ordered : p.OrderedEvents → q.OrderedEvents
  times : ∀ u, (q.sched u).times = (p.sched u).times
  apart : ∀ u, u ≠ t → Apart u p q
  recheck : p.recheckNeeded = true → q.recheckNeeded = true
  head : q.recheckNeeded = true ∨ q.eligibleThreads.head? = p.eligibleThreads.head?
  lock : q.lockLevel = p.lockLevel ∨
    q.lockLevel = 0 ∧ q.recheckNeeded = true ∧ p.threadLocked = t

theorem Moves.refl (t : Nat) (p : ArincPartition) : Moves t p p where
  sound h := h
  mode := rfl
  used := rfl
  error := rfl
  current := rfl
  selected := rfl
  locked := rfl
  errorList := rfl
  handler := rfl
  bits _ := rfl
  log := rfl
  threads _ _ := rfl
  target := rfl
  firstDonator := rfl
  nextDonator := rfl
  count := rfl
  entering := Or.inl rfl
  deadline _ h := h
  unique h := h
  ordered h := h
  times _ := rfl
  apart u _ := Apart.refl u p
  recheck h := h
  head := Or.inr rfl
  lock := Or.inl rfl

theorem Moves.trans {r : ArincPartition} (h : Moves t p q) (h' : Moves t q r) : Moves t p r where
  sound hp := h'.sound (h.sound hp)
  mode := h'.mode.trans h.mode
  used := h'.used.trans h.used
  error := h'.error.trans h.error
  current := h'.current.trans h.current
  selected := h'.selected.trans h.selected
  locked := h'.locked.trans h.locked
  errorList := h'.errorList.trans h.errorList
  handler := h'.handler.trans h.handler
  bits u := (h'.bits u).trans (h.bits u)
  log := h'.log.trans h.log
  threads u hu := (h'.threads u hu).trans (h.threads u hu)
  target := h'.target.trans h.target
  firstDonator := h'.firstDonator.trans h.firstDonator
  nextDonator := h'.nextDonator.trans h.nextDonator
  count := h'.count.trans h.count
  entering := by
    rcases h'.entering with he | he
    · rw [he]
      exact h.entering
    · exact Or.inr he
  deadline u hu := h.deadline u (h'.deadline u hu)
  unique hp := h'.unique (h.unique hp)
  ordered hp := h'.ordered (h.ordered hp)
  times u := (h'.times u).trans (h.times u)
  apart u hu := (h.apart u hu).trans (h'.apart u hu)
  recheck hp := h'.recheck (h.recheck hp)
  head := by
    rcases h'.head with hr | hr
    · exact Or.inl hr
    · rcases h.head with hq | hq
      · exact Or.inl (h'.recheck hq)
      · exact Or.inr (hr.trans hq)
  lock := by
    rcases h'.lock with hr | ⟨hr, hn, ht⟩
    · rcases h.lock with hq | ⟨hq, hn, ht⟩
      · exact Or.inl (hr.trans hq)
      · exact Or.inr ⟨hr.trans hq, h'.recheck hn, ht⟩
    · exact Or.inr ⟨hr, hn, h.locked ▸ ht⟩

theorem Moves.hasThread (h : Moves t p q) : q.HasThread u ↔ p.HasThread u := by
  simp only [SectionSystem.HasThread, h.used, h.error]

section Primitives

variable {state : ThreadState} {waitResult : WaitResult} {suspended : Bool} {time : Int}
  {delayedFunc : DelayedFunc}

theorem apart_updateThread {f : SectionThread → SectionThread} (hu : u ≠ t) :
    Apart u p (p.updateThread t f) where
  __ := Apart.refl u p
  thread := by simp [Function.update_of_ne hu]

theorem apart_updateSched {g : SchedThread → SchedThread} (hu : u ≠ t) :
    Apart u p (p.updateSched t g) where
  __ := Apart.refl u p
  sched := by rw [updateSched_sched, Function.update_of_ne hu]

theorem apart_delayedEventRemove (hu : u ≠ t) : Apart u p (p.delayedEventRemove t kind) where
  __ := Apart.refl u p
  events e he := by
    have hne : e.thread ≠ t := he ▸ hu
    simp [delayedEventRemove, hne]

theorem apart_delayedEventAdd (hu : u ≠ t) : Apart u p (p.delayedEventAdd t kind time) where
  __ := Apart.refl u p
  events e he := by
    rw [mem_delayedEventAdd, (apart_delayedEventRemove hu).events e he, or_iff_right]
    rintro rfl
    exact hu he.symm

theorem moves_setState : Moves t p (p.setState t state) where
  __ := Moves.refl t p
  sound h := h.same (sameBut_updateThread (by simp))
  threads u hu := by simp [setState, Function.update_of_ne hu]
  apart u hu := apart_updateThread hu
  target := by simp [setState]
  firstDonator := by simp [setState]
  nextDonator := by simp [setState]
  count := by simp [setState]
  entering := Or.inl (by simp [setState])

theorem moves_setWaitResult : Moves t p (p.setWaitResult t waitResult) where
  __ := Moves.refl t p
  sound h := h.same (sameBut_updateThread (by simp))
  threads u hu := by simp [setWaitResult, Function.update_of_ne hu]
  apart u hu := apart_updateThread hu
  target := by simp [setWaitResult]
  firstDonator := by simp [setWaitResult]
  nextDonator := by simp [setWaitResult]
  count := by simp [setWaitResult]
  entering := Or.inl (by simp [setWaitResult])

theorem moves_leaveEntering :
    Moves t p (p.updateThread t fun th => { th with msectionEntering := none }) where
  __ := Moves.refl t p
  sound h := h.same (sameBut_updateThread (by simp))
  threads u hu := by simp [Function.update_of_ne hu]
  apart u hu := apart_updateThread hu
  target := by simp
  firstDonator := by simp
  nextDonator := by simp
  count := by simp
  entering := Or.inr (by simp)

theorem updateSched_times {g : SchedThread → SchedThread}
    (hg : (g (p.sched t)).times = (p.sched t).times) (u : Nat) :
    ((p.updateSched t g).sched u).times = (p.sched u).times := by
  rw [updateSched_sched]
  by_cases hu : u = t
  · subst hu
    rw [Function.update_self, hg]
  · rw [Function.update_of_ne hu]

theorem moves_updateSched {g : SchedThread → SchedThread}
    (hg : (g (p.sched t)).waitElem = (p.sched t).waitElem)
    (htimes : (g (p.sched t)).times = (p.sched t).times) : Moves t p (p.updateSched t g) where
  __ := Moves.refl t p
  sound h := h.same (sameBut_updateSched hg (by simp))
  times := updateSched_times htimes
  apart u hu := apart_updateSched hu

theorem moves_threadSetUneligible : Moves t p (p.threadSetUneligible t) := by
  unfold threadSetUneligible
  rw [invalidateIfFirst_eq]
  exact {
    Moves.refl t p with
    sound := by
      intro h
      have := h.threadSetUneligible
      rwa [threadSetUneligible, invalidateIfFirst_eq] at this
    apart := fun _ _ => ⟨rfl, rfl, fun _ _ => Iff.rfl⟩
    recheck := by
      intro h
      simp [h]
    head := by
      by_cases hfirst : p.eligibleThreads.head? = some t
      · simp [hfirst]
      · right
        cases hl : p.eligibleThreads with
        | nil => rfl
        | cons u rest =>
          have hut : u ≠ t := by simpa [hl] using hfirst
          rw [List.erase_cons_tail (by simpa using hut)]
          rfl
    lock := Or.inl rfl }

theorem moves_delayedEventRemove : Moves t p (p.delayedEventRemove t kind) where
  __ := Moves.refl t p
  sound h := h.delayedEventRemove
  deadline _ h := (active_delayedEventRemove.mp h).1
  unique h := unique_delayedEventRemove h
  ordered h := ordered_delayedEventRemove h
  apart _ hu := apart_delayedEventRemove hu

theorem moves_delayedEventAdd : Moves t p (p.delayedEventAdd t .delayed time) where
  __ := Moves.refl t p
  sound h := h.delayedEventAdd fun _ => rfl
  deadline _ h := by
    rcases active_delayedEventAdd.mp h with ⟨-, hk⟩ | h
    · cases hk
    · exact h
  unique h := unique_delayedEventAdd h
  ordered h := ordered_delayedEventAdd h
  apart u hu := apart_delayedEventAdd hu

theorem moves_threadWqRemove : Moves t p (p.threadWqRemove t) := by
  have hsound : SoundBut (some t) p → SoundBut (some t) (p.threadWqRemove t) :=
    SoundBut.threadWqRemove
  have htimes : ∀ u, ((p.threadWqRemove t).sched u).times = (p.sched u).times := by
    rw [threadWqRemove_sched]
    exact updateSched_times (g := fun th => { th with waitElem := none }) rfl
  have hapart : ∀ u, u ≠ t → Apart u p (p.threadWqRemove t) := by
    intro u hu
    refine ⟨by simp, ?_, fun _ _ => by simp⟩
    rw [threadWqRemove_sched, Function.update_of_ne hu]
  rw [threadWqRemove_eq] at hsound htimes hapart ⊢
  exact { Moves.refl t p with sound := hsound, times := htimes, apart := hapart }

theorem moves_dropLock : Moves t p (p.dropLock t) := by
  have hsound : SoundBut (some t) p → SoundBut (some t) (p.dropLock t) :=
    fun h => h.same sameBut_dropLock
  rw [dropLock_eq] at hsound ⊢
  exact {
    Moves.refl t p with
    sound := hsound
    apart := fun _ _ => ⟨rfl, rfl, fun _ _ => Iff.rfl⟩
    recheck := by
      intro h
      simp [h]
    head := Or.inr rfl
    lock := by
      by_cases hlock : 0 < p.lockLevel ∧ p.threadLocked = t
      · right
        simp [hlock]
      · left
        simp [hlock] }

theorem moves_dropUnrecoverable : Moves t p (p.dropUnrecoverable t) := by
  have hsound : SoundBut (some t) p → SoundBut (some t) (p.dropUnrecoverable t) :=
    fun h => h.same sameBut_dropUnrecoverable
  have hbits : ∀ u, ((p.dropUnrecoverable t).errors u).errorBits = (p.errors u).errorBits := by
    intro u
    unfold dropUnrecoverable
    split_ifs
    · by_cases hu : u = t
      · subst hu
        simp [updateErrors]
      · simp [updateErrors, Function.update_of_ne hu]
    · rfl
  rw [dropUnrecoverable_eq] at hsound ⊢
  exact {
    Moves.refl t p with
    sound := hsound
    bits := hbits
    apart := fun _ _ => ⟨rfl, rfl, fun _ _ => Iff.rfl⟩ }

theorem filter_insertByPriority {priority : Nat → Nat} {l : List Nat} :
    (insertByPriority priority t l).filter (fun u => some u ≠ some t) =
      l.filter fun u => some u ≠ some t := by
  induction l with
  | nil => simp [insertByPriority]
  | cons a l ih =>
    simp only [insertByPriority, List.orderedInsert_cons] at ih ⊢
    split_ifs
    · simp
    · rw [List.filter_cons, ih, List.filter_cons]

/-- The thread is inserted behind its equals. -/
theorem moves_threadSetEligible (h : p.threadSetEligible t = .ok q) : Moves t p q := by
  unfold threadSetEligible at h
  split_ifs at h with hguard
  obtain rfl := Except.ok.inj h
  rw [invalidateIfFirst_eq]
  have hne : ∀ u ∈ p.eligibleThreads, u ≠ t := fun u hu he => hguard.2 (he ▸ hu)
  exact {
    Moves.refl t p with
    sound := fun hs => {
      hs with
      nodup := PriorityInsert.nodup hs.nodup hguard.2
      eligible := by
        intro u hu
        have hut : u ≠ t := by simpa using hu
        refine Iff.trans ?_ (hs.eligible u hu)
        refine (List.mem_orderedInsert _).trans ?_
        rw [or_iff_right hut]
      order := by
        rw [filter_insertByPriority]
        apply hs.order.imp_of_mem
        intro a b ha hb hab
        have hat : a ≠ t := by simpa using (List.mem_filter.mp ha).2
        have hbt : b ≠ t := by simpa using (List.mem_filter.mp hb).2
        simpa only [Precedes, Function.update_of_ne hat, Function.update_of_ne hbt] using hab
      arrived := by
        intro u hu
        rcases (List.mem_orderedInsert _).mp hu with rfl | hu
        · simp
        · have harrived := hs.arrived u hu
          simp only [Function.update_of_ne (hne u hu)]
          omega }
    apart := fun _ _ => ⟨rfl, rfl, fun _ _ => Iff.rfl⟩
    recheck := by
      intro hr
      simp [hr]
    head := by
      by_cases hfirst : (insertByPriority (fun u => (p.sched u).priority) t
          p.eligibleThreads).head? = some t
      · left
        simp [hfirst]
      · right
        cases hl : p.eligibleThreads with
        | nil => simp [hl, insertByPriority] at hfirst
        | cons u rest =>
          simp only [hl, insertByPriority, List.orderedInsert_cons] at hfirst ⊢
          split_ifs at hfirst ⊢
          · simp at hfirst
          · rfl
    lock := Or.inl rfl }

theorem moves_threadDelayEvent : Moves t p (p.threadDelayEvent t time delayedFunc) :=
  (moves_updateSched rfl rfl).trans moves_delayedEventAdd

theorem moves_cancelWait : Moves t p (p.cancelWait t) := by
  unfold cancelWait
  split_ifs
  · exact moves_threadWqRemove.trans moves_setWaitResult
  · exact moves_setWaitResult
  · exact Moves.refl t p

end Primitives

end ArincPartition

end Chpok
