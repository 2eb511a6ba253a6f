import Chpok.Kernel.ThreadsUsed

/-! What the calls that take the identifier of a thread leave alone: all other threads, but for
the caller, which may begin to wait for the thread to stop. -/

namespace Chpok

namespace ArincPartition

open Outcome

variable {p q r : ArincPartition} {t u c : Nat} {kind : DelayedKind} {time : Int}

/-- Only the thread `t` is changed. -/
structure Confined (t : Nat) (p q : ArincPartition) : Prop where
  used : q.nthreadsUsed = p.nthreadsUsed
  error : q.threadError = p.threadError
  mode : q.mode = p.mode
  threads : ∀ u, u ≠ t → q.threads u = p.threads u
  sched : ∀ u, u ≠ t → q.sched u = p.sched u
  events : ∀ e : DelayedEvent, e.thread ≠ t → (e ∈ q.delayedEvents ↔ e ∈ p.delayedEvents)
  eligible : ∀ u, u ≠ t → (u ∈ q.eligibleThreads ↔ u ∈ p.eligibleThreads)

/-- Only the thread `t` is changed, and the caller `c` in whom it waits for. -/
structure ActsOn (c t : Nat) (p q : ArincPartition) : Prop where
  used : q.nthreadsUsed = p.nthreadsUsed
  error : q.threadError = p.threadError
  mode : q.mode = p.mode
  threads : ∀ u, u ≠ t → u ≠ c → q.threads u = p.threads u
  caller : c ≠ t → q.threads c = { p.threads c with
    donateTarget := (q.threads c).donateTarget, nextDonator := (q.threads c).nextDonator }
  sched : ∀ u, u ≠ t → q.sched u = p.sched u
  events : ∀ e : DelayedEvent, e.thread ≠ t → (e ∈ q.delayedEvents ↔ e ∈ p.delayedEvents)
  eligible : ∀ u, u ≠ t → (u ∈ q.eligibleThreads ↔ u ∈ p.eligibleThreads)

theorem Confined.refl (t : Nat) (p : ArincPartition) : Confined t p p :=
  ⟨rfl, rfl, rfl, fun _ _ => rfl, fun _ _ => rfl, fun _ _ => Iff.rfl, fun _ _ => Iff.rfl⟩

theorem Confined.trans (h : Confined t p q) (h' : Confined t q r) : Confined t p r where
  used := h'.used.trans h.used
  error := h'.error.trans h.error
  mode := h'.mode.trans h.mode
  threads u hu := (h'.threads u hu).trans (h.threads u hu)
  sched u hu := (h'.sched u hu).trans (h.sched u hu)
  events e he := (h'.events e he).trans (h.events e he)
  eligible u hu := (h'.eligible u hu).trans (h.eligible u hu)

theorem Confined.actsOn (h : Confined t p q) (c : Nat) : ActsOn c t p q where
  used := h.used
  error := h.error
  mode := h.mode
  threads u hu _ := h.threads u hu
  caller hc := by rw [h.threads c hc]
  sched := h.sched
  events := h.events
  eligible := h.eligible

theorem Confined.donate {target : Nat} {next : Option Nat} (h : Confined t p q) :
    ActsOn c t p (q.donate c target next) where
  used := h.used
  error := h.error
  mode := h.mode
  threads u hu hc := by
    exact (Function.update_of_ne hc ..).trans (h.threads u hu)
  caller hc := by
    have hself : (q.donate c target next).threads c = { q.threads c with
        donateTarget := some target, nextDonator := next } := Function.update_self ..
    rw [hself, h.threads c hc]
  sched := h.sched
  events := h.events
  eligible := h.eligible

theorem ActsOn.localInvalidate (h : ActsOn c t p q) : ActsOn c t p q.localInvalidate :=
  ⟨h.used, h.error, h.mode, h.threads, h.caller, h.sched, h.events, h.eligible⟩

theorem Moves.confined (h : Moves t p q)
    (heligible : ∀ u, u ≠ t → (u ∈ q.eligibleThreads ↔ u ∈ p.eligibleThreads)) :
    Confined t p q where
  used := h.used
  error := h.error
  mode := h.mode
  threads := h.threads
  sched u hu := (h.apart u hu).sched
  events e he := (h.apart e.thread he).events e rfl
  eligible := heligible

theorem Moves.confined_of_eq (h : Moves t p q) (heligible : q.eligibleThreads = p.eligibleThreads) :
    Confined t p q :=
  h.confined fun _ _ => by rw [heligible]

theorem confined_updateThread {f : SectionThread → SectionThread} :
    Confined t p (p.updateThread t f) where
  __ := Confined.refl t p
  threads _ hu := (apart_updateThread hu).thread

theorem confined_updateSched {g : SchedThread → SchedThread} :
    Confined t p (p.updateSched t g) where
  __ := Confined.refl t p
  sched _ hu := (apart_updateSched hu).sched

theorem confined_delayedEventAdd : Confined t p (p.delayedEventAdd t kind time) where
  __ := Confined.refl t p
  events e he := (apart_delayedEventAdd he).events e rfl

theorem confined_delayedEventRemove : Confined t p (p.delayedEventRemove t kind) where
  __ := Confined.refl t p
  events e he := (apart_delayedEventRemove he).events e rfl

theorem confined_threadSetUneligible : Confined t p (p.threadSetUneligible t) := by
  refine moves_threadSetUneligible.confined fun u hu => ?_
  exact List.mem_erase_of_ne hu

theorem confined_threadSetEligible (h : p.threadSetEligible t = .ok q) : Confined t p q := by
  refine (moves_threadSetEligible h).confined fun u hu => ?_
  unfold threadSetEligible at h
  split_ifs at h
  obtain rfl := Except.ok.inj h
  rw [invalidateIfFirst_eligibleThreads]
  change u ∈ List.orderedInsert _ t p.eligibleThreads ↔ _
  rw [List.mem_orderedInsert, or_iff_right hu]

theorem confined_setEligibleUnlessSuspended (h : p.setEligibleUnlessSuspended t = .ok q) :
    Confined t p q := by
  unfold setEligibleUnlessSuspended at h
  split_ifs at h
  · obtain rfl := Except.ok.inj h
    exact Confined.refl t p
  · exact confined_threadSetEligible h

theorem confined_threadYield (h : p.threadYield t = .ok q) : Confined t p q := by
  unfold threadYield at h
  split_ifs at h
  · exact confined_threadSetUneligible.trans (confined_threadSetEligible h)
  · obtain rfl := Except.ok.inj h
    exact Confined.refl t p

theorem confined_threadStop (h : p.threadStop t = .ok q) : Confined t p q := by
  unfold threadStop at h
  split_ifs at h
  obtain rfl := Except.ok.inj h
  have hwq {p : ArincPartition} : Confined t p (p.threadWqRemove t) :=
    moves_threadWqRemove.confined_of_eq threadWqRemove_eligibleThreads
  have hlock {p : ArincPartition} : Confined t p (p.dropLock t) :=
    moves_dropLock.confined_of_eq dropLock_eligibleThreads
  have herror {p : ArincPartition} : Confined t p (p.dropUnrecoverable t) :=
    moves_dropUnrecoverable.confined_of_eq dropUnrecoverable_eligibleThreads
  exact ((((((confined_updateThread.trans confined_threadSetUneligible).trans
    confined_delayedEventRemove).trans confined_delayedEventRemove).trans hwq).trans
      hlock).trans herror).trans confined_updateThread

theorem confined_threadWaitTimed (h : p.threadWaitTimed t time = .ok q) : Confined t p q := by
  unfold threadWaitTimed threadWait at h
  split_ifs at h
  · obtain rfl := Except.ok.inj h
    exact ((confined_updateThread.trans confined_threadSetUneligible).trans
      confined_updateSched).trans confined_delayedEventAdd
  · cases h

theorem confined_threadWakeUp (h : p.threadWakeUp t = .ok q) : Confined t p q := by
  unfold threadWakeUp at h
  split_ifs at h
  have hcancel {p : ArincPartition} : Confined t p (p.cancelWait t) :=
    moves_cancelWait.confined_of_eq cancelWait_eligibleThreads
  exact ((confined_updateThread.trans confined_delayedEventRemove).trans hcancel).trans
    (confined_setEligibleUnlessSuspended h)

theorem confined_threadResume (h : p.threadResume t = .ok q) : Confined t p q := by
  unfold threadResume at h
  dsimp only at h
  set resumed := if p.DelayedEventActive t .delayed ∧ (p.sched t).delayedFunc = .resumeWaited then
      (((p.setSuspended t false).setState t .runnable).threadDelayEventCancel t).setWaitResult t .ok
    else p.setSuspended t false with hdef
  have hresumed : Confined t p resumed := by
    rw [hdef]
    split_ifs
    · exact ((confined_updateSched.trans confined_updateThread).trans
        confined_delayedEventRemove).trans confined_updateThread
    · exact confined_updateSched
  split_ifs at h
  · exact hresumed.trans (confined_threadSetEligible h)
  · obtain rfl := Except.ok.inj h
    exact hresumed

theorem confined_interruptWait (h : p.interruptWait t = .ok q) : Confined t p q := by
  unfold interruptWait at h
  split_ifs at h
  · cases hw : p.threadWakeUp t with
    | error exit =>
      rw [hw] at h
      cases h
    | ok r =>
      rw [hw] at h
      obtain rfl := Except.ok.inj h
      exact (confined_threadWakeUp hw).trans confined_updateThread
  · obtain rfl := Except.ok.inj h
    exact Confined.refl t p

end ArincPartition

end Chpok
