import Chpok.Kernel.EligibleQueue
import Chpok.Kernel.FastReturn
import Chpok.Kernel.HolderCalls

/-! The preemption lock in every run of a partition. As long as the lock is moved by the processes
that the scheduler has chosen, and system calls are made by runnable processes, the lock level is
what its holder has locked, and the holder may run. -/

namespace Chpok

namespace ArincPartition

open Outcome

variable {p q r : ArincPartition} {t u c : Nat} {hm : PartitionHm} {balance : Nat → Int}

/-! The lock and its holder -/

/-- The lock level is what the holder of the lock has locked. The holder is a process that may
run. -/
structure Held (p : ArincPartition) (balance : Nat → Int) : Prop where
  level : p.lockLevel ≤ maxLockLevel
  counted : 0 < p.lockLevel → (p.lockLevel : Int) = balance p.threadLocked
  process : 0 < p.lockLevel → p.HasThread p.threadLocked
  holder : 0 < p.lockLevel → p.Unblocked p.threadLocked

theorem held_of_unlocked (h : p.lockLevel = 0) : Held p balance where
  level := by omega
  counted hl := by omega
  process hl := by omega
  holder hl := by omega

theorem HolderFrame.held (hk : HolderFrame p q) (hthread : ∀ u, p.HasThread u → q.HasThread u)
    (h : Held p balance) : Held q balance := by
  by_cases hq : q.lockLevel = 0
  · exact held_of_unlocked hq
  have hp : 0 < p.lockLevel := Nat.pos_of_ne_zero fun hp => hq (hk.unlocked hp)
  obtain ⟨hlock, hlocked, hblocked⟩ := (hk.holder hp (h.holder hp)).resolve_left fun hd => hq hd.1
  refine ⟨hlock ▸ h.level, fun _ => ?_, fun _ => ?_, fun _ => hblocked⟩
  · rw [hlock, hlocked]
    exact h.counted hp
  · rw [hlocked]
    exact hthread _ (h.process hp)

theorem Rescheduled.held (hr : Rescheduled p q) (hthread : ∀ u, p.HasThread u → q.HasThread u)
    (h : Held p balance) : Held q balance where
  level := hr.lockLevel ▸ h.level
  counted hl := by
    rw [hr.lockLevel] at hl ⊢
    rw [hr.threadLocked]
    exact h.counted hl
  process hl := by
    rw [hr.lockLevel] at hl
    rw [hr.threadLocked]
    exact hthread _ (h.process hl)
  holder hl := by
    rw [hr.lockLevel] at hl
    rw [hr.threadLocked]
    exact hr.unblocked _ (h.holder hl)

theorem SameThreads.hasThread (h : SameThreads p q) (u : Nat) (hu : p.HasThread u) :
    q.HasThread u := by
  rwa [SectionSystem.HasThread, h.used, h.error]

theorem Grows.hasThread {call : ArincCall} {r : ArincPartition × PokErrno} (h : Grows p call r)
    (u : Nat) (hu : p.HasThread u) : r.1.HasThread u := by
  obtain ⟨hpos, hlt, hne⟩ := hu
  cases call with
  | create =>
    rw [Grows] at h
    split_ifs at h
    · exact ⟨hpos, by omega, by rw [h.2]; exact hne⟩
    · exact h.hasThread u ⟨hpos, hlt, hne⟩
  | createError =>
    obtain hsame | ⟨hnone, hused, herror⟩ := h
    · exact hsame.hasThread u ⟨hpos, hlt, hne⟩
    · refine ⟨hpos, by omega, ?_⟩
      rw [herror, ne_eq, Option.some.injEq]
      omega
  | _ => exact SameThreads.hasThread h u ⟨hpos, hlt, hne⟩

/-! LOCK_PREEMPTION and UNLOCK_PREEMPTION -/

/-- The process that the scheduler has chosen, and that may move the lock, holds the lock or may
take it. -/
structure Mover (p : ArincPartition) (c : Nat) : Prop where
  locked : 0 < p.lockLevel → p.threadLocked = c
  process : p.lockLevel = 0 → p.HasThread c
  unblocked : p.lockLevel = 0 → p.Unblocked c

theorem Cached.mover (h : Cached p) (hlists : ListsSound p) (hr : p.recheckNeeded = false)
    (hblocked : ¬ p.IsLockLevelBlocked c) (hselected : p.threadSelected = some c) : p.Mover c := by
  obtain ⟨hmode, hne⟩ : p.mode = .normal ∧ p.threadError ≠ some c := by
    simpa [IsLockLevelBlocked] using hblocked
  obtain ⟨-, -, hrule⟩ := h.chosen hmode hr hselected hne
  have hfree (hl : p.lockLevel = 0) : p.Eligible c := by
    rw [normalRule, if_neg (by omega)] at hrule
    exact (hlists.sound.eligible c (by simp)).mp (List.mem_of_head? hrule)
  refine ⟨fun hl => ?_, fun hl => (hfree hl).2.1, fun hl => (hfree hl).2.2⟩
  rw [normalRule, if_pos hl] at hrule
  exact Option.some.inj hrule

theorem Held.lock (h : Held p balance) (hzero : p.lockLevel = 0 → balance = 0)
    (hmover : p.Mover c) (hmax : p.lockLevel ≠ maxLockLevel) :
    Held { p with lockLevel := p.lockLevel + 1, threadLocked := c }
      (Function.update balance c (balance c + 1)) := by
  have hfree : p.lockLevel = 0 ∨ 0 < p.lockLevel ∧ p.threadLocked = c := by
    by_cases hl : p.lockLevel = 0
    · exact .inl hl
    · exact .inr ⟨Nat.pos_of_ne_zero hl, hmover.locked (Nat.pos_of_ne_zero hl)⟩
  refine ⟨?_, fun _ => ?_, fun _ => ?_, fun _ => ?_⟩
  · have hlevel := h.level
    show p.lockLevel + 1 ≤ maxLockLevel
    omega
  · show ((p.lockLevel + 1 : Nat) : Int) = Function.update balance c (balance c + 1) c
    rw [Function.update_self]
    obtain hl | ⟨hl, rfl⟩ := hfree
    · simp [hzero hl, hl]
    · have hcounted := h.counted hl
      omega
  · show p.HasThread c
    obtain hl | ⟨hl, rfl⟩ := hfree
    · exact hmover.process hl
    · exact h.process hl
  · show p.Unblocked c
    obtain hl | ⟨hl, rfl⟩ := hfree
    · exact hmover.unblocked hl
    · exact h.holder hl

theorem Held.unlock (h : Held p balance) (hmover : p.Mover c)
    (hlevel : q.lockLevel = p.lockLevel - 1) (hlocked : q.threadLocked = p.threadLocked)
    (hthreads : SameThreads p q) (hstates : q.threads = p.threads ∧ q.sched = p.sched) :
    Held q (Function.update balance c (balance c - 1)) where
  level := by
    have hmax := h.level
    omega
  counted hl := by
    have hpos : 0 < p.lockLevel := by omega
    have hcounted := h.counted hpos
    rw [hlocked, hmover.locked hpos, Function.update_self]
    rw [hmover.locked hpos] at hcounted
    omega
  process hl := by
    rw [hlocked]
    exact hthreads.hasThread _ (h.process (by omega))
  holder hl := by
    rw [Unblocked, hlocked, hstates.1, hstates.2]
    exact h.holder (by omega)

/-- What a call makes of the locks of each process. -/
def lockBalance (p : ArincPartition) (c : Nat) (balance : Nat → Int) : ArincCall → Nat → Int
  | .incLockLevel =>
    if (p.incLockLevel c).2 = .ok then Function.update balance c (balance c + 1) else balance
  | .decLockLevel =>
    if (p.decLockLevel c).2 = .ok then Function.update balance c (balance c - 1) else balance
  | _ => balance

theorem incLockLevel_held (h : p.mode = .normal → Held p balance)
    (hzero : p.lockLevel = 0 → balance = 0)
    (hmover : ¬ p.IsLockLevelBlocked c → p.Mover c) (hmode : (p.incLockLevel c).1.mode = .normal) :
    Held (p.incLockLevel c).1 (p.lockBalance c balance .incLockLevel) := by
  show Held (p.incLockLevel c).1
    (if (p.incLockLevel c).2 = .ok then Function.update balance c (balance c + 1) else balance)
  unfold ArincPartition.incLockLevel at hmode ⊢
  by_cases hblocked : p.IsLockLevelBlocked c
  · rw [if_pos hblocked] at hmode ⊢
    exact h hmode
  by_cases hmax : p.lockLevel = maxLockLevel
  · rw [if_neg hblocked, if_pos hmax] at hmode ⊢
    exact h hmode
  · rw [if_neg hblocked, if_neg hmax] at hmode ⊢
    exact (h hmode).lock hzero (hmover hblocked) hmax

theorem decLockLevel_held (h : p.mode = .normal → Held p balance)
    (hmover : ¬ p.IsLockLevelBlocked c → p.Mover c) (hmode : (p.decLockLevel c).1.mode = .normal) :
    Held (p.decLockLevel c).1 (p.lockBalance c balance .decLockLevel) := by
  show Held (p.decLockLevel c).1
    (if (p.decLockLevel c).2 = .ok then Function.update balance c (balance c - 1) else balance)
  unfold ArincPartition.decLockLevel at hmode ⊢
  by_cases hblocked : p.IsLockLevelBlocked c
  · rw [if_pos hblocked] at hmode ⊢
    exact h hmode
  by_cases hzero : p.lockLevel = 0
  · rw [if_neg hblocked, if_pos hzero] at hmode ⊢
    exact h hmode
  rw [if_neg hblocked, if_neg hzero] at hmode ⊢
  by_cases hlast : p.lockLevel - 1 = 0 ∧ p.eligibleThreads.head? ≠ some c
  · rw [if_pos hlast] at hmode ⊢
    exact (h hmode).unlock (hmover hblocked) rfl rfl ⟨rfl, rfl⟩ ⟨rfl, rfl⟩
  · rw [if_neg hlast] at hmode ⊢
    exact (h hmode).unlock (hmover hblocked) rfl rfl ⟨rfl, rfl⟩ ⟨rfl, rfl⟩

/-! The steps of a partition -/

theorem threadLocked_lt (h : ListsSound p) (hmode : p.mode ≠ .normal) :
    p.threadLocked < p.nthreadsUsed := by
  rw [(h.placed.main hmode).2.1]
  exact h.placed.positive

theorem HolderFrame.held_of_mode (hk : HolderFrame p q)
    (hthread : ∀ u, p.HasThread u → q.HasThread u) (h : p.mode = .normal → Held p balance)
    (hmode : q.mode = .normal) : Held q balance := by
  obtain hsame | hzero := hk.mode
  · exact hk.held hthread (h (hsame.symm.trans hmode))
  · exact held_of_unlocked hzero

theorem call_held {call : ArincCall} (hsteady : Steady p) (hcached : Cached p)
    (hhalted : p.halted = false) (hcurrent : p.threadCurrent = some c)
    (hstate : (p.threads c).state = .runnable)
    (hlock : call = .incLockLevel ∨ call = .decLockLevel →
      p.IsLockLevelBlocked c ∨ p.threadSelected = some c)
    (hzero : p.lockLevel = 0 → balance = 0) (h : p.mode = .normal → Held p balance) :
    Sat (fun _ => True) (fun r => r.1.mode = .normal → Held r.1 (p.lockBalance c balance call))
      (p.call hm c call) := by
  have hmover (hl : call = .incLockLevel ∨ call = .decLockLevel)
      (hblocked : ¬ p.IsLockLevelBlocked c) : p.Mover c := by
    have hselected := (hlock hl).resolve_left hblocked
    have hmode : p.mode = .normal := by
      by_contra hmode
      exact hblocked (.inl hmode)
    exact hcached.mover hsteady.lists (hsteady.checked hhalted hmode) hblocked hselected
  by_cases hinc : call = .incLockLevel
  · subst hinc
    exact Sat.ite (fun _ => trivial) fun _ => incLockLevel_held h hzero (hmover (.inl rfl))
  by_cases hdec : call = .decLockLevel
  · subst hdec
    exact Sat.ite (fun _ => trivial) fun _ => decLockLevel_held h (hmover (.inr rfl))
  have hbalance : p.lockBalance c balance call = balance := by
    cases call with
    | incLockLevel => exact absurd rfl hinc
    | decLockLevel => exact absurd rfl hdec
    | _ => rfl
  rw [hbalance]
  apply Sat.of_forall
  intro r hr hmode
  have hcaller := caller_of_current hsteady hhalted hcurrent hstate
  have hkept : HolderKept p r.1 := (call_holds hcaller.used (by rw [hstate]; decide)
    (fun hinit => threadLocked_lt hsteady.lists hinit) ⟨hinc, hdec⟩).of_ok hr
  exact hkept.held_of_mode ((call_grows hcached.handler).of_ok hr).hasThread h hmode

theorem moveLock_threads {call : ArincCall} (h : call = .incLockLevel ∨ call = .decLockLevel) :
    Sat (fun _ => True) (fun r => r.1.threads = p.threads) (p.call hm c call) := by
  obtain rfl | rfl := h
  · refine Sat.ite (fun _ => trivial) fun _ => ?_
    unfold ArincPartition.incLockLevel
    split_ifs <;> rfl
  · refine Sat.ite (fun _ => trivial) fun _ => ?_
    unfold ArincPartition.decLockLevel
    split_ifs <;> rfl

/-- What a step makes of the locks of each process. -/
def movedBalance (p : ArincPartition) (balance : Nat → Int) : ArincInput → Nat → Int
  | .call call _ =>
    match p.threadCurrent with
    | some c => p.lockBalance c balance call
    | none => balance
  | _ => balance

theorem run_held {e : ArincInput} (hsteady : Steady p) (hcached : Cached p)
    (hcaller : p.CallerRunnable e) (hlock : p.LockedBySelected e)
    (hzero : p.lockLevel = 0 → balance = 0) (h : p.mode = .normal → Held p balance) :
    Sat (fun _ => True) (fun q => q.mode = .normal → Held q (p.movedBalance balance e))
      (p.run hm e) := by
  apply run_rule
  · exact fun q r hq hk hthreads => hk.held_of_mode hthreads.hasThread hq
  · exact fun q r hq hr hthreads hmode =>
      hr.held hthreads.hasThread (hq (hr.mode.symm.trans hmode))
  · intro hne
    cases e with
    | call call events => exact absurd rfl (hne call events)
    | _ => exact h
  · rintro call events c rfl hhalted hcurrent
    have hmay : call = .incLockLevel ∨ call = .decLockLevel →
        p.IsLockLevelBlocked c ∨ p.threadSelected = some c := by
      rintro (rfl | rfl)
      · exact hlock c hcurrent
      · exact hlock c hcurrent
    have hmoved : p.movedBalance balance (.call call events) = p.lockBalance c balance call := by
      simp only [movedBalance, hcurrent]
    rw [hmoved]
    exact call_held hsteady hcached hhalted hcurrent (hcaller c hcurrent) hmay hzero h

end ArincPartition

/-- A partition with the successful LOCK_PREEMPTION less the successful UNLOCK_PREEMPTION of each
process since the lock level has been 0. -/
structure LockHistory where
  partition : ArincPartition
  balance : Nat → Int

namespace LockHistory

open ArincPartition

variable {hm : PartitionHm} {h h' : LockHistory} {e : ArincInput}

def step (hm : PartitionHm) (h : LockHistory) (e : ArincInput) : Option LockHistory :=
  (h.partition.step hm e).map fun q =>
    ⟨q, if q.lockLevel = 0 then 0 else h.partition.movedBalance h.balance e⟩

def boot (nthreads : Nat) : LockHistory := ⟨ArincPartition.boot nthreads, 0⟩

/-- System calls are made by runnable processes, and those that move the lock by the process that
the scheduler has chosen. -/
def InTurn (h : LockHistory) (e : ArincInput) : Prop :=
  h.partition.CallerRunnable e ∧ h.partition.LockedBySelected e

instance (h : LockHistory) (e : ArincInput) : Decidable (h.InTurn e) :=
  inferInstanceAs (Decidable (_ ∧ _))

structure Sound (h : LockHistory) : Prop where
  steady : Steady h.partition
  cached : h.partition.halted = false → Cached h.partition
  held : h.partition.halted = false → h.partition.mode = .normal → Held h.partition h.balance
  zero : h.partition.lockLevel = 0 → h.balance = 0

theorem boot_sound (nthreads : Nat) : (boot nthreads).Sound where
  steady := boot_steady nthreads
  cached _ := partitionArincStart_cached (by simp [unstarted])
  held _ hmode := by cases hmode
  zero _ := rfl

theorem Sound.step (hs : h.Sound) (hturn : h.InTurn e) (hstep : h.step hm e = some h') :
    h'.Sound := by
  obtain ⟨q, hq, rfl⟩ := Option.map_eq_some_iff.mp hstep
  have hheld : q.halted = false → q.mode = .normal →
      Held q (h.partition.movedBalance h.balance e) := by
    refine @step_rule _ hm (fun q => q.mode = .normal →
      Held q (h.partition.movedBalance h.balance e)) _ _ (fun hhalted => ?_) ?_ hq
    · exact run_held hs.steady (hs.cached hhalted) hturn.1 hturn.2 hs.zero (hs.held hhalted)
    · exact fun r hmode hnormal => absurd hnormal hmode
  refine ⟨step_sound hs.steady hturn.1 hq, ?_, fun hhalted hmode => ?_, fun hzero => if_pos hzero⟩
  · exact step_rule (fun hhalted => run_cached (hs.cached hhalted) hturn.2)
      (fun _ => partitionArincStart_cached) hq
  · by_cases hzero : q.lockLevel = 0
    · exact held_of_unlocked hzero
    · rw [if_neg hzero]
      exact hheld hhalted hmode

/-- The call, whoever makes it, or the events stop the holder of the lock only together with the
lock, and have the choice rechecked. -/
theorem Sound.stop_drops (hs : h.Sound) (hhalted : h.partition.halted = false)
    (hmode : h.partition.mode = .normal) (hlock : 0 < h.partition.lockLevel) {q : ArincPartition}
    (hq : (∃ c call errno, h.partition.threadCurrent = some c ∧
        (h.partition.threads c).state = .runnable ∧
        h.partition.call hm c call = .ok (q, errno)) ∨
      ∃ events, drain hm events h.partition = .ok q)
    (hstopped : (q.threads h.partition.threadLocked).state = .stopped) :
    q.lockLevel = 0 ∧ q.recheckNeeded = true := by
  have hheld := hs.held hhalted hmode
  have hkept (hk : HolderKept h.partition q) : q.lockLevel = 0 ∧ q.recheckNeeded = true := by
    refine (hk.holder hlock (hheld.holder hlock)).resolve_right fun hsame => ?_
    have hstate := hsame.2.2.1
    rw [hsame.2.1, hstopped] at hstate
    cases hstate
  obtain ⟨c, call, errno, hcurrent, hstate, hcall⟩ | ⟨events, hdrain⟩ := hq
  · have hcaller := caller_of_current hs.steady hhalted hcurrent hstate
    by_cases hmoves : call = .incLockLevel ∨ call = .decLockLevel
    · have hthreads : q.threads = h.partition.threads := (moveLock_threads hmoves).of_ok hcall
      rw [hthreads, (hheld.holder hlock).1] at hstopped
      cases hstopped
    have hcalled : HolderKept h.partition (q, errno).1 :=
      (call_holds hcaller.used (by rw [hstate]; decide)
        (fun hinit => absurd hmode hinit) (not_or.mp hmoves)).of_ok hcall
    exact hkept hcalled
  · exact hkept (drain_holds.of_ok hdrain)

end LockHistory

open ArincPartition

/-- In every run whose system calls are made by runnable processes, and in which the lock is moved
by the chosen process only, the lock level is what its holder has locked, the holder may run, and
whatever stops it drops the lock. -/
theorem preemption_lock {hm : PartitionHm} {nthreads : Nat} {es : List ArincInput}
    {h : LockHistory}
    (hturns : Run.Meets (LockHistory.step hm) LockHistory.InTurn (.boot nthreads) es)
    (hrun : Run.exec (LockHistory.step hm) (.boot nthreads) es = some h)
    (hhalted : h.partition.halted = false) (hmode : h.partition.mode = .normal) :
    h.partition.lockLevel ≤ maxLockLevel ∧
    (0 < h.partition.lockLevel →
      (h.partition.lockLevel : Int) = h.balance h.partition.threadLocked ∧
      h.partition.HasThread h.partition.threadLocked ∧
      (h.partition.threads h.partition.threadLocked).state = .runnable ∧
      (h.partition.sched h.partition.threadLocked).suspended = false ∧
      (h.partition.sched h.partition.threadLocked).waitElem = none ∧
      ∀ q, (∃ c call errno, h.partition.threadCurrent = some c ∧
            (h.partition.threads c).state = .runnable ∧
            h.partition.call hm c call = .ok (q, errno)) ∨
          (∃ events, drain hm events h.partition = .ok q) →
        (q.threads h.partition.threadLocked).state = .stopped →
        q.lockLevel = 0 ∧ q.recheckNeeded = true) := by
  have hsound : h.Sound :=
    Run.invariant_of_meets (fun _ _ _ hs hturn hstep => hs.step hturn hstep)
      (LockHistory.boot_sound nthreads) hturns hrun
  have hheld := hsound.held hhalted hmode
  refine ⟨hheld.level, fun hlock => ?_⟩
  have hholder := hheld.holder hlock
  refine ⟨hheld.counted hlock, hheld.process hlock, hholder.1, hholder.2, ?_,
    fun q hq hstopped => hsound.stop_drops hhalted hmode hlock hq hstopped⟩
  by_contra hlinked
  have hwaits := hsound.steady.lists.sound.linked _ (by simp) (hheld.process hlock).2.1 hlinked
  cases hwaits.2.2.symm.trans hholder.1

/-- LOCK_PREEMPTION and UNLOCK_PREEMPTION are called outside of sections. -/
def LockHistory.LocksOutside (h : LockHistory) : ArincInput → Prop
  | .call .incLockLevel _ | .call .decLockLevel _ =>
    ∀ c, h.partition.threadCurrent = some c → (h.partition.threads c).msectionCount = 0
  | _ => True

instance (h : LockHistory) : (e : ArincInput) → Decidable (h.LocksOutside e)
  | .call .incLockLevel _ | .call .decLockLevel _ =>
    Option.decidableForallMem h.partition.threadCurrent
  | .call (.create _ _ _) _ | .call (.createError _ _) _ | .call (.delayedStart _ _ _ _) _
  | .call (.stopTarget _) _ | .call .stop _ | .call (.suspendTarget _) _ | .call (.suspend _ _) _
  | .call (.resume _) _ | .call (.setPriority _ _) _ | .call .yield _ | .call (.sleep _ _) _
  | .call .endPeriod _ | .call (.replenish _ _) _ | .call (.portWait _ _ _ _ _) _
  | .call (.setMode _ _ _) _ | .call .raiseApplicationError _ | .call .raiseOsError _
  | .call .errorGet _ | .call .enterHelper _ | .call .checkFlags _ | .call (.msectionWait _ _ _) _
  | .call (.msectionNotify _ _) _
  | .onEvent _ | .recheck _ | .user _ | .fault _ _ _ | .deadlineOor _ _ | .restart => isTrue trivial

/-- One process runs, and locks preemption twice. -/
def lockedTwiceRun : List ArincInput :=
  startupRun ++ [.call .incLockLevel [], .call .incLockLevel [.timer 10]]

theorem preemption_lock_twice :
    ∃ h, Run.exec (LockHistory.step lenientHm) (.boot 4) lockedTwiceRun = some h ∧
      h.partition.lockLevel = 2 ∧ h.partition.threadLocked = 1 ∧
      (h.partition.lockLevel : Int) = h.balance 1 := by
  have hview : (Run.exec (LockHistory.step lenientHm) (.boot 4) lockedTwiceRun).map
      (fun h => (h.partition.halted, h.partition.mode, h.partition.lockLevel,
        h.partition.threadLocked)) = some (false, .normal, 2, 1) := by decide +kernel
  obtain ⟨h, hrun, hv⟩ := Option.map_eq_some_iff.mp hview
  simp only [Prod.mk.injEq] at hv
  obtain ⟨hhalted, hmode, hlevel, hlocked⟩ := hv
  have hturns : Run.Meets (LockHistory.step lenientHm) LockHistory.InTurn (.boot 4)
      lockedTwiceRun := Run.meets_of_checks (by decide +kernel)
  have hcounted := ((preemption_lock hturns hrun hhalted hmode).2 (by omega)).1
  exact ⟨h, hrun, hlevel, hlocked, hlocked ▸ hcounted⟩

/-- Process 2 locks preemption and comes to section 7, of which process 1 has become the owner
without being inside. So process 1 is run in its place, and locks preemption too. -/
def strayLockRun : List ArincInput :=
  staleOwnerRun.take 16 ++ [.call .incLockLevel []] ++ staleOwnerRun.drop 16 ++
    [.call .incLockLevel []]

theorem preemption_lock_stray :
    Run.Meets (LockHistory.step lenientHm) LockHistory.LocksOutside (.boot 4) strayLockRun ∧
    ∃ h, Run.exec (LockHistory.step lenientHm) (.boot 4) strayLockRun = some h ∧
      h.partition.mode = .normal ∧ h.partition.lockLevel = 2 ∧ h.partition.threadLocked = 1 ∧
      h.balance 1 = 1 := by
  refine ⟨Run.meets_of_checks (by decide +kernel), ?_⟩
  have hview : (Run.exec (LockHistory.step lenientHm) (.boot 4) strayLockRun).map
      (fun h => (h.partition.mode, h.partition.lockLevel, h.partition.threadLocked,
        h.balance 1)) = some (.normal, 2, 1, 1) := by decide +kernel
  obtain ⟨h, hrun, hv⟩ := Option.map_eq_some_iff.mp hview
  simp only [Prod.mk.injEq] at hv
  exact ⟨h, hrun, hv⟩

end Chpok
