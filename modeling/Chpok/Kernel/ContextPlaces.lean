import Chpok.Kernel.ContextSwitch
import Chpok.Library.Multiplexer

/-! The partitions share one processor, in which `pok_sched` switches between their contexts and the
idle one. -/

namespace Chpok

namespace Processor

open Multiplexer

variable {C : Type} {entry : KernelContext → C} {s t : Processor C} {p q : Nat}

/-- The processor as the partitions share it. -/
def outer (s : Processor C) : State (Option Nat) C := ⟨s.context, s.oldPlace, s.spAt⟩

def outerStart (entry : KernelContext → C) : Option Nat → C
  | none => entry .idle
  | some p => entry (.start p)

@[simp] theorem setPartition_self (part : SwitchPartition C) :
    (s.setPartition p part).partitions p = part := Function.update_self ..

theorem setPartition_ne (hne : q ≠ p) (part : SwitchPartition C) :
    (s.setPartition p part).partitions q = s.partitions q := Function.update_of_ne hne ..

@[simp] theorem setPartition_sched (part : SwitchPartition C) :
    (s.setPartition p part).sched = s.sched := rfl

@[simp] theorem setPartition_idleSp (part : SwitchPartition C) :
    (s.setPartition p part).idleSp = s.idleSp := rfl

@[simp] theorem setPartition_currentIsPaused (part : SwitchPartition C) :
    (s.setPartition p part).currentIsPaused = s.currentIsPaused := rfl

@[simp] theorem setPartition_context (part : SwitchPartition C) :
    (s.setPartition p part).context = s.context := rfl

@[simp] theorem setPartition_oldPlace (part : SwitchPartition C) :
    (s.setPartition p part).oldPlace = s.oldPlace := rfl

theorem spAt_setSp (place : Option Nat) (sp : Option C) :
    (s.setSp place sp).spAt = Function.update s.spAt place sp := by
  funext i
  cases place with
  | none => cases i <;> simp [setSp, spAt, Function.update]
  | some p =>
    cases i with
    | none => simp [setSp, spAt]
    | some q =>
      by_cases hq : q = p
      · subst hq
        simp [setSp, spAt]
      · simp [setSp, spAt, setPartition_ne hq, hq]

/-- What a partition has of its threads. -/
def inside (part : SwitchPartition C) : SwitchPartition C :=
  { part with sp := none, isPaused := false }

theorem inside_setSp (place : Option Nat) (sp : Option C) :
    ∀ q, inside ((s.setSp place sp).partitions q) = inside (s.partitions q) := by
  intro q
  cases place with
  | none => rfl
  | some p =>
    by_cases hq : q = p
    · subst hq
      simp [setSp, inside]
    · rw [setSp, setPartition_ne hq]

theorem paused_setSp (place : Option Nat) (sp : Option C) :
    ∀ q, ((s.setSp place sp).partitions q).isPaused = (s.partitions q).isPaused := by
  intro q
  cases place with
  | none => rfl
  | some p =>
    by_cases hq : q = p
    · subst hq
      simp [setSp]
    · rw [setSp, setPartition_ne hq]

theorem newPlace_setSp (place : Option Nat) (sp : Option C) (q : Nat) :
    (s.setSp place sp).newPlace q = s.newPlace q := by
  unfold newPlace
  rw [paused_setSp]

/-- The effect of a switch between partitions. -/
structure Switched (entry : KernelContext → C) (s t : Processor C) (place : Option Nat) : Prop where
  outer : t.outer = s.outer.switch (outerStart entry) place
  inside : ∀ q, inside (t.partitions q) = inside (s.partitions q)
  paused : ∀ q, (t.partitions q).isPaused = (s.partitions q).isPaused

theorem outer_ext {x : State (Option Nat) C} (hcontext : t.context = x.context)
    (hrunning : t.oldPlace = x.running) (hsaved : t.spAt = x.saved) : t.outer = x := by
  rw [outer, hcontext, hrunning, hsaved]

theorem outer_stay {place : Option Nat} {c : C} (hold : t.oldPlace = place)
    (hc : t.spAt place = some c) : t.outer = t.outer.switch (outerStart entry) place := by
  refine (State.switch_of_some hold.symm ?_).symm
  exact fun hnone => nomatch hc.symm.trans hnone

theorem outer_restart {place : Option Nat} (hold : s.oldPlace = place) (hc : s.spAt place = none)
    (hcontext : t.context = outerStart entry place) (hnew : t.oldPlace = place)
    (hsaved : t.spAt = Function.update s.spAt place (some (outerStart entry place))) :
    t.outer = s.outer.switch (outerStart entry) place := by
  rw [State.switch_of_none hold.symm hc, outer, hcontext, hnew, hsaved, ← hold]
  rfl

/-- The context is stored in its place, unless it is to be started anew. -/
theorem outer_move {old new : Option Nat} {c : C} (hold : s.oldPlace = old) (hne : old ≠ new)
    (hc : (s.spAt new).getD (outerStart entry new) = c) (hcontext : t.context = c)
    (hnew : t.oldPlace = new)
    (hsaved : t.spAt = Function.update (if s.spAt old = none then s.spAt
      else Function.update s.spAt old (some s.context)) new (some c)) :
    t.outer = s.outer.switch (outerStart entry) new := by
  subst hold
  rw [State.switch_of_ne hne.symm, outer, hcontext, hnew, hsaved, ← hc]
  rfl

theorem update_spAt {place : Option Nat} {c : C} (h : s.spAt place = some c) :
    Function.update s.spAt place (some c) = s.spAt := by
  rw [← h, Function.update_eq_self]

theorem intra_switched (entry : KernelContext → C) (hidle : s.idleSp ≠ none) :
    ∃ t, intraPartitionSwitch entry s = some t ∧ t.sched = s.sched ∧
      Switched entry s t (s.newPlace s.sched.currentPartition) := by
  obtain ⟨idle, hidle⟩ := Option.ne_none_iff_exists'.mp hidle
  have hspIdle : s.spAt none = some idle := hidle
  set p := s.sched.currentPartition with hp
  cases hpaused : s.currentIsPaused <;> cases hflag : (s.partitions p).isPaused
  · -- The code of the partition goes on, unless it is to be started anew.
    have hold : s.oldPlace = some p := by simp [oldPlace, hpaused, hp]
    have hnew : s.newPlace p = some p := by simp [newPlace, hflag]
    rw [hnew]
    cases hsp : s.spAt (some p) with
    | none =>
      refine ⟨(s.setSp (some p) (some (entry (.start p)))).contextJump (entry (.start p)),
        by simp [intraPartitionSwitch, ← hp, hold, hnew, hsp], rfl,
        outer_restart hold hsp rfl hold (spAt_setSp _ _), fun q => inside_setSp (some p) _ q,
        fun q => paused_setSp (some p) _ q⟩
    | some c =>
      exact ⟨s, by simp [intraPartitionSwitch, ← hp, hold, hnew, hsp], rfl, outer_stay hold hsp,
        fun _ => rfl, fun _ => rfl⟩
  · -- The partition has been paused.
    have hold : s.oldPlace = some p := by simp [oldPlace, hpaused, hp]
    have hnew : s.newPlace p = none := by simp [newPlace, hflag]
    rw [hnew]
    set s' : Processor C := { s with currentIsPaused := true } with hs'
    have hsame : s'.spAt = s.spAt := rfl
    cases hsp : s.spAt (some p) with
    | none =>
      refine ⟨s'.contextJump idle,
        by simp [intraPartitionSwitch, ← hp, hold, hnew, hflag, ← hs', hsame, hsp, hspIdle], rfl,
        outer_move (c := idle) hold (by simp) (by rw [hspIdle]; rfl) rfl rfl ?_, fun _ => rfl,
        fun _ => rfl⟩
      rw [if_pos hsp, update_spAt hspIdle]
      rfl
    | some c =>
      refine ⟨s'.contextSwitch (some p) idle,
        by simp [intraPartitionSwitch, ← hp, hold, hnew, hflag, ← hs', hsame, hsp, hspIdle], rfl,
        outer_move (c := idle) hold (by simp) (by rw [hspIdle]; rfl) rfl rfl ?_,
        inside_setSp (some p) _, paused_setSp (some p) _⟩
      rw [if_neg (by simp [hsp]), Function.update_comm (by simp), update_spAt hspIdle]
      exact spAt_setSp _ _
  · -- It goes on after a pause.
    have hold : s.oldPlace = none := by simp [oldPlace, hpaused]
    have hnew : s.newPlace p = some p := by simp [newPlace, hflag]
    rw [hnew]
    set s' : Processor C := { s with currentIsPaused := false } with hs'
    have hsame : s'.spAt = s.spAt := rfl
    have hrunning : s'.oldPlace = some p := by simp [hs', oldPlace, hp]
    cases hsp : s.spAt (some p) with
    | none =>
      refine ⟨(s'.setSp (some p) (some (entry (.start p)))).contextSwitch none (entry (.start p)),
        by simp [intraPartitionSwitch, ← hp, hold, hnew, hflag, ← hs', hsame, hsp, hspIdle], rfl,
        outer_move (c := entry (.start p)) hold (by simp) (by rw [hsp]; rfl) rfl hrunning ?_,
        inside_setSp (some p) _,
        paused_setSp (some p) _⟩
      rw [if_neg (by simp [hspIdle]), Function.update_comm (by simp), ← hsame, ← spAt_setSp]
      exact spAt_setSp _ _
    | some c =>
      refine ⟨s'.contextSwitch none c,
        by simp [intraPartitionSwitch, ← hp, hold, hnew, hflag, ← hs', hsame, hsp, hspIdle], rfl,
        outer_move (c := c) hold (by simp) (by rw [hsp]; rfl) rfl hrunning ?_, fun _ => rfl,
        fun _ => rfl⟩
      rw [if_neg (by simp [hspIdle]), Function.update_comm (by simp), update_spAt hsp]
      exact spAt_setSp _ _
  · have hold : s.oldPlace = none := by simp [oldPlace, hpaused]
    have hnew : s.newPlace p = none := by simp [newPlace, hflag]
    rw [hnew]
    exact ⟨s, by simp [intraPartitionSwitch, ← hp, hold, hnew, hspIdle], rfl,
      outer_stay hold hspIdle, fun _ => rfl, fun _ => rfl⟩

theorem inter_switched (entry : KernelContext → C) (hidle : s.idleSp ≠ none) {sched : Sched}
    (hne : sched.currentPartition ≠ s.sched.currentPartition) :
    ∃ t, interPartitionSwitch entry s sched = some t ∧ t.sched = sched ∧
      Switched entry s t (s.newPlace sched.currentPartition) := by
  obtain ⟨idle, hidle⟩ := Option.ne_none_iff_exists'.mp hidle
  have hspIdle : s.spAt none = some idle := hidle
  set p := sched.currentPartition with hp
  by_cases hsame : s.oldPlace = s.newPlace p
  · -- Only the idle context is in the same place for both partitions.
    have hpaused : s.currentIsPaused = true ∧ (s.partitions p).isPaused = true := by
      unfold oldPlace newPlace at hsame
      split_ifs at hsame with h1 h2
      · exact ⟨h1, h2⟩
      · exact absurd (Option.some.inj hsame).symm hne
    have hold : s.oldPlace = none := by simp [oldPlace, hpaused.1]
    have hnew : s.newPlace p = none := by simp [newPlace, hpaused.2]
    refine ⟨{ s with sched := sched }, by simp [interPartitionSwitch, ← hp, hold, hnew, hidle], rfl,
      ?_, fun _ => rfl, fun _ => rfl⟩
    rw [hnew]
    have hstay : outer { s with sched := sched } = s.outer := by
      simp [outer, oldPlace, hpaused.1]
      rfl
    rw [hstay]
    exact outer_stay hold hspIdle
  · set s' : Processor C :=
      { s with sched := sched, currentIsPaused := (s.partitions p).isPaused } with hs'
    have hsp' : s'.spAt = s.spAt := rfl
    have hrunning : s'.oldPlace = s.newPlace p := rfl
    obtain ⟨c, hc⟩ : ∃ c, (s.spAt (s.newPlace p)).getD (outerStart entry (s.newPlace p)) = c :=
      ⟨_, rfl⟩
    set s'' := if s'.spAt (s.newPlace p) = none then
      s'.setSp (s.newPlace p) (some (entry (.start p))) else s' with hs''
    have hsetSp (place : Option Nat) (sp : Option C) : (s'.setSp place sp).context = s.context ∧
        (s'.setSp place sp).oldPlace = s.newPlace p ∧ (s'.setSp place sp).sched = sched := by
      cases place <;> exact ⟨rfl, hrunning, rfl⟩
    have hnew : s''.spAt = Function.update s.spAt (s.newPlace p) (some c) ∧
        (s''.context = s.context ∧ s''.oldPlace = s.newPlace p ∧ s''.sched = sched) ∧
        ∀ q, inside (s''.partitions q) = inside (s.partitions q) ∧
          (s''.partitions q).isPaused = (s.partitions q).isPaused := by
      rw [hs'']
      split_ifs with hnone
      · rw [hsp'] at hnone
        rw [hnone] at hc
        cases hplace : s.newPlace p with
        | none =>
          rw [hplace, hspIdle] at hnone
          contradiction
        | some q =>
          obtain rfl : p = q := by
            unfold newPlace at hplace
            split_ifs at hplace
            exact Option.some.inj hplace
          rw [hplace] at hc
          exact ⟨by rw [← hc, spAt_setSp, hsp']; rfl, hplace ▸ hsetSp _ _,
            fun q => ⟨inside_setSp _ _ q, paused_setSp _ _ q⟩⟩
      · obtain ⟨d, hd⟩ := Option.ne_none_iff_exists'.mp hnone
        rw [hsp'] at hd
        rw [hd] at hc
        obtain rfl : d = c := hc
        exact ⟨by rw [hsp', update_spAt hd], ⟨rfl, hrunning, rfl⟩, fun _ => ⟨rfl, rfl⟩⟩
    obtain ⟨hsaved, ⟨hcontext, hplace, hsched⟩, hinside⟩ := hnew
    have hold : s''.spAt s.oldPlace = s.spAt s.oldPlace := by
      rw [hsaved, Function.update_of_ne hsame]
    have hget : s''.spAt (s.newPlace p) = some c := by
      rw [hsaved, Function.update_self]
    refine ⟨if s''.spAt s.oldPlace = none then s''.contextJump c
      else s''.contextSwitch s.oldPlace c, ?_, ?_, ?_, ?_, ?_⟩
    · have hassert : ¬ ((s.partitions p).isPaused = true ∧ s.idleSp = none) := by simp [hidle]
      unfold interPartitionSwitch
      simp only [← hp, if_neg hsame, ← hs', ← hs'']
      rw [if_neg hassert, hget]
      rfl
    · split_ifs
      · exact hsched
      · cases s.oldPlace <;> exact hsched
    · split_ifs with hnone
      · refine outer_move (c := c) rfl hsame hc rfl hplace ?_
        rw [if_pos (hold ▸ hnone)]
        exact hsaved
      · refine outer_move (c := c) rfl hsame hc rfl ?_ ?_
        · cases s.oldPlace <;> exact hplace
        · rw [if_neg (hold ▸ hnone), Function.update_comm hsame, ← hsaved, ← hcontext]
          exact spAt_setSp _ _
    · intro q
      split_ifs
      · exact (hinside q).1
      · exact (inside_setSp _ _ q).trans (hinside q).1
    · intro q
      split_ifs
      · exact (hinside q).2
      · exact (paused_setSp _ _ q).trans (hinside q).2

/-- `pok_sched` switches to the context that the schedule and the flag of the partition call for. -/
theorem pokSched_switched {c : ModuleSched} {now : Int} (hidle : s.idleSp ≠ none)
    (h : pokSched entry c s now = some t) :
    (s.sched.needRecheck = false ∧ t = s) ∨
      ∃ r, c.pokSched s.sched now = some r ∧ t.sched = r.1 ∧
        Switched entry s t (s.newPlace r.1.currentPartition) := by
  obtain ⟨r, hr, hf⟩ := Option.bind_eq_some_iff.mp h
  split_ifs at hf with hneed hinter
  · obtain ⟨u, hu, hsched, hswitched⟩ := inter_switched entry hidle hinter.2
    rw [hu] at hf
    obtain rfl := Option.some.inj hf
    exact .inr ⟨r, hr, hsched, hswitched⟩
  · have hsame : r.1.currentPartition = s.sched.currentPartition := by
      by_contra hne
      have hentered : r.2 = false := by simpa [hne] using hinter
      unfold ModuleSched.pokSched at hr
      split_ifs at hr with hearly
      · exact hne (Option.some.inj hr ▸ rfl)
      · obtain ⟨slot, -, rfl⟩ := Option.map_eq_some_iff.mp hr
        cases hentered
    obtain ⟨u, hu, hsched, hswitched⟩ :=
      intra_switched entry (s := { s with sched := r.1 }) hidle
    rw [hu] at hf
    obtain rfl := Option.some.inj hf
    refine .inr ⟨r, hr, hsched, ?_, hswitched.inside, hswitched.paused⟩
    have houter : outer { s with sched := r.1 } = s.outer := by
      simp only [outer, oldPlace, hsame]
      rfl
    rw [← houter]
    exact hswitched.outer
  · exact .inl ⟨by simpa using hneed, (Option.some.inj hf).symm⟩

end Processor

end Chpok
