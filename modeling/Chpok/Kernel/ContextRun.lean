import Chpok.Kernel.ContextVirtual
import Chpok.Kernel.TimePartitioning

/-! Switching is transparent in whole runs: each context goes on as if it had a processor of its
own, and the schedule decides whose context is executed. -/

namespace Chpok

namespace Processor

open Multiplexer

variable {C : Type} {entry : KernelContext → C} {s t : Processor C} {p : Nat}

/-- Whether a step begins a context anew. -/
def begins (s : Processor C) : SwitchInput C → KernelContext → Bool
  | .restart _, x => s.oldPlace.any fun p => x = .start p
  | .restartN p, x => x = .start p
  | .moduleReset _, _ => true
  | .arincStart _, x => s.oldPlace.any fun p => x.partition = some p ∧ x ≠ .start p
  | .startThread t, x => s.oldPlace.any fun p => x = .thread p t
  | .schedArinc reset _, x => s.oldPlace.any fun p => reset.any fun t => x = .thread p t
  | _, _ => false

/-- A step as a context with a processor of its own takes it. A context that is begun anew has no
part in what the old one still does. -/
def alone (entry : KernelContext → C) (s : Processor C) (e : SwitchInput C) (x : KernelContext)
    (own : C) : C :=
  if s.begins e x then entry x
  else match e with
    | .run f => if s.owner = x ∧ s.abandoned = false then f own else own
    | _ => own

/-- What becomes of the processor of its own that a context has, in the course of a run. -/
def history (entry : KernelContext → C) (c : ModuleSched) (x : KernelContext) :
    Processor C → List (SwitchInput C) → C → C
  | _, [], own => own
  | s, e :: es, own => match step entry c s e with
    | none => own
    | some t => history entry c x t es (alone entry s e x own)

/-- After a step every context is as if it had been alone. -/
def Private (entry : KernelContext → C) (s : Processor C) (e : SwitchInput C) (t : Processor C) :
    Prop :=
  ∀ x, t.Alive x → (s.begins e x = true ∨ s.Alive x) ∧
    t.virtual entry x = alone entry s e x (s.virtual entry x)

theorem Keeps.private {begins : KernelContext → Prop} {e : SwitchInput C}
    (h : Keeps entry begins s t) (hbegins : ∀ x, s.begins e x = true ↔ begins x)
    (hrun : ∀ f, e ≠ .run f) : Private entry s e t := by
  intro x hx
  obtain ⟨hnew, hold⟩ := h x hx
  unfold alone
  by_cases hb : begins x
  · rw [if_pos ((hbegins x).mpr hb)]
    exact ⟨.inl ((hbegins x).mpr hb), hnew hb⟩
  · rw [if_neg fun he => hb ((hbegins x).mp he)]
    refine ⟨.inr (hold hb).1, (hold hb).2.trans ?_⟩
    cases e with
    | run f => exact absurd rfl (hrun f)
    | _ => rfl

theorem run_private (h : s.Sound) (f : C → C) :
    Sound { s with context := f s.context } ∧
      Private entry s (.run f) { s with context := f s.context } := by
  refine ⟨⟨⟨h.idle, h.restarted, h.current⟩, h.live⟩, fun x hx => ⟨.inr hx, ?_⟩⟩
  set t : Processor C := { s with context := f s.context } with ht
  have hsound : t.Sound := ⟨⟨h.idle, h.restarted, h.current⟩, h.live⟩
  show t.virtual entry x = if s.owner = x ∧ s.abandoned = false then f (s.virtual entry x)
    else s.virtual entry x
  split_ifs with howner
  · obtain ⟨rfl, hkept⟩ := howner
    rw [h.virtual_owner entry hkept]
    exact hsound.virtual_owner entry hkept
  · by_cases hplace : x.partition = s.oldPlace
    · -- Another context of the partition is executed, or an abandoned one.
      have hinner (p : Nat) (hp : s.oldPlace = some p) (r : KernelRunner)
          (hr : r ≠ (s.partitions p).current) : (t.inner entry p).own (innerStart entry p) r =
            (s.inner entry p).own (innerStart entry p) r := by
        have hown : t.inner entry p = (s.inner entry p).run fun _ =>
            t.outer.own (outerStart entry) (some p) := rfl
        rw [hown]
        exact State.own_run_ne hr _
      have hrunner (p : Nat) (hp : s.oldPlace = some p) :
          s.owner = runnerEntry p (s.partitions p).current := by
        rw [owner, hp]
      cases x with
      | idle =>
        have hidle : s.owner = .idle := by
          rw [owner, ← hplace]
          rfl
        have hkept : s.abandoned = false := by
          rw [abandoned, ← hplace]
          rfl
        exact absurd ⟨hidle, hkept⟩ howner
      | start p =>
        have hstart : s.owner = .start p := by
          rw [hrunner p hplace.symm, hx]
          rfl
        have hkept : s.abandoned = false := by
          rw [abandoned, ← hplace, KernelContext.partition, Option.any_some, hx]
        exact absurd ⟨hstart, hkept⟩ howner
      | doNothing p =>
        refine hinner p hplace.symm .doNothing fun he => howner ⟨?_, ?_⟩
        · rw [hrunner p hplace.symm, ← he]
          rfl
        · rw [abandoned, ← hplace, KernelContext.partition, Option.any_some, ← he]
      | thread p u =>
        by_cases he : (s.partitions p).current = .thread u
        · have hlost : (s.partitions p).threadSp u = none := by
            by_contra hsome
            refine howner ⟨?_, ?_⟩
            · rw [hrunner p hplace.symm, he]
              rfl
            · rw [abandoned, ← hplace, KernelContext.partition, Option.any_some, he]
              exact Option.isNone_eq_false_iff.mpr (Option.isSome_iff_ne_none.mpr hsome)
          have hanew (v : Processor C) (hv : v.partitions = s.partitions) :
              v.virtual entry (.thread p u) = innerStart entry p (.thread u) := by
            apply State.own_of_none
            rw [inner, hv]
            exact hlost
          rw [hanew t rfl, hanew s rfl]
        · exact hinner p hplace.symm (.thread u) fun h => he h.symm
    · have houter : t.outer = s.outer.run f := rfl
      refine virtual_congr ?_ fun _ _ => rfl
      rw [houter]
      exact State.own_run_ne hplace f

theorem pokSched_keeps {c : ModuleSched} {now : Int} {begins : KernelContext → Prop}
    {u : Processor C} (hs : s.Placed) (hlive : s.sched.needRecheck = false → s.outer.Live)
    (h : pokSched entry c s now = some t) (hkeeps : Keeps entry begins u s) :
    t.Sound ∧ Keeps entry begins u t := by
  rcases pokSched_switched hs.idle h with ⟨hneed, rfl⟩ | ⟨r, -, -, hswitched⟩
  · exact ⟨⟨hs, hlive hneed⟩, hkeeps⟩
  · exact ⟨hswitched.sound hs, hkeeps.trans hswitched.keeps⟩

/-- A tick and the request of a restart ask for a new look at the schedule. -/
theorem recheck_keeps {c : ModuleSched} {now : Int} {begins : KernelContext → Prop}
    {u : Processor C} (hs : s.Placed)
    (h : pokSched entry c { s with sched := { s.sched with needRecheck := true } } now = some t)
    (hkeeps : Keeps entry begins u s) : t.Sound ∧ Keeps entry begins u t := by
  have hplaced : Placed { s with sched := { s.sched with needRecheck := true } } :=
    ⟨hs.idle, hs.restarted, hs.current⟩
  exact pokSched_keeps hplaced (fun he => nomatch he) h hkeeps

theorem keeps_rfl (s : Processor C) : Keeps entry (fun _ => False) s s :=
  fun _ hx => ⟨False.elim, fun _ => ⟨hx, rfl⟩⟩

theorem pause_keeps (entry : KernelContext → C) (h : s.Sound) (p : Nat) (isPaused : Bool) :
    (s.setPartition p { s.partitions p with isPaused := isPaused }).Sound ∧
      Keeps entry (fun _ => False) s
        (s.setPartition p { s.partitions p with isPaused := isPaused }) := by
  set part : SwitchPartition C := { s.partitions p with isPaused := isPaused } with hpart
  have hsp : part.sp = (s.partitions p).sp := rfl
  obtain ⟨houter, -⟩ := inner_change entry hsp
  have hinside (q : Nat) :
      inside ((s.setPartition p part).partitions q) = inside (s.partitions q) := by
    by_cases hq : q = p
    · subst hq
      rw [setPartition_self]
      rfl
    · rw [setPartition_ne hq]
  constructor
  · rw [← contextJump_self (s.setPartition p part)]
    exact h.setPartition rfl (fun hc => .inl hc) (fun hc => h.current p hc) fun hc => hc
  · intro x hx
    refine ⟨False.elim, fun _ => ⟨(alive_congr fun q _ => hinside q).mp hx, ?_⟩⟩
    exact virtual_congr (by rw [houter]) fun q _ => hinside q

theorem moduleReset_private {c : ModuleSched} {now : Int}
    (h : schedRestart entry c s now = some t) : Private entry s (.moduleReset now) t := by
  obtain ⟨-, hstart, hown⟩ := schedRestart_spec h
  intro x hx
  refine ⟨.inl rfl, ?_⟩
  show t.virtual entry x = entry x
  cases x with
  | idle => exact hown none
  | start p => exact hown (some p)
  | doNothing p => exact absurd (hstart p) hx
  | thread p u => exact absurd (hstart p) hx

theorem step_private {c : ModuleSched} {e : SwitchInput C} (h : s.Sound)
    (ht : step entry c s e = some t) : t.Sound ∧ Private entry s e t := by
  cases e with
  | run f =>
    obtain rfl := Option.some.inj ht
    exact run_private h f
  | tick now =>
    obtain ⟨hsound, hkeeps⟩ := recheck_keeps h.toPlaced ht (keeps_rfl s)
    exact ⟨hsound, hkeeps.private (fun _ => by simp [begins]) (by simp)⟩
  | enable now =>
    obtain ⟨hsound, hkeeps⟩ := pokSched_keeps h.toPlaced (fun _ => h.live) ht (keeps_rfl s)
    exact ⟨hsound, hkeeps.private (fun _ => by simp [begins]) (by simp)⟩
  | restart now =>
    obtain ⟨p, hp, ht⟩ := Option.bind_eq_some_iff.mp ht
    obtain ⟨hsound, hkeeps⟩ :=
      recheck_keeps (requestRestart_placed h.toPlaced) ht (requestRestart_keeps s p)
    exact ⟨hsound, hkeeps.private (fun _ => by simp [begins, hp]) (by simp)⟩
  | pause p isPaused =>
    obtain rfl := Option.some.inj ht
    obtain ⟨hsound, hkeeps⟩ := pause_keeps entry h p isPaused
    exact ⟨hsound, hkeeps.private (fun _ => by simp [begins]) (by simp)⟩
  | restartN p =>
    simp only [step] at ht
    split_ifs at ht with hself
    obtain rfl := Option.some.inj ht
    refine ⟨⟨requestRestart_placed h.toPlaced, ?_⟩,
      (requestRestart_keeps s p).private (fun _ => by simp [begins]) (by simp)⟩
    have hlive : s.spAt s.oldPlace ≠ none := h.live
    have hne : s.oldPlace ≠ some p := hself
    rw [outer_requestRestart]
    show Function.update s.spAt (some p) none s.oldPlace ≠ none
    rwa [Function.update_of_ne hne]
  | moduleReset now => exact ⟨(schedRestart_spec ht).1, moduleReset_private ht⟩
  | arincStart main =>
    obtain ⟨p, hp, ht⟩ := Option.bind_eq_some_iff.mp ht
    obtain ⟨hsound, hkeeps⟩ := arincStart_keeps h hp ht
    exact ⟨hsound, hkeeps.private (fun _ => by simp [begins, hp]) (by simp)⟩
  | startThread u =>
    obtain ⟨p, hp, ht⟩ := Option.bind_eq_some_iff.mp ht
    obtain ⟨hsound, hkeeps⟩ := startThread_keeps h hp entry ht
    exact ⟨hsound, hkeeps.private (fun _ => by simp [begins, hp]) (by simp)⟩
  | stopThread u =>
    obtain ⟨p, -, ht⟩ := Option.bind_eq_some_iff.mp ht
    obtain rfl := Option.some.inj ht
    obtain ⟨hsound, hkeeps⟩ := stopThread_keeps entry h p u
    exact ⟨hsound, hkeeps.private (fun _ => by simp [begins]) (by simp)⟩
  | schedArinc reset new =>
    obtain ⟨p, hp, ht⟩ := Option.bind_eq_some_iff.mp ht
    obtain ⟨hsound, hkeeps⟩ := schedArinc_keeps h hp ht
    exact ⟨hsound, hkeeps.private (fun _ => by simp [begins, hp, Option.any_eq_true]) (by simp)⟩

theorem run_history {c : ModuleSched} {es : List (SwitchInput C)} (hs : s.Sound)
    (h : Run.exec (step entry c) s es = some t) {x : KernelContext} (hx : t.Alive x) {own : C}
    (hown : s.Alive x → own = s.virtual entry x) :
    t.Sound ∧ t.virtual entry x = history entry c x s es own := by
  induction es generalizing s own with
  | nil =>
    have he : s = t := by simpa [Run.exec] using h
    subst he
    exact ⟨hs, (hown hx).symm⟩
  | cons e es ih =>
    obtain ⟨m, hm, ht⟩ := Run.exec_cons.mp h
    obtain ⟨hsound, hprivate⟩ := step_private hs hm
    have hnext : m.Alive x → alone entry s e x own = m.virtual entry x := by
      intro hmx
      obtain ⟨hbegan, hvirtual⟩ := hprivate x hmx
      rw [hvirtual]
      rcases hbegan with hnew | hold
      · simp [alone, hnew]
      · rw [hown hold]
    simp only [history, hm]
    exact ih hsound ht hnext

theorem alive_owner (s : Processor C) : s.Alive s.owner := by
  unfold owner
  split
  · trivial
  · rename_i p _
    cases hc : (s.partitions p).current with
    | start => exact hc
    | doNothing =>
      show (s.partitions p).current ≠ .start
      simp [hc]
    | thread u =>
      show (s.partitions p).current ≠ .start
      simp [hc]

/-- After the reset of the module, the context that is executed is at every moment what it would be
with a processor of its own, on which nothing but its own code has been executed since it began. The
exception is a thread that has been stopped and starts itself, until another one is chosen. -/
theorem context_as_if_alone {c : ModuleSched} {now : Int} {es : List (SwitchInput C)} (own : C)
    (h : Run.exec (step entry c) s (.moduleReset now :: es) = some t)
    (hkept : t.abandoned = false) :
    t.context = history entry c t.owner s (.moduleReset now :: es) own := by
  obtain ⟨m, hm, ht⟩ := Run.exec_cons.mp h
  have hsound : m.Sound := (schedRestart_spec hm).1
  have hprivate : Private entry s (.moduleReset now) m := moduleReset_private hm
  have hnext : m.Alive t.owner →
      alone entry s (.moduleReset now) t.owner own = m.virtual entry t.owner :=
    fun hx => ((hprivate _ hx).2).symm
  obtain ⟨htsound, hvirtual⟩ := run_history hsound ht (alive_owner t) hnext
  rw [← htsound.virtual_owner entry hkept, hvirtual]
  simp only [history, hm]

/-- The current partition is the one of the current slot. -/
def Scheduled (c : ModuleSched) (sched : Sched) : Prop :=
  ∃ slot, c.slots[sched.currentSlot]? = some slot ∧ sched.currentPartition = slot.partition

theorem pokSched_scheduled {c : ModuleSched} {sched : Sched} (h : Scheduled c sched) (now : Int) :
    ∃ r, c.pokSched sched now = some r ∧ Scheduled c r.1 := by
  obtain ⟨slot, hslot, hpartition⟩ := h
  by_cases hneed : sched.needRecheck = true
  · by_cases hearly : now < sched.nextDeadline
    · exact ⟨_, by rw [ModuleSched.pokSched, if_neg (not_not.mpr hneed), if_pos hearly],
        slot, hslot, hpartition⟩
    · obtain ⟨hlt, -⟩ := List.getElem?_eq_some_iff.mp hslot
      -- whatever the number of slots, their 8-bit number lets no slot outside the array be entered
      obtain ⟨next, hnext⟩ : ∃ next, c.slots[if (sched.currentSlot + 1) % 256 = c.n then 0
          else (sched.currentSlot + 1) % 256]? = some next := by
        refine ⟨_, List.getElem?_eq_getElem ?_⟩
        split_ifs with hlast
        · exact c.length_pos
        · unfold ModuleSched.n at hlast
          omega
      rw [ModuleSched.pokSched, if_neg (not_not.mpr hneed), if_neg hearly]
      dsimp only
      rw [hnext]
      exact ⟨_, rfl, next, hnext, rfl⟩
  · exact ⟨_, by rw [ModuleSched.pokSched, if_pos hneed], slot, hslot, hpartition⟩

theorem pokSched_total (entry : KernelContext → C) {c : ModuleSched} (hidle : s.idleSp ≠ none)
    (h : Scheduled c s.sched) (now : Int) : ∃ t, pokSched entry c s now = some t ∧ Scheduled c t.sched := by
  obtain ⟨r, hr, hscheduled⟩ := pokSched_scheduled h now
  unfold pokSched
  rw [hr]
  simp only [Option.bind_some]
  split_ifs with hneed hinter
  · obtain ⟨t, ht, hsched, -⟩ := inter_switched entry hidle hinter.2
    exact ⟨t, ht, hsched ▸ hscheduled⟩
  · obtain ⟨t, ht, hsched, -⟩ :=
      intra_switched entry (s := { s with sched := r.1 }) hidle
    exact ⟨t, ht, hsched ▸ hscheduled⟩
  · exact ⟨s, rfl, h⟩

theorem schedRestart_scheduled {c : ModuleSched} {now : Int}
    (h : schedRestart entry c s now = some t) : Scheduled c t.sched := by
  obtain ⟨sched, hsched, hf⟩ := Option.bind_eq_some_iff.mp h
  obtain ⟨slot, hslot, rfl⟩ := Option.map_eq_some_iff.mp hsched
  obtain ⟨d, -, rfl⟩ := Option.map_eq_some_iff.mp hf
  refine ⟨slot, ?_⟩
  simp only [contextJump]
  split_ifs
  · cases newPlace _ _ <;> exact ⟨hslot, rfl⟩
  · exact ⟨hslot, rfl⟩

theorem schedArinc_sched {reset new : Option Nat} (h : schedArinc entry s p reset new = some t) :
    t.sched = s.sched := by
  obtain ⟨-, rfl⟩ := schedArinc_eq h
  unfold switchRunner
  simp only
  split_ifs <;> rfl

/-- Only the scheduler chooses the partition. -/
theorem step_scheduled {c : ModuleSched} {e : SwitchInput C} (hs : s.Sound)
    (h : Scheduled c s.sched) (ht : step entry c s e = some t) : Scheduled c t.sched := by
  have htotal (u : Processor C) (hidle : u.idleSp ≠ none) (hu : Scheduled c u.sched) (now : Int)
      (htu : pokSched entry c u now = some t) : Scheduled c t.sched := by
    obtain ⟨t', ht', hscheduled⟩ := pokSched_total entry hidle hu now
    rw [htu] at ht'
    obtain rfl := Option.some.inj ht'
    exact hscheduled
  cases e with
  | run f | pause =>
    obtain rfl := Option.some.inj ht
    exact h
  | tick now =>
    exact htotal { s with sched := { s.sched with needRecheck := true } } hs.idle h now ht
  | enable now => exact htotal s hs.idle h now ht
  | restart now =>
    obtain ⟨p, -, ht⟩ := Option.bind_eq_some_iff.mp ht
    exact htotal { s.requestRestart p with sched := { s.sched with needRecheck := true } }
      hs.idle h now ht
  | restartN p =>
    simp only [step] at ht
    split_ifs at ht
    obtain rfl := Option.some.inj ht
    exact h
  | moduleReset now => exact schedRestart_scheduled ht
  | arincStart main =>
    obtain ⟨p, -, ht⟩ := Option.bind_eq_some_iff.mp ht
    unfold arincStart at ht
    split_ifs at ht
    obtain rfl := Option.some.inj ht
    exact h
  | startThread u =>
    obtain ⟨p, -, ht⟩ := Option.bind_eq_some_iff.mp ht
    unfold startThread at ht
    split_ifs at ht
    obtain rfl := Option.some.inj ht
    exact h
  | stopThread u =>
    obtain ⟨p, -, ht⟩ := Option.bind_eq_some_iff.mp ht
    obtain rfl := Option.some.inj ht
    exact h
  | schedArinc reset new =>
    obtain ⟨p, hp, ht⟩ := Option.bind_eq_some_iff.mp ht
    rw [schedArinc_sched ht]
    exact h

/-- The scheduler never finds a context missing, and a tick leaves the processor to the partition of
the current slot, or to the idle context while that partition is paused. -/
theorem tick_executes_slot {c : ModuleSched} {now : Int} {es : List (SwitchInput C)}
    (h : Run.exec (step entry c) s (.moduleReset now :: es) = some t) (time : Int) :
    ∃ u slot, step entry c t (.tick time) = some u ∧ c.slots[u.sched.currentSlot]? = some slot ∧
      u.owner = if (u.partitions slot.partition).isPaused then .idle
        else runnerEntry slot.partition (u.partitions slot.partition).current := by
  obtain ⟨m, hm, ht⟩ := Run.exec_cons.mp h
  have hstep (s : Processor C) (e : SwitchInput C) (t : Processor C)
      (hs : s.Sound ∧ Scheduled c s.sched) (he : step entry c s e = some t) :
      t.Sound ∧ Scheduled c t.sched :=
    ⟨(step_private hs.1 he).1, step_scheduled hs.1 hs.2 he⟩
  obtain ⟨hsound, hscheduled⟩ :=
    Run.invariant hstep ⟨(schedRestart_spec hm).1, schedRestart_scheduled hm⟩ ht
  obtain ⟨u, hu, slot, hslot, hpartition⟩ := pokSched_total entry
    (s := { t with sched := { t.sched with needRecheck := true } }) hsound.idle hscheduled time
  refine ⟨u, slot, hu, hslot, ?_⟩
  rcases pokSched_switched (by exact hsound.idle) hu with ⟨hneed, -⟩ | ⟨r, -, hr, hswitched⟩
  · cases hneed
  · have hplace : u.oldPlace = if (u.partitions slot.partition).isPaused then none
        else some slot.partition := by
      have hrunning := congrArg State.running hswitched.outer
      rw [State.switch_running, ← hr, hpartition] at hrunning
      rw [hswitched.paused]
      exact hrunning
    rw [owner, hplace]
    cases (u.partitions slot.partition).isPaused <;> rfl

/-- Two partitions have one slot each. -/
def oneSlotEach : ModuleSched where
  slots := [⟨10, 0, false⟩, ⟨10, 1, false⟩]
  majorFrame := 20
  nonempty := by decide
  positive := by decide
  major := by decide

/-- A context that counts the steps of its code. -/
def countSteps (x : KernelContext) : KernelContext × Nat := (x, 0)

def oneStep : SwitchInput (KernelContext × Nat) := .run fun x => (x.1, x.2 + 1)

/-- The processor before the module is reset. -/
def poweredOn : Processor (KernelContext × Nat) where
  context := (.idle, 0)
  sched := ⟨0, 0, 0, 0, 0, false⟩
  currentIsPaused := false
  idleSp := none
  partitions := fun _ => ⟨none, false, .start, fun _ => none, none, fun _ => false⟩

/-- The second thread of the first partition is interrupted by the other partition. -/
def interruptedThread : List (SwitchInput (KernelContext × Nat)) :=
  [oneStep, .arincStart 0, oneStep, .startThread 1, .schedArinc none (some 1),
    oneStep, .tick 10, oneStep, .tick 20, oneStep]

theorem context_as_if_alone_interruptedThread : ∃ t,
    Run.exec (step countSteps oneSlotEach) poweredOn (.moduleReset 0 :: interruptedThread) =
      some t ∧ t.context = (.thread 0 1, 2) ∧
      t.context = history countSteps oneSlotEach t.owner poweredOn
        (.moduleReset 0 :: interruptedThread) (.idle, 0) :=
  ⟨_, rfl, rfl, context_as_if_alone _ rfl rfl⟩

theorem tick_executes_slot_interruptedThread : ∃ t,
    Run.exec (step countSteps oneSlotEach) poweredOn (.moduleReset 0 :: interruptedThread) =
      some t ∧ ∃ u slot, step countSteps oneSlotEach t (.tick 30) = some u ∧
        oneSlotEach.slots[u.sched.currentSlot]? = some slot ∧
        u.owner = if (u.partitions slot.partition).isPaused then .idle
          else runnerEntry slot.partition (u.partitions slot.partition).current := by
  obtain ⟨t, ht⟩ : ∃ t, Run.exec (step countSteps oneSlotEach) poweredOn
      (.moduleReset 0 :: interruptedThread) = some t := ⟨_, rfl⟩
  exact ⟨t, ht, tick_executes_slot ht 30⟩

end Processor

end Chpok
