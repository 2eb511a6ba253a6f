import Chpok.Kernel.ArincErrors
import Chpok.Kernel.Channel
import Chpok.Library.Run
import Mathlib.Data.List.Count
import Mathlib.Logic.Function.Iterate

/-! Restarts of a partition: those that it asks for (`kernel/core/partition_arinc.c`,
`kernel/core/error_arinc.c`), those from outside (`kernel/core/sched.c`,
`kernel/libc/monitor.c`), and the start of the next incarnation by the global scheduler. -/

namespace Chpok

/-- `pok_start_condition_t` -/
inductive StartCondition where
  | normalStart
  | partitionRestart
  | hmModuleRestart
  | hmPartitionRestart
  deriving DecidableEq, Repr

/-- What asks for a restart. -/
inductive RestartPath where
  | setPartitionMode
  | healthMonitor
  | moduleReset
  | monitor
  deriving DecidableEq, Repr

/-- The condition that `GET_PARTITION_STATUS` is to show after a restart. There is none for
the command of the monitor. -/
def RestartPath.condition : RestartPath → Option StartCondition
  | .setPartitionMode => some .partitionRestart
  | .healthMonitor => some .hmPartitionRestart
  | .moduleReset => some .hmModuleRestart
  | .monitor => none

/-- What restarts use of `pok_partition_arinc_t`. `started` is whether `sp` is not 0, and
`sideGeneration` what the channel of a port has recorded for its side. The last four fields
tell of the incarnations, and no function reads them. -/
structure RestartState where
  started : Bool
  halted : Bool
  generation : Nat
  restartedExternally : Bool
  startCondition : StartCondition
  isEvent : Bool
  eventMax : Nat
  eventBegin : Nat
  eventEnd : Nat
  mode : PartitionMode
  sharedMode : PartitionMode
  threadCurrent : Option Nat
  isCreated : Nat → Bool
  sideGeneration : Nat → Nat
  incarnation : Nat
  incarnationGeneration : Nat
  creator : Nat → Option Nat
  requests : List RestartPath

/-- `dispatch` is the switch to the partition by the global scheduler, `schedule` one of its
local scheduler. -/
inductive RestartInput where
  | setPartitionMode (mode : PartitionMode)
  | fixedAction (action : ErrorAction)
  | moduleReset
  | restartN
  | dispatch
  | schedule (t : Option Nat)
  | createPort (port : Nat)
  | addEvent
  | getEvent
  deriving DecidableEq, Repr

namespace RestartState

/-- `pok_partition_reset` -/
def partitionReset (s : RestartState) : RestartState :=
  { s with
    started := false
    restartedExternally := true
    generation := nextGeneration s.generation
    eventBegin := 0
    eventEnd := 0
    requests := s.requests ++ [.moduleReset] }

/-- `pok_partition_restart` -/
def partitionRestart (s : RestartState) (path : RestartPath) : RestartState :=
  { s with
    started := false
    generation := nextGeneration s.generation
    requests := s.requests ++ [path] }

/-- `pok_partition_arinc_reset` -/
def partitionArincReset (s : RestartState) (path : RestartPath) (mode : PartitionMode) :
    Option RestartState :=
  if mode = .initCold ∨ mode = .initWarm ∧ s.mode ≠ .initCold then
    some ({ s with mode }.partitionRestart path)
  else none

/-- `partition_set_mode_internal` -/
def setPartitionMode (s : RestartState) (mode : PartitionMode) : Option RestartState :=
  let reset := { s with startCondition := .partitionRestart }.partitionArincReset
    .setPartitionMode mode
  match mode with
  | .initWarm => if s.mode = .initCold then some s else reset
  | .initCold => reset
  | .idle => some { s with halted := true }
  | .normal =>
    if s.mode = .normal then some s else some { s with mode := .normal, sharedMode := .normal }

/-- `take_fixed_action` -/
def takeFixedAction (s : RestartState) : ErrorAction → Option RestartState
  | .ignore => some s
  | .idle => some { s with halted := true }
  | .coldStart => s.partitionArincReset .healthMonitor .initCold
  | .warmStart =>
    if s.mode = .initCold then none else s.partitionArincReset .healthMonitor .initWarm

/-- `restart_N` of the monitor -/
def restartN (s : RestartState) : RestartState :=
  { s with started := false, requests := s.requests ++ [.monitor] }

/-- `start_partition` and `partition_arinc_start` -/
def startPartition (s : RestartState) : RestartState :=
  { s with
    started := true
    halted := false
    isEvent := false
    eventBegin := 0
    eventEnd := 0
    restartedExternally := false
    mode := if s.restartedExternally then .initCold else s.mode
    sharedMode := if s.restartedExternally then .initCold else s.mode
    threadCurrent := some 0
    isCreated := fun _ => false
    incarnation := s.incarnation + 1
    incarnationGeneration := s.generation
    requests := [] }

/-- `intra_partition_switch` or `inter_partition_switch` to the partition -/
def dispatch (s : RestartState) : RestartState := if s.started then s else s.startPartition

/-- The port is created, with `pok_channel_queuing_side_init`. -/
def createPort (s : RestartState) (port : Nat) : RestartState :=
  if s.isCreated port ∨ s.mode = .normal then s
  else { s with
    isCreated := Function.update s.isCreated port true
    sideGeneration := Function.update s.sideGeneration port s.generation
    creator := Function.update s.creator port (some s.incarnation) }

/-- `pok_partition_add_event`, up to its assertion -/
def addEvent (s : RestartState) : Option RestartState :=
  let eventEnd := if s.eventMax < s.eventEnd + 1 then 0 else s.eventEnd + 1
  if eventEnd = s.eventBegin then none
  else some { s with eventEnd, isEvent := s.isEvent || s.eventEnd = s.eventBegin }

/-- `flag_test_and_reset` of `is_event`, and `pok_partition_get_event` -/
def getEvent (s : RestartState) : RestartState :=
  if s.eventEnd = s.eventBegin then { s with isEvent := false }
  else { s with
    isEvent := false
    eventBegin := if s.eventBegin = s.eventMax then 0 else s.eventBegin + 1 }

/-- A step, unless an assertion fails or the partition does not run. -/
def step (s : RestartState) : RestartInput → Option RestartState
  | .moduleReset => some s.partitionReset
  | .restartN => some s.restartN
  | .dispatch => some s.dispatch
  | .addEvent => s.addEvent
  | .setPartitionMode mode => if s.started ∧ ¬ s.halted then s.setPartitionMode mode else none
  | .fixedAction action => if s.started ∧ ¬ s.halted then s.takeFixedAction action else none
  | .schedule t => if s.started ∧ ¬ s.halted then some { s with threadCurrent := t } else none
  | .createPort port => if s.started ∧ ¬ s.halted then some (s.createPort port) else none
  | .getEvent => if s.started ∧ ¬ s.halted then some s.getEvent else none

/-- After `pok_sched_start`, before the first incarnation -/
def boot (eventMax : Nat) : RestartState where
  started := false
  halted := false
  generation := 1
  restartedExternally := true
  startCondition := .normalStart
  isEvent := false
  eventMax := eventMax
  eventBegin := 0
  eventEnd := 0
  mode := .initCold
  sharedMode := .initCold
  threadCurrent := none
  isCreated _ := false
  sideGeneration _ := 0
  incarnation := 0
  incarnationGeneration := 1
  creator _ := none
  requests := []

/-- The other partition treats the side of a port as connected. -/
def Connected (s : RestartState) (port : Nat) : Prop := s.generation = s.sideGeneration port

/-- `t` is a new incarnation after `s`, that shares nothing with the former one. -/
structure Renewed (s t : RestartState) : Prop where
  generation : t.generation ≠ 0 ∧ t.generation ≠ s.incarnationGeneration
  events : t.isEvent = false ∧ t.eventBegin = t.eventEnd
  main : t.threadCurrent = some 0
  mode : t.mode = .initCold ∨ t.mode = .initWarm
  sharedMode : t.sharedMode = t.mode
  disconnected : ∀ port, s.creator port = some s.incarnation → ¬ t.Connected port

/-- The new incarnation also shows the condition of a restart that was asked for. -/
structure Fresh (s t : RestartState) : Prop extends Renewed s t where
  condition : ∃ path ∈ s.requests, path.condition = some t.startCondition

/-! The generation -/

theorem nextGeneration_iterate {g : Nat} (hpos : 0 < g) (hle : g ≤ 4294967295) (k : Nat) :
    nextGeneration^[k] g = (g - 1 + k) % 4294967295 + 1 := by
  induction k with
  | zero =>
    simp only [Function.iterate_zero, id]
    omega
  | succ k ih =>
    rw [Function.iterate_succ_apply', ih, nextGeneration]
    split_ifs <;> omega

theorem nextGeneration_iterate_eq {g : Nat} (hpos : 0 < g) (hle : g ≤ 4294967295) (k : Nat) :
    nextGeneration^[k] g = g ↔ 4294967295 ∣ k := by
  rw [nextGeneration_iterate hpos hle]
  omega

/-- How often the generation has changed since the former incarnation. -/
def changes (s : RestartState) : Nat := s.requests.countP (· ≠ .monitor)

/-- What the requests for a restart have come to. -/
structure Tracked (s : RestartState) : Prop where
  running : s.started = true → s.requests = []
  positive : 0 < s.incarnationGeneration
  bounded : s.incarnationGeneration ≤ 4294967295
  generation : s.generation = nextGeneration^[s.changes] s.incarnationGeneration
  sides : ∀ port, s.creator port = some s.incarnation →
    s.sideGeneration port = s.incarnationGeneration
  creators : ∀ port n, s.creator port = some n → n ≤ s.incarnation
  conditions : s.startCondition = .normalStart ∨ s.startCondition = .partitionRestart
  condition : .setPartitionMode ∈ s.requests → s.startCondition = .partitionRestart
  mode : 0 < s.changes → s.restartedExternally = true ∨ s.mode = .initCold ∨ s.mode = .initWarm

variable {s t : RestartState} {path : RestartPath} {mode : PartitionMode}

/-- A restart is asked for. -/
theorem Tracked.request (h : Tracked s) (path : RestartPath) (hstarted : t.started = false)
    (hrequests : t.requests = s.requests ++ [path])
    (hgeneration : t.generation = if path = .monitor then s.generation
      else nextGeneration s.generation)
    (hincarnation : t.incarnation = s.incarnation)
    (hformer : t.incarnationGeneration = s.incarnationGeneration)
    (hsides : t.sideGeneration = s.sideGeneration) (hcreator : t.creator = s.creator)
    (hcondition : t.startCondition = if path = .setPartitionMode then .partitionRestart
      else s.startCondition)
    (hmode : if path = .monitor then
        t.restartedExternally = s.restartedExternally ∧ t.mode = s.mode
      else t.restartedExternally = true ∨ t.mode = .initCold ∨ t.mode = .initWarm) :
    Tracked t where
  running hs := by simp [hstarted] at hs
  positive := hformer ▸ h.positive
  bounded := hformer ▸ h.bounded
  generation := by
    rw [hformer, hgeneration, changes, hrequests, List.countP_append, ← changes]
    split_ifs with hmonitor
    · simp [hmonitor, h.generation]
    · simp [hmonitor, Function.iterate_succ_apply', h.generation]
  sides port hport := by
    rw [hcreator, hincarnation] at hport
    rw [hsides, hformer]
    exact h.sides port hport
  creators port n hport := by
    rw [hcreator] at hport
    rw [hincarnation]
    exact h.creators port n hport
  conditions := by
    rw [hcondition]
    split_ifs
    · exact Or.inr rfl
    · exact h.conditions
  condition hmem := by
    rw [hcondition]
    split_ifs with hset
    · rfl
    · rw [hrequests, List.mem_append, List.mem_singleton] at hmem
      rcases hmem with hmem | he
      · exact h.condition hmem
      · exact absurd he.symm hset
  mode hpos := by
    by_cases hmonitor : path = .monitor
    · rw [if_pos hmonitor] at hmode
      rw [changes, hrequests, List.countP_append, ← changes] at hpos
      simp only [hmonitor] at hpos
      rw [hmode.1, hmode.2]
      exact h.mode (by simpa using hpos)
    · rwa [if_neg hmonitor] at hmode

theorem Tracked.partitionArincReset (h : Tracked s) (hpath : path ≠ .monitor)
    {condition : StartCondition} (hcondition : condition =
      if path = .setPartitionMode then .partitionRestart else s.startCondition)
    (ht : { s with startCondition := condition }.partitionArincReset path mode = some t) :
    Tracked t := by
  unfold RestartState.partitionArincReset at ht
  split_ifs at ht with hmode
  obtain rfl := Option.some.inj ht
  have hinit : mode = .initCold ∨ mode = .initWarm := hmode.imp_right And.left
  refine h.request path rfl rfl ?_ rfl rfl rfl rfl hcondition ?_
  · rw [if_neg hpath]
    rfl
  · rw [if_neg hpath]
    exact Or.inr hinit

theorem Tracked.unchanged (h : Tracked s) (hs : s.started = true) :
    s.changes = 0 ∧ s.generation = s.incarnationGeneration := by
  have hzero : s.changes = 0 := by simp [changes, h.running hs]
  refine ⟨hzero, ?_⟩
  rw [h.generation, hzero]
  rfl

theorem Tracked.setPartitionMode (h : Tracked s) (hs : s.started = true)
    (ht : s.setPartitionMode mode = some t) : Tracked t := by
  unfold RestartState.setPartitionMode at ht
  cases mode with
  | initWarm =>
    dsimp only at ht
    split_ifs at ht
    · exact Option.some.inj ht ▸ h
    · exact h.partitionArincReset (by simp) (by simp) ht
  | initCold => exact h.partitionArincReset (by simp) (by simp) ht
  | idle =>
    obtain rfl := Option.some.inj ht
    exact { h with }
  | normal =>
    dsimp only at ht
    split_ifs at ht
    · exact Option.some.inj ht ▸ h
    · obtain rfl := Option.some.inj ht
      have hzero : s.changes = 0 := (h.unchanged hs).1
      exact { h with mode := fun hpos => absurd hpos (by simpa [changes] using hzero) }

theorem Tracked.takeFixedAction {action : ErrorAction} (h : Tracked s)
    (ht : s.takeFixedAction action = some t) : Tracked t := by
  cases action with
  | ignore => exact Option.some.inj ht ▸ h
  | idle =>
    obtain rfl := Option.some.inj ht
    exact { h with }
  | coldStart => exact h.partitionArincReset (by simp) (by simp) ht
  | warmStart =>
    dsimp only [RestartState.takeFixedAction] at ht
    split_ifs at ht
    exact h.partitionArincReset (by simp) (by simp) ht

theorem Tracked.startPartition (h : Tracked s) : Tracked s.startPartition where
  running _ := rfl
  positive := by
    change 0 < s.generation
    rw [h.generation, nextGeneration_iterate h.positive h.bounded]
    omega
  bounded := by
    change s.generation ≤ 4294967295
    rw [h.generation, nextGeneration_iterate h.positive h.bounded]
    omega
  generation := rfl
  sides port hport := by
    have hle : s.incarnation + 1 ≤ s.incarnation := h.creators port _ hport
    omega
  creators port n hport := (h.creators port n hport).trans (Nat.le_succ _)
  conditions := h.conditions
  condition := nofun
  mode := nofun

theorem Tracked.createPort {port : Nat} (h : Tracked s) (hs : s.started = true) :
    Tracked (s.createPort port) := by
  unfold RestartState.createPort
  split_ifs
  · exact h
  · exact {
      h with
      sides := by
        intro other hother
        by_cases hport : other = port
        · subst hport
          simpa using (h.unchanged hs).2
        · dsimp only at hother ⊢
          rw [Function.update_of_ne hport] at hother ⊢
          exact h.sides other hother
      creators := by
        intro other n hother
        dsimp only at hother
        by_cases hport : other = port
        · subst hport
          rw [Function.update_self] at hother
          exact (Option.some.inj hother).symm.le
        · rw [Function.update_of_ne hport] at hother
          exact h.creators other n hother }

theorem step_tracked {e : RestartInput} (h : Tracked s) (ht : s.step e = some t) : Tracked t := by
  cases e with
  | moduleReset =>
    obtain rfl := Option.some.inj ht
    exact h.request .moduleReset rfl rfl rfl rfl rfl rfl rfl rfl (Or.inl rfl)
  | restartN =>
    obtain rfl := Option.some.inj ht
    exact h.request .monitor rfl rfl rfl rfl rfl rfl rfl rfl ⟨rfl, rfl⟩
  | dispatch =>
    obtain rfl := Option.some.inj ht
    unfold dispatch
    split_ifs
    · exact h
    · exact h.startPartition
  | addEvent =>
    simp only [step, addEvent] at ht
    split_ifs at ht
    all_goals
      obtain rfl := Option.some.inj ht
      exact { h with }
  | setPartitionMode =>
    simp only [step] at ht
    split_ifs at ht with hs
    exact h.setPartitionMode hs.1 ht
  | fixedAction =>
    simp only [step] at ht
    split_ifs at ht
    exact h.takeFixedAction ht
  | schedule =>
    simp only [step] at ht
    split_ifs at ht
    obtain rfl := Option.some.inj ht
    exact { h with }
  | createPort =>
    simp only [step] at ht
    split_ifs at ht with hs
    obtain rfl := Option.some.inj ht
    exact h.createPort hs.1
  | getEvent =>
    simp only [step] at ht
    split_ifs at ht
    obtain rfl := Option.some.inj ht
    unfold getEvent
    split_ifs
    all_goals exact { h with }

theorem boot_tracked {eventMax : Nat} : Tracked (boot eventMax) where
  running := nofun
  positive := Nat.one_pos
  bounded := (by decide : 1 ≤ 4294967295)
  generation := rfl
  sides := nofun
  creators := nofun
  conditions := Or.inl rfl
  condition := nofun
  mode := nofun

/-! The next incarnation -/

theorem Tracked.renewed (h : Tracked s) :
    Renewed s s.startPartition ↔ ¬ 4294967295 ∣ s.changes := by
  have hsame : s.generation = s.incarnationGeneration ↔ 4294967295 ∣ s.changes := by
    rw [h.generation]
    exact nextGeneration_iterate_eq h.positive h.bounded _
  constructor
  · intro hr hdvd
    exact hr.generation.2 (hsame.mpr hdvd)
  · intro hndvd
    have hne : s.generation ≠ s.incarnationGeneration := fun he => hndvd (hsame.mp he)
    have hpos : 0 < s.changes := by
      by_contra hzero
      exact hndvd ⟨0, by omega⟩
    have hinit : s.startPartition.mode = .initCold ∨ s.startPartition.mode = .initWarm := by
      have hmode : s.startPartition.mode =
          if s.restartedExternally then .initCold else s.mode := rfl
      rw [hmode]
      split_ifs with hext
      · exact Or.inl rfl
      · exact (h.mode hpos).resolve_left hext
    have hnonzero : s.generation ≠ 0 := by
      rw [h.generation, nextGeneration_iterate h.positive h.bounded]
      omega
    refine ⟨⟨hnonzero, hne⟩, ⟨rfl, rfl⟩, rfl, hinit, rfl, ?_⟩
    intro port hport hconnected
    exact hne (hconnected.trans (h.sides port hport))

theorem Tracked.shows_condition (h : Tracked s) :
    (∃ path ∈ s.requests, path.condition = some s.startCondition) ↔
      .setPartitionMode ∈ s.requests := by
  constructor
  · rintro ⟨path, hmem, hpath⟩
    cases path with
    | setPartitionMode => exact hmem
    | healthMonitor | moduleReset =>
      have he := Option.some.inj hpath
      rcases h.conditions with hc | hc
      · simp [hc] at he
      · simp [hc] at he
    | monitor => cases hpath
  · intro hmem
    refine ⟨_, hmem, ?_⟩
    rw [h.condition hmem]
    rfl

/-- A new incarnation is fresh if and only if the former one has ended by SET_PARTITION_MODE,
and the generation has not come round to its value since. Without the condition that it shows,
it is so after every other restart but that of the monitor, too. -/
theorem fresh_incarnation {eventMax : Nat} {es : List RestartInput}
    (h : Run.exec step (boot eventMax) es = some s) (hended : s.started = false)
    (hdispatch : s.step .dispatch = some t) :
    (Fresh s t ↔ .setPartitionMode ∈ s.requests ∧ ¬ 4294967295 ∣ s.changes) ∧
      (Renewed s t ↔ ¬ 4294967295 ∣ s.changes) := by
  have htracked : Tracked s := Run.invariant (fun _ _ _ hs hstep => step_tracked hs hstep) boot_tracked h
  have ht : t = s.startPartition := by
    simp only [step, dispatch, hended] at hdispatch
    exact (Option.some.inj hdispatch).symm
  subst ht
  have hrenewed := htracked.renewed
  refine ⟨?_, hrenewed⟩
  constructor
  · intro hfresh
    exact ⟨htracked.shows_condition.mp hfresh.condition, hrenewed.mp hfresh.toRenewed⟩
  · rintro ⟨hmem, hndvd⟩
    exact ⟨hrenewed.mpr hndvd, htracked.shows_condition.mpr hmem⟩

/-- A port is created, and the partition restarts itself. -/
def coldRun : List RestartInput :=
  [.dispatch, .createPort 0, .setPartitionMode .normal, .addEvent, .setPartitionMode .initCold]

/-- A port is created, and the monitor restarts the partition. -/
def monitorRun : List RestartInput :=
  [.dispatch, .createPort 0, .setPartitionMode .normal, .addEvent, .restartN]

theorem fresh_incarnation_cold :
    ∃ s t, Run.exec step (boot 3) coldRun = some s ∧ s.step .dispatch = some t ∧ Fresh s t := by
  have hview : (Run.exec step (boot 3) coldRun).map (fun s => (s.started, s.requests)) =
      some (false, [.setPartitionMode]) := by decide +kernel
  obtain ⟨s, hs, hv⟩ := Option.map_eq_some_iff.mp hview
  obtain ⟨hended, hrequests⟩ := Prod.mk.inj hv
  refine ⟨s, s.dispatch, hs, rfl, ?_⟩
  apply (fresh_incarnation hs hended rfl).1.mpr
  simp [changes, hrequests]

/-- The main thread is started in the `NORMAL` mode, and the port that is not created any more
is treated as connected. -/
theorem fresh_incarnation_fails :
    ∃ s t, Run.exec step (boot 3) monitorRun = some s ∧ s.step .dispatch = some t ∧
      t.mode = .normal ∧ t.isCreated 0 = false ∧ s.creator 0 = some s.incarnation ∧
      t.Connected 0 ∧ ¬ Fresh s t := by
  have hview : (Run.exec step (boot 3) monitorRun).map (fun s => (s.creator 0, s.incarnation,
      s.dispatch.mode, s.dispatch.isCreated 0, s.dispatch.generation, s.dispatch.sideGeneration 0)) =
        some (some 1, 1, .normal, false, 1, 1) := by decide +kernel
  obtain ⟨s, hs, hv⟩ := Option.map_eq_some_iff.mp hview
  obtain ⟨hcreator, hv⟩ := Prod.mk.inj hv
  obtain ⟨hincarnation, hv⟩ := Prod.mk.inj hv
  obtain ⟨hmode, hv⟩ := Prod.mk.inj hv
  obtain ⟨hcreated, hv⟩ := Prod.mk.inj hv
  obtain ⟨hgeneration, hside⟩ := Prod.mk.inj hv
  have hconnected : s.dispatch.Connected 0 := hgeneration.trans hside.symm
  have hformer : s.creator 0 = some s.incarnation := by rw [hcreator, hincarnation]
  refine ⟨s, s.dispatch, hs, rfl, hmode, hcreated, hformer, hconnected, ?_⟩
  exact fun hfresh => hfresh.disconnected 0 hformer hconnected

end RestartState

end Chpok
