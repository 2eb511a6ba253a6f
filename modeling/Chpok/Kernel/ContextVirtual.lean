import Chpok.Kernel.ContextPlaces

/-! In each partition the threads share the processor of the partition. Every context has a
processor of its own, which the switching of other contexts does not change. -/

namespace Chpok

/-- The partition that a context belongs to. -/
def KernelContext.partition : KernelContext → Option Nat
  | .idle => none
  | .start p | .doNothing p | .thread p _ => some p

namespace Processor

open Multiplexer

variable {C : Type} {entry : KernelContext → C} {s t : Processor C} {p q : Nat}

/-- The processor of a partition as its threads share it, when they have been started. -/
def inner (entry : KernelContext → C) (s : Processor C) (p : Nat) : State KernelRunner C :=
  ⟨s.outer.own (outerStart entry) (some p), (s.partitions p).current, runnerSp (s.partitions p)⟩

def innerStart (entry : KernelContext → C) (p : Nat) (r : KernelRunner) : C :=
  entry (runnerEntry p r)

theorem runnerSp_setRunnerSp (part : SwitchPartition C) {r : KernelRunner} (hr : r ≠ .start)
    (sp : Option C) : runnerSp (setRunnerSp part r sp) = Function.update (runnerSp part) r sp := by
  funext i
  cases r with
  | start => exact absurd rfl hr
  | doNothing => cases i <;> simp [setRunnerSp, runnerSp]
  | thread t =>
    cases i with
    | start => simp [runnerSp]
    | doNothing => simp [setRunnerSp, runnerSp]
    | thread u =>
      by_cases hu : u = t
      · subst hu
        simp [setRunnerSp, runnerSp]
      · simp [setRunnerSp, runnerSp, hu]

theorem setRunnerSp_fields (part : SwitchPartition C) (r : KernelRunner) (sp : Option C) :
    (setRunnerSp part r sp).sp = part.sp ∧ (setRunnerSp part r sp).current = part.current := by
  cases r <;> exact ⟨rfl, rfl⟩

/-- The processor of its own that a context has. -/
def virtual (entry : KernelContext → C) (s : Processor C) : KernelContext → C
  | .idle => s.outer.own (outerStart entry) none
  | .start p => s.outer.own (outerStart entry) (some p)
  | .doNothing p => (s.inner entry p).own (innerStart entry p) .doNothing
  | .thread p t => (s.inner entry p).own (innerStart entry p) (.thread t)

/-- The contexts that may be executed; those of a partition end when it is restarted. -/
def Alive (s : Processor C) : KernelContext → Prop
  | .idle => True
  | .start p => (s.partitions p).current = .start
  | .doNothing p | .thread p _ => (s.partitions p).current ≠ .start

/-- The context that is executed. -/
def owner (s : Processor C) : KernelContext :=
  match s.oldPlace with
  | none => .idle
  | some p => runnerEntry p (s.partitions p).current

/-- The thread that is executed has been stopped and has then started itself. It goes on with its
old context until another thread is chosen. -/
def abandoned (s : Processor C) : Bool :=
  s.oldPlace.any fun p => match (s.partitions p).current with
    | .thread t => ((s.partitions p).threadSp t).isNone
    | _ => false

/-- A place is empty only while a restart is asked for, or until a thread is executed after its
start. -/
structure Placed (s : Processor C) : Prop where
  idle : s.idleSp ≠ none
  restarted : ∀ p, (s.partitions p).sp = none → (s.partitions p).current = .start
  current : ∀ p, (s.partitions p).current = .doNothing → (s.partitions p).idleSp ≠ none

structure Sound (s : Processor C) : Prop extends s.Placed where
  live : s.outer.Live

theorem Sound.virtual_owner (entry : KernelContext → C) (h : s.Sound)
    (hkept : s.abandoned = false) : s.virtual entry s.owner = s.context := by
  have houter : s.outer.own (outerStart entry) s.outer.running = s.context :=
    State.own_of_live h.live
  cases hplace : s.oldPlace with
  | none =>
    have howner : s.owner = .idle := by
      rw [owner, hplace]
    have hrunning : s.outer.running = none := hplace
    rw [hrunning] at houter
    rw [howner]
    exact houter
  | some p =>
    have howner : s.owner = runnerEntry p (s.partitions p).current := by
      rw [owner, hplace]
    have hrunning : s.outer.running = some p := hplace
    rw [hrunning] at houter
    rw [howner]
    have hinner (hlive : (s.inner entry p).Live) :
        (s.inner entry p).own (innerStart entry p) (s.partitions p).current = s.context :=
      (State.own_of_live hlive).trans houter
    cases hcurrent : (s.partitions p).current with
    | start => exact houter
    | doNothing =>
      rw [hcurrent] at hinner
      apply hinner
      rw [inner, State.Live, hcurrent]
      exact h.current p hcurrent
    | thread u =>
      rw [hcurrent] at hinner
      apply hinner
      rw [inner, State.Live, hcurrent]
      rw [abandoned, hplace, Option.any_some, hcurrent] at hkept
      exact Option.isSome_iff_ne_none.mp (by simpa [runnerSp] using hkept)

theorem inside_runnerSp (h : inside (t.partitions p) = inside (s.partitions p)) :
    runnerSp (t.partitions p) = runnerSp (s.partitions p) := by
  have hidle := congrArg SwitchPartition.idleSp h
  have hthread := congrArg SwitchPartition.threadSp h
  funext r
  cases r with
  | start => rfl
  | doNothing => exact hidle
  | thread u => exact congrFun hthread u

/-- The threads of a partition share the same processor as before. -/
theorem inner_eq (hown : t.outer.own (outerStart entry) (some p) =
      s.outer.own (outerStart entry) (some p))
    (hinside : inside (t.partitions p) = inside (s.partitions p)) :
    t.inner entry p = s.inner entry p := by
  have hcurrent := congrArg SwitchPartition.current hinside
  rw [inner, inner, hown, inside_runnerSp hinside]
  exact congrArg (State.mk _ · _) hcurrent

theorem alive_congr {x : KernelContext}
    (h : ∀ q, x.partition = some q → inside (t.partitions q) = inside (s.partitions q)) :
    t.Alive x ↔ s.Alive x := by
  cases x with
  | idle => exact Iff.rfl
  | start q | doNothing q | thread q =>
    have hcurrent := congrArg SwitchPartition.current (h q rfl)
    simp only [inside] at hcurrent
    simp only [Alive, hcurrent]

theorem virtual_congr {x : KernelContext}
    (hown : t.outer.own (outerStart entry) x.partition = s.outer.own (outerStart entry) x.partition)
    (h : ∀ q, x.partition = some q → inside (t.partitions q) = inside (s.partitions q)) :
    t.virtual entry x = s.virtual entry x := by
  cases x with
  | idle | start => exact hown
  | doNothing q => exact congrArg (·.own (innerStart entry q) .doNothing) (inner_eq hown (h q rfl))
  | thread q u => exact congrArg (·.own (innerStart entry q) (.thread u)) (inner_eq hown (h q rfl))

/-- What is known of all contexts after a step: those that it begins are new, and the others that go
on have been there before. -/
def Keeps (entry : KernelContext → C) (begins : KernelContext → Prop) (s t : Processor C) : Prop :=
  ∀ x, t.Alive x → (begins x → t.virtual entry x = entry x) ∧
    (¬ begins x → s.Alive x ∧ t.virtual entry x = s.virtual entry x)

theorem Keeps.trans {u : Processor C} {begins : KernelContext → Prop}
    (h : Keeps entry begins s t) (h' : Keeps entry (fun _ => False) t u) :
    Keeps entry begins s u := by
  intro x hx
  obtain ⟨-, hkept⟩ := h' x hx
  obtain ⟨halive, hvirtual⟩ := hkept not_false
  obtain ⟨hnew, hold⟩ := h x halive
  exact ⟨fun hb => hvirtual.trans (hnew hb), fun hb => ⟨(hold hb).1, hvirtual.trans (hold hb).2⟩⟩

theorem Switched.keeps {place : Option Nat} (h : Switched entry s t place) :
    Keeps entry (fun _ => False) s t := by
  intro x hx
  have hown : t.outer.own (outerStart entry) x.partition =
      s.outer.own (outerStart entry) x.partition := by
    rw [h.outer, State.own_switch]
  exact ⟨False.elim, fun _ =>
    ⟨(alive_congr fun q _ => h.inside q).mp hx, virtual_congr hown fun q _ => h.inside q⟩⟩

theorem Switched.sound {place : Option Nat} (h : Switched entry s t place) (hs : s.Placed) :
    t.Sound := by
  have hsaved (i : Option Nat) (hi : s.spAt i ≠ none) : t.spAt i ≠ none := by
    have houter : t.spAt = (s.outer.switch (outerStart entry) place).saved := by
      rw [← h.outer]
      rfl
    rw [houter]
    exact State.saved_switch_ne hi
  have hcurrent (p : Nat) : (t.partitions p).current = (s.partitions p).current := by
    have hinside := congrArg SwitchPartition.current (h.inside p)
    exact hinside
  refine ⟨⟨hsaved none hs.idle, fun p hp => ?_, fun p hp => ?_⟩, ?_⟩
  · rw [hcurrent]
    by_contra hne
    exact hsaved (some p) (fun hnone => hne (hs.restarted p hnone)) hp
  · have hidle := congrArg SwitchPartition.idleSp (h.inside p)
    simp only [Processor.inside] at hidle
    rw [hidle]
    exact hs.current p (hcurrent p ▸ hp)
  · rw [h.outer]
    exact State.switch_live

/-- A step that concerns one partition leaves the contexts of the others as they are. -/
theorem keeps_of_partition {begins : KernelContext → Prop}
    (hown : ∀ i, i ≠ some p → t.outer.own (outerStart entry) i = s.outer.own (outerStart entry) i)
    (hinside : ∀ q, q ≠ p → inside (t.partitions q) = inside (s.partitions q))
    (hbegins : ∀ x, begins x → x.partition = some p)
    (hp : ∀ x : KernelContext, x.partition = some p → t.Alive x →
      (begins x → t.virtual entry x = entry x) ∧
        (¬ begins x → s.Alive x ∧ t.virtual entry x = s.virtual entry x)) :
    Keeps entry begins s t := by
  intro x hx
  by_cases hxp : x.partition = some p
  · exact hp x hxp hx
  · have hsame (q : Nat) (hq : x.partition = some q) :
        inside (t.partitions q) = inside (s.partitions q) :=
      hinside q fun he => hxp (he ▸ hq)
    exact ⟨fun hb => absurd (hbegins x hb) hxp, fun _ =>
      ⟨(alive_congr hsame).mp hx, virtual_congr (hown _ hxp) hsame⟩⟩

/-! Restarts -/

theorem outer_requestRestart (s : Processor C) (p : Nat) :
    (s.requestRestart p).outer = s.outer.forget (some p) := by
  refine outer_ext rfl rfl ?_
  funext i
  cases i with
  | none => rfl
  | some q =>
    by_cases hq : q = p
    · subst hq
      simp [requestRestart, spAt, State.forget]
    · simp [requestRestart, spAt, State.forget, setPartition_ne hq, hq, outer]

theorem requestRestart_keeps (s : Processor C) (p : Nat) :
    Keeps entry (· = .start p) s (s.requestRestart p) := by
  have hcurrent : ((s.requestRestart p).partitions p).current = .start := by simp [requestRestart]
  refine keeps_of_partition (p := p) (fun i hi => ?_) (fun q hq => ?_) (fun x hx => hx ▸ rfl)
    fun x hxp hx => ?_
  · rw [outer_requestRestart, State.own_forget_ne hi]
  · rw [requestRestart, setPartition_ne hq]
  · cases x with
    | idle => cases hxp
    | start q =>
      obtain rfl := Option.some.inj hxp
      refine ⟨fun _ => ?_, fun hne => absurd rfl hne⟩
      show (s.requestRestart q).outer.own (outerStart entry) (some q) = _
      rw [outer_requestRestart, State.own_forget_self]
      rfl
    | doNothing q =>
      obtain rfl := Option.some.inj hxp
      exact absurd hcurrent hx
    | thread q u =>
      obtain rfl := Option.some.inj hxp
      exact absurd hcurrent hx

theorem requestRestart_placed (h : s.Placed) : (s.requestRestart p).Placed := by
  refine ⟨h.idle, fun q hq => ?_, fun q hq => ?_⟩
  · by_cases he : q = p
    · subst he
      simp [requestRestart]
    · rw [requestRestart, setPartition_ne he] at hq ⊢
      exact h.restarted q hq
  · by_cases he : q = p
    · subst he
      simp [requestRestart] at hq
    · rw [requestRestart, setPartition_ne he] at hq ⊢
      exact h.current q hq

/-- There is no context but the one that is executed and that of the idle loop. -/
theorem fresh_spec (hidle : t.idleSp = some (entry .idle))
    (hstart : ∀ q, (t.partitions q).current = .start) (hlive : t.spAt t.oldPlace ≠ none)
    (hcontext : t.context = outerStart entry t.oldPlace)
    (hothers : ∀ q, some q ≠ t.oldPlace → (t.partitions q).sp = none) :
    t.Sound ∧ (∀ q, (t.partitions q).current = .start) ∧
      ∀ i, t.outer.own (outerStart entry) i = outerStart entry i := by
  refine ⟨⟨⟨?_, fun q _ => hstart q, fun q hq => nomatch (hstart q).symm.trans hq⟩, hlive⟩, hstart,
    State.own_eq_start hlive hcontext fun i hi => ?_⟩
  · rw [hidle]
    exact Option.some_ne_none _
  · cases i with
    | none => exact .inr hidle
    | some q => exact .inl (hothers q hi)

/-- After a restart of the module there is no context but the first one of each partition. -/
theorem schedRestart_spec {c : ModuleSched} {now : Int} (h : schedRestart entry c s now = some t) :
    t.Sound ∧ (∀ p, (t.partitions p).current = .start) ∧
      ∀ i, t.outer.own (outerStart entry) i = outerStart entry i := by
  obtain ⟨sched, -, hf⟩ := Option.bind_eq_some_iff.mp h
  set p := sched.currentPartition with hp
  set s' : Processor C :=
    { s with
      sched := sched
      idleSp := some (entry .idle)
      partitions := fun p => { s.partitions p with sp := none, current := .start }
      currentIsPaused := (s.partitions p).isPaused } with hs'
  cases hflag : (s.partitions p).isPaused with
  | false =>
    have hnew : s'.newPlace p = some p := by simp [hs', newPlace, hflag]
    have hold : s'.oldPlace = some p := by
      show (if (s.partitions p).isPaused then none else some sched.currentPartition) = some p
      rw [hflag]
      rfl
    have ht : t = (s'.setSp (some p) (some (entry (.start p)))).contextJump (entry (.start p)) := by
      have hnone : s'.spAt (some p) = none := rfl
      simp only [← hs', hnew, if_pos hnone, newPlace_setSp, spAt_setSp, Function.update_self] at hf
      exact (Option.some.inj hf).symm
    have hsaved : t.spAt = Function.update s'.spAt (some p) (some (entry (.start p))) := by
      rw [ht]
      exact spAt_setSp _ _
    have hrunning : t.oldPlace = some p := by
      rw [ht]
      exact hold
    refine fresh_spec ?_ (fun q => ?_) ?_ ?_ fun q hq => ?_
    · rw [ht]
      rfl
    · rw [ht]
      exact congrArg SwitchPartition.current (inside_setSp (s := s') (some p) _ q)
    · rw [hsaved, hrunning, Function.update_self]
      exact Option.some_ne_none _
    · rw [hrunning, ht]
      rfl
    · show t.spAt (some q) = none
      rw [hsaved, Function.update_of_ne (hrunning ▸ hq)]
      rfl
  | true =>
    have hnew : s'.newPlace p = none := by simp [hs', newPlace, hflag]
    have ht : t = s'.contextJump (entry .idle) := by
      have hsome : ¬ s'.spAt none = none := by simp [hs', spAt]
      simp only [← hs', hnew, if_neg hsome] at hf
      exact (Option.some.inj hf).symm
    have hrunning : t.oldPlace = none := by
      rw [ht]
      simp [hs', oldPlace, contextJump, hflag]
    refine fresh_spec ?_ (fun q => ?_) ?_ ?_ fun q _ => ?_
    · rw [ht]
      rfl
    · rw [ht]
      rfl
    · rw [hrunning, ht]
      exact Option.some_ne_none _
    · rw [hrunning, ht]
      rfl
    · rw [ht]
      rfl

/-! What a partition does itself -/

theorem spAt_setPartition {part : SwitchPartition C} (hsp : part.sp = (s.partitions p).sp) :
    (s.setPartition p part).spAt = s.spAt := by
  funext i
  cases i with
  | none => rfl
  | some q =>
    by_cases hq : q = p
    · subst hq
      simp [spAt, hsp]
    · simp [spAt, setPartition_ne hq]

/-- The processor keeps its place when a partition changes its own context. -/
theorem outer_own (entry : KernelContext → C) (part : SwitchPartition C) (c : C)
    (hplace : s.oldPlace = some p) (hsp : part.sp = (s.partitions p).sp) (hlive : s.outer.Live) :
    (((s.setPartition p part).contextJump c).outer).own (outerStart entry) (some p) = c ∧
      ∀ i, i ≠ some p → (((s.setPartition p part).contextJump c).outer).own (outerStart entry) i =
        s.outer.own (outerStart entry) i := by
  have houter : ((s.setPartition p part).contextJump c).outer = s.outer.run fun _ => c :=
    outer_ext rfl rfl (spAt_setPartition hsp)
  rw [houter]
  have hrunning : s.outer.running = some p := hplace
  refine ⟨?_, fun i hi => State.own_run_ne (hrunning ▸ hi) _⟩
  rw [← hrunning]
  exact State.own_run_self hlive _

/-- A change to one partition keeps the places of the contexts in order. -/
theorem Sound.setPartition {part : SwitchPartition C} {c : C} (h : s.Sound)
    (hsp : part.sp = (s.partitions p).sp) (hcurrent : part.current ≠ .start →
      (s.partitions p).current ≠ .start ∨ s.oldPlace = some p)
    (hidle : part.current = .doNothing → part.idleSp ≠ none)
    (hstart : part.current = .start → (s.partitions p).current = .start) :
    ((s.setPartition p part).contextJump c).Sound := by
  refine ⟨⟨h.idle, fun q hq => ?_, fun q hq => ?_⟩, ?_⟩
  · by_cases he : q = p
    · subst he
      simp only [contextJump, setPartition_self, hsp] at hq ⊢
      by_contra hne
      rcases hcurrent hne with hold | hplace
      · exact hold (h.restarted q hq)
      · have hlive : s.spAt s.oldPlace ≠ none := h.live
        rw [hplace] at hlive
        exact hlive hq
    · simp only [contextJump, setPartition_ne he] at hq ⊢
      exact h.restarted q hq
  · by_cases he : q = p
    · subst he
      simp only [contextJump, setPartition_self] at hq ⊢
      exact hidle hq
    · simp only [contextJump, setPartition_ne he] at hq ⊢
      exact h.current q hq
  · have hlive : s.spAt s.oldPlace ≠ none := h.live
    show (s.setPartition p part).spAt s.oldPlace ≠ none
    rwa [spAt_setPartition hsp]

theorem contextJump_self (s : Processor C) : s.contextJump s.context = s := rfl

/-- What a partition knows of its threads changes, and the context that is executed does not. -/
theorem inner_change (entry : KernelContext → C) {part : SwitchPartition C}
    (hsp : part.sp = (s.partitions p).sp) :
    (s.setPartition p part).outer = s.outer ∧ (s.setPartition p part).inner entry p =
      ⟨s.outer.own (outerStart entry) (some p), part.current, runnerSp part⟩ := by
  have houter : (s.setPartition p part).outer = s.outer :=
    outer_ext rfl rfl (spAt_setPartition hsp)
  rw [inner, houter, setPartition_self]
  exact ⟨rfl, rfl⟩

theorem runnerSp_startError (part : SwitchPartition C) (u : Nat) :
    runnerSp (startError part (some u)) = Function.update (runnerSp part) (.thread u) none := by
  rw [← runnerSp_setRunnerSp part (by simp)]
  funext r
  cases r <;> rfl

/-- A thread that is started anew has no context of its own. -/
theorem inner_startError (entry : KernelContext → C) (s : Processor C) (p u : Nat) :
    (s.setPartition p (startError (s.partitions p) (some u))).inner entry p =
      (s.inner entry p).forget (.thread u) := by
  have hsp : (startError (s.partitions p) (some u)).sp = (s.partitions p).sp := rfl
  rw [(inner_change entry hsp).2, runnerSp_startError]
  rfl

section

variable (h : s.Sound) (hplace : s.oldPlace = some p)

include h hplace

theorem arincStart_keeps {main : Nat} (ht : arincStart entry s p main = some t) :
    t.Sound ∧ Keeps entry (fun x => x.partition = some p ∧ x ≠ .start p) s t := by
  unfold arincStart at ht
  split_ifs at ht with hstart
  obtain rfl := Option.some.inj ht
  set part : SwitchPartition C :=
    { s.partitions p with
      current := .thread main
      threadSp := fun t => if t = main then some (entry (.thread p main)) else none
      idleSp := none
      started := fun t => t = main } with hpart
  obtain ⟨hown, hothers⟩ :=
    outer_own entry part (entry (.thread p main)) hplace rfl h.live
  have hself : (((s.setPartition p part).contextJump (entry (.thread p main))).partitions p) =
    part := setPartition_self _
  refine ⟨h.setPartition rfl (fun _ => .inr hplace) (fun hc => nomatch hc) (fun hc => nomatch hc),
    keeps_of_partition hothers (fun q hq => ?_) (fun x hx => hx.1) fun x hxp hx => ?_⟩
  · simp [contextJump, setPartition_ne hq]
  · cases x with
    | idle => cases hxp
    | start q =>
      obtain rfl := Option.some.inj hxp
      rw [Alive, hself] at hx
      cases hx
    | doNothing q =>
      obtain rfl := Option.some.inj hxp
      refine ⟨fun _ => State.own_of_none ?_, fun hno => absurd ⟨hxp, nofun⟩ hno⟩
      rw [inner, hself]
      rfl
    | thread q u =>
      obtain rfl := Option.some.inj hxp
      refine ⟨fun _ => ?_, fun hno => absurd ⟨hxp, nofun⟩ hno⟩
      by_cases hu : u = main
      · subst hu
        have hlive : (inner entry ((s.setPartition q part).contextJump (entry (.thread q u)))
            q).Live := by
          rw [inner, State.Live, hself]
          simp [hpart, runnerSp]
        have hinner : State.own (innerStart entry q) _ _ = _ := State.own_of_live hlive
        refine Eq.trans ?_ (hinner.trans hown)
        rw [show (inner entry ((s.setPartition q part).contextJump (entry (.thread q u)))
          q).running = .thread u by rw [inner, hself]]
        rfl
      · apply State.own_of_none
        rw [inner, hself]
        simp [hpart, runnerSp, hu]

theorem startThread_keeps (entry : KernelContext → C) {u : Nat} (ht : s.startThread p u = some t) :
    t.Sound ∧ Keeps entry (· = .thread p u) s t := by
  unfold startThread at ht
  split_ifs at ht with hguard
  obtain ⟨-, hcurrent⟩ := hguard
  obtain rfl := Option.some.inj ht
  set part : SwitchPartition C := startError (s.partitions p) (some u) with hpart
  have hsp : part.sp = (s.partitions p).sp := rfl
  have houter : (s.setPartition p part).outer = s.outer := (inner_change entry hsp).1
  have hforget : (s.setPartition p part).inner entry p = (s.inner entry p).forget (.thread u) :=
    inner_startError entry s p u
  change (s.setPartition p part).Sound ∧ Keeps entry (· = .thread p u) s (s.setPartition p part)
  constructor
  · rw [← contextJump_self (s.setPartition p part)]
    exact h.setPartition rfl (fun hc => .inl hc) (fun hc => h.current p hc) fun hc => hc
  · refine keeps_of_partition (fun i _ => by rw [houter]) (fun q hq => ?_) (by rintro x rfl; rfl)
      fun x hxp hx => ?_
    · rw [setPartition_ne hq]
    · cases x with
      | idle => cases hxp
      | start q =>
        obtain rfl := Option.some.inj hxp
        refine ⟨fun he => (nomatch he), fun _ => ?_⟩
        rw [Alive, setPartition_self] at hx
        exact absurd hx hcurrent
      | doNothing q =>
        obtain rfl := Option.some.inj hxp
        refine ⟨fun he => (nomatch he), fun _ => ⟨hcurrent, ?_⟩⟩
        rw [virtual, hforget, State.own_forget_ne (by simp)]
        rfl
      | thread q v =>
        obtain rfl := Option.some.inj hxp
        rw [virtual, hforget]
        refine ⟨fun he => ?_, fun hne => ⟨hcurrent, ?_⟩⟩
        · obtain rfl : v = u := by simpa using he
          exact State.own_forget_self
        · have hv : v ≠ u := fun he => hne (by rw [he])
          rw [State.own_forget_ne (by simpa using hv)]
          rfl

end

theorem stopThread_keeps (entry : KernelContext → C) (h : s.Sound) (p u : Nat) :
    (s.stopThread p u).Sound ∧ Keeps entry (fun _ => False) s (s.stopThread p u) := by
  set part : SwitchPartition C :=
    { s.partitions p with started := Function.update (s.partitions p).started u false } with hpart
  have hstop : s.stopThread p u = s.setPartition p part := rfl
  have hsp : part.sp = (s.partitions p).sp := rfl
  obtain ⟨houter, hinner⟩ := inner_change entry hsp
  have hsame : (s.setPartition p part).inner entry p = s.inner entry p := by
    rw [hinner]
    rfl
  rw [hstop]
  constructor
  · rw [← contextJump_self (s.setPartition p part)]
    exact h.setPartition rfl (fun hc => .inl hc) (fun hc => h.current p hc) fun hc => hc
  · refine keeps_of_partition (p := p) (fun i _ => by rw [houter]) (fun q hq => ?_)
      (fun _ hf => hf.elim) fun x hxp hx => ⟨False.elim, fun _ => ?_⟩
    · rw [setPartition_ne hq]
    · cases x with
      | idle => cases hxp
      | start q =>
        obtain rfl := Option.some.inj hxp
        rw [Alive, setPartition_self] at hx
        exact ⟨hx, by rw [virtual, houter]; rfl⟩
      | doNothing q =>
        obtain rfl := Option.some.inj hxp
        rw [Alive, setPartition_self] at hx
        exact ⟨hx, by rw [virtual, hsame]; rfl⟩
      | thread q v =>
        obtain rfl := Option.some.inj hxp
        rw [Alive, setPartition_self] at hx
        exact ⟨hx, by rw [virtual, hsame]; rfl⟩

/-- What the threads of a partition share after it has changed them and its context. -/
theorem inner_jump {part : SwitchPartition C} {c : C} (hplace : s.oldPlace = some p)
    (hsp : part.sp = (s.partitions p).sp) (hlive : s.outer.Live) :
    ((s.setPartition p part).contextJump c).inner entry p = ⟨c, part.current, runnerSp part⟩ := by
  have hself : ((s.setPartition p part).contextJump c).partitions p = part := setPartition_self _
  rw [inner, (outer_own entry part c hplace hsp hlive).1, hself]

/-- What the end of `sched_arinc` does. -/
structure Chosen (entry : KernelContext → C) (s t : Processor C) (p : Nat) (new : KernelRunner) :
    Prop where
  inner : t.inner entry p = (s.inner entry p).switch (innerStart entry p) new
  sp : ∃ part c, t = (s.setPartition p part).contextJump c ∧ part.sp = (s.partitions p).sp

theorem switchRunner_chosen {new : KernelRunner} (hplace : s.oldPlace = some p)
    (hlive : s.outer.Live) (hold : (s.partitions p).current ≠ .start) (hnew : new ≠ .start)
    (hidle : (s.partitions p).current = .doNothing → (s.partitions p).idleSp ≠ none) :
    Chosen entry s (switchRunner entry s p new) p new := by
  have hcontext : s.outer.own (outerStart entry) (some p) = s.context := by
    have hrunning : s.outer.running = some p := hplace
    rw [← hrunning]
    exact State.own_of_live hlive
  unfold switchRunner
  by_cases hsame : new = (s.partitions p).current
  · by_cases hstay : new = .doNothing ∨ runnerSp (s.partitions p) new ≠ none
    · have hsome : (s.inner entry p).saved new ≠ none := by
        rcases hstay with rfl | hne
        · exact hidle hsame.symm
        · exact hne
      simp only [if_pos hsame, if_pos hstay]
      refine ⟨(State.switch_of_some hsame hsome).symm, s.partitions p, s.context, ?_, rfl⟩
      rw [contextJump, setPartition, Function.update_eq_self]
    · have hnone : runnerSp (s.partitions p) new = none := by
        by_contra hne
        exact hstay (.inr hne)
      simp only [if_pos hsame, if_neg hstay]
      obtain ⟨hsp, hcurrent⟩ :=
        setRunnerSp_fields (s.partitions p) new (some (entry (runnerEntry p new)))
      refine ⟨?_, _, _, rfl, hsp⟩
      rw [inner_jump hplace hsp hlive, State.switch_of_none hsame hnone, hcurrent,
        runnerSp_setRunnerSp _ hnew]
      rfl
  · obtain ⟨c, hc⟩ : ∃ c, (runnerSp (s.partitions p) new).getD (entry (runnerEntry p new)) = c :=
      ⟨_, rfl⟩
    set part : SwitchPartition C :=
      setRunnerSp { s.partitions p with current := new } new (some c) with hpart
    obtain ⟨hsp, hcurrent⟩ :=
      setRunnerSp_fields { s.partitions p with current := new } new (some c)
    have hrunner : runnerSp part = Function.update (runnerSp (s.partitions p)) new (some c) := by
      rw [hpart, runnerSp_setRunnerSp _ hnew]
      congr 1
    have hkept : runnerSp part (s.partitions p).current =
        runnerSp (s.partitions p) (s.partitions p).current := by
      rw [hrunner, Function.update_of_ne (Ne.symm hsame)]
    simp only [if_neg hsame, hc, ← hpart]
    split_ifs with hlost
    · refine ⟨?_, _, _, rfl, hsp⟩
      rw [inner_jump hplace hsp hlive, hcurrent, hrunner, State.switch_of_ne hsame]
      have hempty : (s.inner entry p).saved (s.inner entry p).running = none :=
        hkept.symm.trans hlost
      rw [if_pos hempty, State.resume, ← hc]
      rfl
    · obtain ⟨hsp', hcurrent'⟩ :=
        setRunnerSp_fields part (s.partitions p).current (some s.context)
      refine ⟨?_, _, _, rfl, hsp'.trans hsp⟩
      rw [inner_jump hplace (hsp'.trans hsp) hlive, hcurrent', hcurrent,
        runnerSp_setRunnerSp _ hold, hrunner, State.switch_of_ne hsame]
      have hfull : ¬ (s.inner entry p).saved (s.inner entry p).running = none := fun he =>
        hlost (hkept.trans he)
      rw [if_neg hfull, State.resume, ← hc, Function.update_comm hsame]
      simp only [inner, hcontext]
      rfl

theorem schedArinc_eq {reset new : Option Nat} (ht : schedArinc entry s p reset new = some t) :
    (s.partitions p).current ≠ .start ∧
      t = switchRunner entry (s.setPartition p (startError (s.partitions p) reset)) p
        (chosen new) := by
  unfold schedArinc at ht
  split_ifs at ht with hguard
  exact ⟨hguard.1, (Option.some.inj ht).symm⟩

theorem schedArinc_keeps {reset new : Option Nat} (h : s.Sound) (hplace : s.oldPlace = some p)
    (ht : schedArinc entry s p reset new = some t) :
    t.Sound ∧ Keeps entry (fun x => ∃ u, reset = some u ∧ x = .thread p u) s t := by
  obtain ⟨hcurrent, rfl⟩ := schedArinc_eq ht
  have hnew : chosen new ≠ .start := by cases new <;> simp [chosen]
  set mid := startError (s.partitions p) reset with hmid
  have hsp : mid.sp = (s.partitions p).sp := by cases reset <;> rfl
  have hmidCurrent : mid.current = (s.partitions p).current := by cases reset <;> rfl
  have hmidIdle : mid.idleSp = (s.partitions p).idleSp := by cases reset <;> rfl
  obtain ⟨houter, hinner⟩ := inner_change entry hsp
  have hchosen : Chosen entry (s.setPartition p mid) _ p (chosen new) :=
    switchRunner_chosen hplace (houter ▸ h.live) (by rwa [setPartition_self, hmidCurrent]) hnew
      (by
        rw [setPartition_self, hmidCurrent, hmidIdle]
        exact h.current p)
  obtain ⟨hswitch, part, c, ht, hpart⟩ := hchosen
  rw [setPartition_self] at hpart
  have hjump : (s.setPartition p mid).setPartition p part = s.setPartition p part := by
    simp only [setPartition, Function.update_idem]
  rw [hjump] at ht
  have hself : ((s.setPartition p part).contextJump c).partitions p = part := setPartition_self _
  rw [ht] at hswitch ⊢
  have hrunning : part.current = chosen new := by
    have hr := congrArg State.running hswitch
    rw [State.switch_running] at hr
    exact (congrArg SwitchPartition.current hself).symm.trans hr
  have hidle (he : part.current = .doNothing) : part.idleSp ≠ none := by
    have hl : ((s.setPartition p part).contextJump c |>.inner entry p).Live := by
      rw [hswitch]
      exact State.switch_live
    rwa [inner, State.Live, hself, he] at hl
  have hothers := (outer_own entry part c hplace (hpart.trans hsp) h.live).2
  refine ⟨h.setPartition (hpart.trans hsp) (fun _ => .inl hcurrent) hidle
    (fun he => absurd (hrunning.symm.trans he) hnew), ?_⟩
  have hown (r : KernelRunner) : ((s.setPartition p part).contextJump c |>.inner entry p).own
      (innerStart entry p) r =
        ((s.setPartition p mid).inner entry p).own (innerStart entry p) r := by
    rw [hswitch, State.own_switch]
  refine keeps_of_partition hothers (fun q hq => ?_) ?_ fun x hxp hx => ?_
  · simp [contextJump, setPartition_ne hq]
  · rintro x ⟨u, -, rfl⟩
    rfl
  · have hforget : (s.setPartition p mid).inner entry p =
        reset.elim (s.inner entry p) fun u => (s.inner entry p).forget (.thread u) := by
      cases reset with
      | none => exact hinner
      | some u => exact inner_startError entry s p u
    have hkept (r : KernelRunner) (hr : ∀ u, reset = some u → r ≠ .thread u) :
        ((s.setPartition p mid).inner entry p).own (innerStart entry p) r =
          (s.inner entry p).own (innerStart entry p) r := by
      rw [hforget]
      cases reset with
      | none => rfl
      | some u => exact State.own_forget_ne (hr u rfl)
    cases x with
    | idle => cases hxp
    | start q =>
      obtain rfl := Option.some.inj hxp
      rw [Alive, hself, hrunning] at hx
      exact absurd hx hnew
    | doNothing q =>
      obtain rfl := Option.some.inj hxp
      refine ⟨fun hreset => ?_, fun _ => ⟨hcurrent, ?_⟩⟩
      · obtain ⟨u, -, he⟩ := hreset
        cases he
      · exact (hown .doNothing).trans (hkept _ fun u _ => KernelRunner.noConfusion)
    | thread q v =>
      obtain rfl := Option.some.inj hxp
      refine ⟨fun hreset => ?_, fun hno => ⟨hcurrent, (hown (.thread v)).trans (hkept _ ?_)⟩⟩
      · obtain ⟨u, hu, he⟩ := hreset
        obtain rfl : v = u := (KernelContext.thread.inj he).2
        subst hu
        refine (hown (.thread v)).trans ?_
        rw [hforget]
        exact State.own_forget_self
      · intro u hu he
        exact hno ⟨u, hu, by rw [KernelRunner.thread.inj he]⟩

end Processor

end Chpok
