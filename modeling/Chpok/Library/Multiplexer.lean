import Mathlib.Logic.Function.Basic
import Mathlib.Tactic.SplitIfs

/-! One processor shared by many tasks. The context of a task is in the processor while the task
runs, and in its save area otherwise; an empty save area asks for the task to be started anew. Each
task may be thought of as having a processor of its own, which switching does not change. -/

namespace Multiplexer

variable {ι C : Type*}

structure State (ι C : Type*) where
  context : C
  running : ι
  saved : ι → Option C

namespace State

variable (start : ι → C)

/-- The task that runs goes on. -/
def run (s : State ι C) (f : C → C) : State ι C := { s with context := f s.context }

@[simp] theorem run_saved (s : State ι C) (f : C → C) : (s.run f).saved = s.saved := rfl

@[simp] theorem run_running (s : State ι C) (f : C → C) : (s.run f).running = s.running := rfl

variable [DecidableEq ι]

/-- The processor of a task. A save area that is not empty holds an old context while its task
runs. -/
def own (s : State ι C) (i : ι) : C :=
  match s.saved i with
  | none => start i
  | some c => if i = s.running then s.context else c

/-- A task is to be started anew when it runs next. -/
def forget (s : State ι C) (i : ι) : State ι C :=
  { s with saved := Function.update s.saved i none }

/-- The context of a task, which is made when there is none. -/
def resume (s : State ι C) (i : ι) : C := (s.saved i).getD (start i)

/-- The processor is given to a task. The context of the last one is lost when it is to be started
anew. -/
def switch (s : State ι C) (i : ι) : State ι C :=
  if i = s.running then
    if s.saved i = none then
      { s with context := start i, saved := Function.update s.saved i (some (start i)) }
    else s
  else
    { context := s.resume start i
      running := i
      saved := Function.update
        (if s.saved s.running = none then s.saved
          else Function.update s.saved s.running (some s.context)) i (some (s.resume start i)) }

/-- The task that runs need not be started anew. -/
def Live (s : State ι C) : Prop := s.saved s.running ≠ none

variable {start} {s : State ι C} {i j : ι}

@[simp] theorem forget_running : (s.forget i).running = s.running := rfl

theorem switch_of_some (hi : i = s.running) (h : s.saved i ≠ none) : s.switch start i = s := by
  rw [switch, if_pos hi, if_neg h]

theorem switch_of_none (hi : i = s.running) (h : s.saved i = none) : s.switch start i =
    { s with context := start i, saved := Function.update s.saved i (some (start i)) } := by
  rw [switch, if_pos hi, if_pos h]

theorem switch_of_ne (hi : i ≠ s.running) : s.switch start i =
    { context := s.resume start i
      running := i
      saved := Function.update
        (if s.saved s.running = none then s.saved
          else Function.update s.saved s.running (some s.context)) i (some (s.resume start i)) } := by
  rw [switch, if_neg hi]

theorem switch_running : (s.switch start i).running = i := by
  unfold switch
  split_ifs with hi <;> simp [hi]

theorem switch_live : (s.switch start i).Live := by
  unfold Live
  rw [switch_running]
  unfold switch
  split_ifs with hi hnone
  · simp
  · exact hnone
  all_goals simp

theorem saved_switch_ne (h : s.saved j ≠ none) : (s.switch start i).saved j ≠ none := by
  by_cases hj : j = i
  · subst hj
    have hlive : (s.switch start j).Live := switch_live
    rwa [Live, switch_running] at hlive
  · unfold switch
    split_ifs
    · simpa [hj] using h
    · exact h
    · simpa [hj] using h
    · by_cases hr : j = s.running
      · subst hr
        simp [hj]
      · simpa [hj, hr] using h

theorem own_of_live (h : s.Live) : s.own start s.running = s.context := by
  unfold Live at h
  unfold own
  split
  · contradiction
  · rw [if_pos rfl]

theorem own_of_none (h : s.saved i = none) : s.own start i = start i := by
  rw [own, h]

/-- No task has executed anything. -/
theorem own_eq_start (h : s.Live) (hcontext : s.context = start s.running)
    (hsaved : ∀ i, i ≠ s.running → s.saved i = none ∨ s.saved i = some (start i)) (i : ι) :
    s.own start i = start i := by
  by_cases hi : i = s.running
  · rw [hi, own_of_live h, hcontext]
  · rcases hsaved i hi with hnone | hsome
    · exact own_of_none hnone
    · rw [own, hsome]
      exact if_neg hi

/-- Switching changes the processor of no task. -/
theorem own_switch : (s.switch start i).own start j = s.own start j := by
  unfold switch
  split_ifs with hi hnone hrun
  · by_cases hj : j = i
    · subst hj
      simp [own, hi ▸ hnone, hi]
    · simp [own, hj, hi ▸ hj]
  · rfl
  · -- The context of the last task is lost.
    by_cases hj : j = i
    · subst hj
      cases hs : s.saved j <;> simp [own, resume, hs, hi]
    · by_cases hr : j = s.running
      · subst hr
        simp [own, hj, hrun]
      · simp [own, hj, hr]
  · by_cases hj : j = i
    · subst hj
      cases hs : s.saved j <;> simp [own, resume, hs, hi]
    · by_cases hr : j = s.running
      · subst hr
        cases hs : s.saved s.running with
        | none => exact absurd hs hrun
        | some c => simp [own, hj, hs]
      · simp [own, hj, hr]

theorem own_run_self (h : s.Live) (f : C → C) :
    (s.run f).own start s.running = f (s.own start s.running) := by
  rw [own_of_live h]
  exact own_of_live h

theorem own_run_ne (hne : i ≠ s.running) (f : C → C) :
    (s.run f).own start i = s.own start i := by
  simp [own, hne]

theorem own_forget_self : (s.forget i).own start i = start i :=
  own_of_none (Function.update_self ..)

theorem own_forget_ne (hne : j ≠ i) : (s.forget i).own start j = s.own start j := by
  have hsaved : (s.forget i).saved j = s.saved j := Function.update_of_ne hne ..
  unfold own
  rw [hsaved]
  rfl

end State

end Multiplexer
