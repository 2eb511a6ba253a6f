import Mathlib.Data.List.Nodup
import Mathlib.Logic.Function.Basic

/-! Cells copied one after the other. A cell that is read after it has been written gives its new
value. -/

namespace SequentialCopy

variable {α β : Type*} [DecidableEq α] {mem : α → β} {before after moves : List (α × α)} {a b : α}

/-- Each move has the cell that is written and the one that is read. -/
def run (mem : α → β) (moves : List (α × α)) : α → β :=
  moves.foldl (fun mem move => Function.update mem move.1 (mem move.2)) mem

theorem run_cons (mem : α → β) (move : α × α) (moves : List (α × α)) :
    run mem (move :: moves) = run (Function.update mem move.1 (mem move.2)) moves := rfl

theorem run_append (mem : α → β) (before after : List (α × α)) :
    run mem (before ++ after) = run (run mem before) after := List.foldl_append

theorem run_of_notMem (h : a ∉ moves.map Prod.fst) : run mem moves a = mem a := by
  induction moves generalizing mem with
  | nil => rfl
  | cons move moves ih =>
    rw [List.map_cons, List.mem_cons, not_or] at h
    rw [run_cons, ih h.2, Function.update_of_ne h.1]

theorem run_target (hnodup : ((before ++ (a, b) :: after).map Prod.fst).Nodup) :
    run mem (before ++ (a, b) :: after) a =
      if b ∈ before.map Prod.fst then run mem (before ++ (a, b) :: after) b else mem b := by
  rw [List.map_append, List.map_cons, List.nodup_append', List.nodup_cons] at hnodup
  obtain ⟨-, ⟨hafter, -⟩, hdisjoint⟩ := hnodup
  have hwritten : run mem (before ++ (a, b) :: after) a = run mem before b := by
    rw [run_append, run_cons, run_of_notMem hafter, Function.update_self]
  rw [hwritten]
  split_ifs with hbefore
  · have hlater : b ∉ ((a, b) :: after).map Prod.fst := fun h => hdisjoint hbefore h
    rw [run_append, run_of_notMem hlater]
  · exact run_of_notMem hbefore

section Shift

variable {copied source : Nat → β} {n m : Nat}

/-- Cells at a distance of `m` hold the same. -/
def Repeats (source : Nat → β) (n m : Nat) : Prop := ∀ i, i + m < n → source (i + m) = source i

theorem copied_forward_iff
    (h : ∀ i < n, copied i = if 0 < m ∧ m ≤ i then copied (i - m) else source i) :
    (∀ i < n, copied i = source i) ↔ Repeats source n m := by
  constructor
  · intro hall i hi
    rcases Nat.eq_zero_or_pos m with rfl | hm
    · rfl
    have hread := h (i + m) hi
    rw [if_pos ⟨hm, Nat.le_add_left m i⟩, Nat.add_sub_cancel] at hread
    rw [← hall (i + m) hi, hread, hall i (by omega)]
  · intro hrep i
    induction i using Nat.strongRecOn with
    | ind i ih =>
      intro hi
      rw [h i hi]
      split_ifs with hread
      · have hback : i - m + m = i := Nat.sub_add_cancel hread.2
        have hsource := hrep (i - m) (by omega)
        rw [hback] at hsource
        rw [ih (i - m) (by omega) (by omega), hsource]
      · rfl

theorem copied_backward_iff
    (h : ∀ i < n, copied i = if 0 < m ∧ i + m < n then copied (i + m) else source i) :
    (∀ i < n, copied i = source i) ↔ Repeats source n m := by
  constructor
  · intro hall i hi
    rcases Nat.eq_zero_or_pos m with rfl | hm
    · rfl
    have hread := h i (by omega)
    rw [if_pos ⟨hm, hi⟩] at hread
    rw [← hall i (by omega), hread, hall (i + m) hi]
  · intro hrep i hi
    -- the cells behind come first
    obtain ⟨k, hk⟩ : ∃ k, n - i = k := ⟨_, rfl⟩
    induction k using Nat.strongRecOn generalizing i with
    | ind k ih =>
      rw [h i hi]
      split_ifs with hread
      · rw [ih (n - (i + m)) (by omega) (i + m) hread.2 rfl, hrep i hread.2]
      · rfl

end Shift

end SequentialCopy
