import Mathlib.Data.List.Basic
import Mathlib.Tactic.Cases

/-! Output in pieces to a buffer of limited room, with levels. A text without room ends its level;
a field, which must leave room for something behind it, ends the whole output. -/

namespace BoundedOutput

variable {α : Type*} {n : Nat} {w : List α}

inductive Pieces (α : Type*) where
  | done
  | text (s : List α) (rest : Pieces α)
  | field (s : List α) (rest : Pieces α)
  | level (inner rest : Pieces α)

namespace Pieces

variable {p : Pieces α}

/-- The output when there is room for everything -/
def expansion : Pieces α → List α
  | done => []
  | text s rest => s ++ rest.expansion
  | field s rest => s ++ rest.expansion
  | level inner rest => inner.expansion ++ rest.expansion

/-- The output to a room of `n`, if no field ends it -/
def output : Pieces α → Nat → Option (List α)
  | done, _ => some []
  | text s rest, n =>
    if n < s.length then some [] else (rest.output (n - s.length)).map (s ++ ·)
  | field s rest, n =>
    if n ≤ s.length then none else (rest.output (n - s.length)).map (s ++ ·)
  | level inner rest, n =>
    (inner.output n).bind fun w => (rest.output (n - w.length)).map (w ++ ·)

/-- The room behind the last piece, by the lengths of the pieces alone -/
def left : Pieces α → Nat → Option Nat
  | done, n => some n
  | text s rest, n => if n < s.length then some n else rest.left (n - s.length)
  | field s rest, n => if n ≤ s.length then none else rest.left (n - s.length)
  | level inner rest, n => (inner.left n).bind rest.left

theorem output_length_le (h : p.output n = some w) : w.length ≤ n := by
  induction p generalizing n w with
  | done =>
    simp only [output, Option.some.injEq] at h
    simp [← h]
  | text s rest ih =>
    simp only [output] at h
    split_ifs at h with hroom
    · simp only [Option.some.injEq] at h
      simp [← h]
    · obtain ⟨v, hv, rfl⟩ := Option.map_eq_some_iff.mp h
      have hle := ih hv
      simp only [List.length_append]
      omega
  | field s rest ih =>
    simp only [output] at h
    split_ifs at h with hroom
    obtain ⟨v, hv, rfl⟩ := Option.map_eq_some_iff.mp h
    have hle := ih hv
    simp only [List.length_append]
    omega
  | level inner rest ihInner ihRest =>
    obtain ⟨u, hu, hrest⟩ := Option.bind_eq_some_iff.mp h
    obtain ⟨v, hv, rfl⟩ := Option.map_eq_some_iff.mp hrest
    have hleInner := ihInner hu
    have hleRest := ihRest hv
    simp only [List.length_append]
    omega

theorem left_eq (p : Pieces α) (n : Nat) : p.left n = (p.output n).map (n - ·.length) := by
  induction p generalizing n with
  | done => simp [left, output]
  | text s rest ih =>
    simp only [left, output]
    split_ifs with hroom
    · simp
    · simp [ih, Function.comp_def, Nat.sub_sub]
  | field s rest ih =>
    simp only [left, output]
    split_ifs with hroom
    · simp
    · simp [ih, Function.comp_def, Nat.sub_sub]
  | level inner rest ihInner ihRest =>
    simp only [left, output, ihInner]
    cases inner.output n with
    | none => simp
    | some u => simp [ihRest, Function.comp_def, Nat.sub_sub]

theorem output_of_lt (h : p.expansion.length < n) : p.output n = some p.expansion := by
  induction p generalizing n with
  | done => rfl
  | text s rest ih =>
    simp only [expansion, List.length_append] at h
    have hrest := ih (n := n - s.length) (by omega)
    simp only [output, expansion, hrest, Option.map_some]
    exact if_neg (by omega)
  | field s rest ih =>
    simp only [expansion, List.length_append] at h
    have hrest := ih (n := n - s.length) (by omega)
    simp only [output, expansion, hrest, Option.map_some]
    exact if_neg (by omega)
  | level inner rest ihInner ihRest =>
    simp only [expansion, List.length_append] at h
    have hinner := ihInner (n := n) (by omega)
    have hrest := ihRest (n := n - inner.expansion.length) (by omega)
    simp only [output, expansion, hinner, Option.bind_some, hrest, Option.map_some]

end Pieces

end BoundedOutput
