import Mathlib.Data.List.Basic
import Mathlib.Data.List.Induction

/-! Machines that read a stream one symbol at a time and write on each of them. -/

namespace Transducer

variable {S I O A X : Type*} {step : S → I → S × List O}

def run (step : S → I → S × List O) : S → List I → S × List O
  | s, [] => (s, [])
  | s, i :: is => ((run step (step s i).1 is).1, (step s i).2 ++ (run step (step s i).1 is).2)

theorem run_singleton (s : S) (i : I) : run step s [i] = step s i := by
  rw [run, run, List.append_nil]

theorem run_append (s : S) (is js : List I) :
    run step s (is ++ js) =
      ((run step (run step s is).1 js).1, (run step s is).2 ++ (run step (run step s is).1 js).2) := by
  induction is generalizing s with
  | nil => rfl
  | cons i is ih => rw [List.cons_append, run, ih, run, List.append_assoc]

theorem run_append_of_eq {s t u : S} {is js : List I} {out out' : List O}
    (h : run step s is = (t, out)) (h' : run step t js = (u, out')) :
    run step s (is ++ js) = (u, out ++ out') := by
  rw [run_append, h, h']

theorem run_concat (s : S) (is : List I) (i : I) :
    (run step s (is ++ [i])).1 = (step (run step s is).1 i).1 := by
  rw [run_append, run_singleton]

/-- A state that the symbols do not change -/
theorem run_stays {s : S} {out : List O} {is : List I} (h : ∀ i ∈ is, step s i = (s, out)) :
    run step s is = (s, is.flatMap fun _ => out) := by
  induction is with
  | nil => rfl
  | cons i is ih =>
    obtain ⟨hi, his⟩ := List.forall_mem_cons.mp h
    rw [run, hi, ih his, List.flatMap_cons]

/-- A machine that takes whole words for the symbols of another one simulates it. -/
theorem run_words (astep : A → X → A × List O) (word : X → List I) (ok : X → Prop)
    (rel : A → S → Prop)
    (h : ∀ a s x, rel a s → ok x →
      ∃ t, run step s (word x) = (t, (astep a x).2) ∧ rel (astep a x).1 t)
    {a : A} {s : S} (hrel : rel a s) {xs : List X} (hok : ∀ x ∈ xs, ok x) :
    ∃ t, run step s (xs.flatMap word) = (t, (run astep a xs).2) ∧ rel (run astep a xs).1 t := by
  induction xs generalizing a s with
  | nil => exact ⟨s, rfl, hrel⟩
  | cons x xs ih =>
    obtain ⟨hx, hxs⟩ := List.forall_mem_cons.mp hok
    obtain ⟨m, hm, hmrel⟩ := h a s x hrel hx
    obtain ⟨t, ht, htrel⟩ := ih hmrel hxs
    exact ⟨t, run_append_of_eq hm ht, htrel⟩

/-- What the input so far says about the state -/
theorem run_invariant {inv : List I → S → Prop}
    (hstep : ∀ is s i, inv is s → inv (is ++ [i]) (step s i).1) {s : S} (hs : inv [] s)
    (is : List I) : inv is (run step s is).1 := by
  induction is using List.reverseRecOn with
  | nil => exact hs
  | append_singleton is i ih =>
    rw [run_concat]
    exact hstep is _ i ih

end Transducer
