import Mathlib.Data.Prod.Basic

/-! Ciphers in rounds, each of which masks one half of the block with a function of the other. They
are undone by the same rounds in the opposite order. -/

namespace Feistel

variable {K α : Type*} (mask : α → α → α) (round : K → α → α)

/-- A round masks the first half; then the halves change places. -/
def step (x : α × α) (k : K) : α × α := (x.2, mask x.1 (round k x.2))

def run (ks : List K) (x : α × α) : α × α := ks.foldl (step mask round) x

variable {mask} (hmask : ∀ a b, mask (mask a b) b = a)

include hmask

theorem step_swap (x : α × α) (k : K) :
    step mask round (step mask round x k).swap k = x.swap := by
  obtain ⟨a, b⟩ := x
  show (b, mask (mask a (round k b)) (round k b)) = (b, a)
  rw [hmask]

theorem run_reverse (ks : List K) (x : α × α) :
    run mask round ks.reverse (run mask round ks x).swap = x.swap := by
  induction ks generalizing x with
  | nil => rfl
  | cons k ks ih =>
    have hsplit : run mask round (k :: ks).reverse (run mask round (k :: ks) x).swap =
        step mask round (run mask round ks.reverse
          (run mask round ks (step mask round x k)).swap) k := by
      rw [run, List.reverse_cons, List.foldl_append]
      rfl
    rw [hsplit, ih]
    exact step_swap round hmask x k

end Feistel
