import Mathlib.Logic.Relation

/-! Loops that test a condition before each pass: the states at the head of the loop, and a rule
with an invariant that counts the passes to come. -/

namespace WhileLoop

variable {S : Type*} {cond : S → Bool} {body : S → S} {s t : S}

/-- One pass -/
def Pass (cond : S → Bool) (body : S → S) (s t : S) : Prop := cond s = true ∧ body s = t

/-- The loop that has begun in one state is at its head in the other. -/
abbrev Heads (cond : S → Bool) (body : S → S) := Relation.ReflTransGen (Pass cond body)

/-- The state behind the loop, if it ends within `fuel` passes. -/
def run (cond : S → Bool) (body : S → S) : Nat → S → Option S
  | 0, s => if cond s then none else some s
  | fuel + 1, s => if cond s then run cond body fuel (body s) else some s

/-- What `n` passes at most keep until they are done. -/
structure Counts (cond : S → Bool) (body : S → S) (I : Nat → S → Prop) : Prop where
  done : ∀ s, I 0 s → cond s = false
  pass : ∀ n s, I (n + 1) s → cond s = true → I n (body s)

variable {I : Nat → S → Prop}

theorem Counts.heads (h : Counts cond body I) {n : Nat} (hs : I n s)
    (ht : Heads cond body s t) : ∃ m, m ≤ n ∧ I m t := by
  induction ht with
  | refl => exact ⟨n, Nat.le_refl n, hs⟩
  | tail _ hpass ih =>
    obtain ⟨m, hm, hI⟩ := ih
    obtain ⟨hcond, rfl⟩ := hpass
    cases m with
    | zero =>
      rw [h.done _ hI] at hcond
      contradiction
    | succ m => exact ⟨m, Nat.le_of_succ_le hm, h.pass m _ hI hcond⟩

theorem Counts.run (h : Counts cond body I) {n fuel : Nat} (hs : I n s) (hfuel : n ≤ fuel) :
    ∃ t, run cond body fuel s = some t ∧ Heads cond body s t ∧ cond t = false := by
  induction fuel generalizing n s with
  | zero =>
    obtain rfl := Nat.le_zero.mp hfuel
    have hdone := h.done s hs
    exact ⟨s, by simp [WhileLoop.run, hdone], .refl, hdone⟩
  | succ fuel ih =>
    cases hcond : cond s with
    | false => exact ⟨s, by simp [WhileLoop.run, hcond], .refl, hcond⟩
    | true =>
      cases n with
      | zero =>
        rw [h.done s hs] at hcond
        contradiction
      | succ n =>
        obtain ⟨t, hrun, hheads, hend⟩ := ih (h.pass n s hs hcond) (Nat.le_of_succ_le_succ hfuel)
        exact ⟨t, by simp [WhileLoop.run, hcond, hrun], .head ⟨hcond, rfl⟩ hheads, hend⟩

end WhileLoop
