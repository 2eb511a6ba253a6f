import Mathlib.Logic.Basic

/-! Computations that may stop early, and what holds of the value that they return or of the
exit that they take. -/

namespace Outcome

variable {ε α β : Type*} {exit exit' : ε → Prop} {post post' : α → Prop}

/-- The value returned satisfies `post`, the exit taken satisfies `exit`. -/
def Sat (exit : ε → Prop) (post : α → Prop) : Except ε α → Prop
  | .ok a => post a
  | .error e => exit e

@[simp]
theorem sat_ok {a : α} : Sat exit post (.ok a) ↔ post a := Iff.rfl

@[simp]
theorem sat_error {e : ε} : Sat exit post (.error e) ↔ exit e := Iff.rfl

theorem Sat.bind {m : Except ε α} {f : α → Except ε β} {post' : β → Prop}
    (hm : Sat exit post m) (hf : ∀ a, post a → Sat exit post' (f a)) :
    Sat exit post' (m.bind f) := by
  cases m with
  | ok a => exact hf a hm
  | error e => exact hm

theorem Sat.map {m : Except ε α} {f : α → β} {post' : β → Prop}
    (hm : Sat exit post m) (hf : ∀ a, post a → post' (f a)) : Sat exit post' (m.map f) := by
  cases m with
  | ok a => exact hf a hm
  | error e => exact hm

theorem Sat.map_exit {m : Except ε α} {f : α → β} (hm : Sat exit (fun _ => True) m) :
    Sat exit (fun _ => True) (m.map f) :=
  hm.map fun _ h => h

theorem Sat.mono {m : Except ε α} (hm : Sat exit post m) (hexit : ∀ e, exit e → exit' e)
    (hpost : ∀ a, post a → post' a) : Sat exit' post' m := by
  cases m with
  | ok a => exact hpost a hm
  | error e => exact hexit e hm

theorem Sat.weaken {m : Except ε α} (hm : Sat exit post m) (hpost : ∀ a, post a → post' a) :
    Sat exit post' m :=
  hm.mono (fun _ h => h) hpost

theorem Sat.ite {c : Prop} [Decidable c] {m n : Except ε α} (hm : c → Sat exit post m)
    (hn : ¬ c → Sat exit post n) : Sat exit post (if c then m else n) := by
  by_cases hc : c
  · rw [if_pos hc]
    exact hm hc
  · rw [if_neg hc]
    exact hn hc

theorem Sat.of_forall {m : Except ε α} (h : ∀ a, m = .ok a → post a) :
    Sat (fun _ => True) post m := by
  cases m with
  | ok a => exact h a rfl
  | error e => trivial

theorem Sat.bind_of_forall {m : Except ε α} {f : α → Except ε β} {post' : β → Prop}
    (hf : ∀ a, Sat (fun _ => True) post' (f a)) : Sat (fun _ => True) post' (m.bind f) := by
  cases m with
  | ok a => exact hf a
  | error e => trivial

theorem Sat.of_ok {m : Except ε α} {a : α} (hm : Sat exit post m) (h : m = .ok a) : post a := by
  subst h
  exact hm

theorem Sat.of_error {m : Except ε α} {e : ε} (hm : Sat exit post m) (h : m = .error e) :
    exit e := by
  subst h
  exact hm

theorem map_eq_ok {m : Except ε α} {f : α → β} {b : β} (h : m.map f = .ok b) :
    ∃ a, m = .ok a ∧ f a = b := by
  cases m with
  | ok a => exact ⟨a, rfl, Except.ok.inj h⟩
  | error e => cases h

theorem bind_eq_ok {m : Except ε α} {f : α → Except ε β} {b : β} (h : m.bind f = .ok b) :
    ∃ a, m = .ok a ∧ f a = .ok b := by
  cases m with
  | ok a => exact ⟨a, rfl, h⟩
  | error e => cases h

theorem ok_of_toOption {m : Except ε α} {a : α} (h : m.toOption = some a) : m = .ok a := by
  cases m with
  | ok b => exact congrArg Except.ok (Option.some.inj h)
  | error e => cases h

end Outcome
