import Mathlib.Data.Option.Basic
import Mathlib.Data.List.Basic

/-! Machines that are given the same inputs and put out the same. A relation between their states
that every input keeps, or that ends both runs, is enough. -/

namespace Lockstep

variable {S T S' T' E O O' : Type*}

/-- The outputs of a run, which ends with the first input that has no successor. -/
def outputs (step : S → E → Option (S × O)) : S → List E → List (Option O)
  | _, [] => []
  | s, e :: es =>
    match step s e with
    | none => [none]
    | some r => some r.2 :: outputs step r.1 es

def Both (rel : S → T → Prop) (r : S × O) (q : T × O) : Prop := rel r.1 q.1 ∧ r.2 = q.2

/-- Both stop, or both put out the same and are related afterwards. -/
def Alike (rel : S → T → Prop) : Option (S × O) → Option (T × O) → Prop := Option.Rel (Both rel)

theorem rel_ite {P : S → T → Prop} {c d : Prop} [Decidable c] [Decidable d] {m m' : S} {n n' : T}
    (hcd : c ↔ d) (h : c → P m n) (h' : ¬ c → P m' n') :
    P (if c then m else m') (if d then n else n') := by
  by_cases hc : c
  · simp only [if_pos hc, if_pos (hcd.mp hc)]
    exact h hc
  · simp only [if_neg hc, if_neg fun hd => hc (hcd.mpr hd)]
    exact h' hc

section
variable {R : S → T → Prop} {R' : S' → T' → Prop} {x : Option S} {y : Option T}

theorem rel_map {f : S → S'} {g : T → T'} (h : Option.Rel R x y)
    (hfg : ∀ s t, R s t → R' (f s) (g t)) : Option.Rel R' (x.map f) (y.map g) := by
  cases h with
  | none => exact .none
  | some hst => exact .some (hfg _ _ hst)

theorem rel_bind {f : S → Option S'} {g : T → Option T'} (h : Option.Rel R x y)
    (hfg : ∀ s t, R s t → Option.Rel R' (f s) (g t)) : Option.Rel R' (x.bind f) (y.bind g) := by
  cases h with
  | none => exact .none
  | some hst => exact hfg _ _ hst

theorem rel_refl (x : Option S) : Option.Rel Eq x x := by
  cases x with
  | none => exact .none
  | some s => exact .some rfl

theorem eq_of_rel {y : Option S} (h : Option.Rel Eq x y) : x = y := by
  cases h with
  | none => rfl
  | some hst => rw [hst]

end

section
variable {rel : S → T → Prop} {rel' : S' → T' → Prop} {m : Option (S × O)} {n : Option (T × O)}

theorem alike_some {s : S} {t : T} (h : rel s t) (o : O) : Alike rel (some (s, o)) (some (t, o)) :=
  .some ⟨h, rfl⟩

theorem Alike.ite {c d : Prop} [Decidable c] [Decidable d] {m' : Option (S × O)}
    {n' : Option (T × O)} (hcd : c ↔ d) (h : c → Alike rel m n) (h' : ¬ c → Alike rel m' n') :
    Alike rel (if c then m else m') (if d then n else n') :=
  rel_ite hcd h h'

theorem Alike.map {f : S × O → S' × O'} {g : T × O → T' × O'} (h : Alike rel m n)
    (hfg : ∀ s t o, rel s t → Both rel' (f (s, o)) (g (t, o))) :
    Alike rel' (m.map f) (n.map g) := by
  refine rel_map h fun r q hrq => ?_
  obtain ⟨s, o⟩ := r
  obtain ⟨t, o'⟩ := q
  obtain ⟨hrel, rfl⟩ := hrq
  exact hfg s t o hrel

theorem alike_bind_same {A : Type*} (x : Option A) {f : A → Option (S × O)}
    {g : A → Option (T × O)} (h : ∀ a, Alike rel (f a) (g a)) :
    Alike rel (x.bind f) (x.bind g) :=
  rel_bind (rel_refl x) fun a _ ha => ha ▸ h a

theorem alike_map_same {A : Type*} (x : Option A) {f : A → S × O} {g : A → T × O}
    (h : ∀ a, Both rel (f a) (g a)) : Alike rel (x.map f) (x.map g) :=
  rel_map (rel_refl x) fun a _ ha => ha ▸ h a

end

theorem outputs_eq {rel : S → T → Prop} {step : S → E → Option (S × O)}
    {step' : T → E → Option (T × O)} (hstep : ∀ s t e, rel s t → Alike rel (step s e) (step' t e))
    {s : S} {t : T} (h : rel s t) (es : List E) : outputs step s es = outputs step' t es := by
  induction es generalizing s t with
  | nil => rfl
  | cons e es ih =>
    have he := hstep s t e h
    simp only [outputs]
    cases hs : step s e with
    | none =>
      rw [hs] at he
      cases ht : step' t e with
      | none => rfl
      | some q =>
        rw [ht] at he
        cases he
    | some r =>
      rw [hs] at he
      cases ht : step' t e with
      | none =>
        rw [ht] at he
        cases he
      | some q =>
        rw [ht] at he
        obtain ⟨hrel, ho⟩ := Option.rel_some_some.mp he
        simp only [ho, ih hrel]

end Lockstep
