import Chpok.Library.Lockstep

/-! Two arrays of which the first elements are in use. They are related as far as these go, whatever
is in the elements behind. -/

namespace FirstElements

open Lockstep

variable {α β : Type*} {R : α → β → Prop} {n : Nat} {l : List α} {m : List β}

structure Related (R : α → β → Prop) (n : Nat) (l : List α) (m : List β) : Prop where
  length : l.length = m.length
  element : ∀ i < n, Option.Rel R l[i]? m[i]?

theorem Related.start (h : l.length = m.length) : Related R 0 l m :=
  ⟨h, fun i hi => (Nat.not_lt_zero i hi).elim⟩

theorem Related.set_next (h : Related R n l m) {a : α} {b : β} (hab : R a b) :
    Related R (n + 1) (l.set n a) (m.set n b) := by
  refine ⟨by simp [h.length], fun i hi => ?_⟩
  by_cases hin : n = i
  · subst hin
    by_cases hl : n < l.length
    · rw [List.getElem?_set_self hl, List.getElem?_set_self (h.length ▸ hl)]
      exact .some hab
    · rw [List.getElem?_eq_none (by simpa using hl),
        List.getElem?_eq_none (by simpa [← h.length] using hl)]
      exact .none
  · rw [List.getElem?_set_ne hin, List.getElem?_set_ne hin]
    exact h.element i (by omega)

theorem Related.set_unused (h : Related R n l m) (a : α) (b : β) :
    Related R n (l.set n a) (m.set n b) := by
  refine ⟨by simp [h.length], fun i hi => ?_⟩
  rw [List.getElem?_set_ne (by omega), List.getElem?_set_ne (by omega)]
  exact h.element i hi

theorem Related.modify (h : Related R n l m) (i : Nat) {f : α → α} {g : β → β}
    (hfg : ∀ a b, R a b → R (f a) (g b)) : Related R n (l.modify i f) (m.modify i g) := by
  refine ⟨by simp [h.length], fun j hj => ?_⟩
  have hjn := h.element j hj
  by_cases hij : i = j
  · subst hij
    rw [List.getElem?_modify_eq, List.getElem?_modify_eq]
    exact rel_map hjn hfg
  · rw [List.getElem?_modify_ne _ _ hij, List.getElem?_modify_ne _ _ hij]
    exact hjn

theorem Related.imp {R' : α → β → Prop} (h : Related R n l m) (hR : ∀ a b, R a b → R' a b) :
    Related R' n l m := by
  refine ⟨h.length, fun i hi => ?_⟩
  have hi' := rel_map (f := id) (g := id) (h.element i hi) hR
  rwa [Option.map_id, Option.map_id] at hi'

/-- A search that cannot tell related elements apart ends at the same place. -/
theorem Related.findIdx? (h : Related R n l m) {p : α → Bool} {q : β → Bool}
    (hpq : ∀ a b, R a b → p a = q b) : (l.take n).findIdx? p = (m.take n).findIdx? q := by
  have hsame : (l.take n).map p = (m.take n).map q := by
    apply List.ext_getElem?
    intro i
    by_cases hi : i < n
    · rw [List.getElem?_map, List.getElem?_map, List.getElem?_take_of_lt hi,
        List.getElem?_take_of_lt hi]
      exact eq_of_rel (rel_map (h.element i hi) hpq)
    · rw [List.getElem?_eq_none (by simp; omega), List.getElem?_eq_none (by simp; omega)]
  have hp : (l.take n).findIdx? p = ((l.take n).map p).findIdx? id := by simp
  have hq : (m.take n).findIdx? q = ((m.take n).map q).findIdx? id := by simp
  rw [hp, hq, hsame]

end FirstElements
