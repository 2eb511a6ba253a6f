import Mathlib.Data.List.Basic
import Mathlib.Data.List.Nodup
import Mathlib.Logic.Function.Basic

/-! Linked lists without cells. A successor function on places holds the links; the place
`none` is the anchor, whose successor is the first element and whose predecessor the last
one. A list is linked in both directions when the same holds of its reverse for the
predecessor function, so that each fact about one direction is one about the other. -/

namespace LinkedList

variable {α : Type*} {f g : Option α → Option α} {a b : Option α} {x y : α} {xs ys : List α}

/-- From the place `a` the links lead through the elements of the list to `b`. -/
def Path (f : Option α → Option α) : Option α → List α → Option α → Prop
  | a, [], b => f a = b
  | a, x :: xs, b => f a = some x ∧ Path f (some x) xs b

theorem path_congr (h : Path f a xs b) (ha : g a = f a) (hxs : ∀ x ∈ xs, g (some x) = f (some x)) :
    Path g a xs b := by
  induction xs generalizing a with
  | nil => exact ha.trans h
  | cons x xs ih =>
    obtain ⟨hx, hrest⟩ := h
    exact ⟨ha.trans hx, ih hrest (hxs x (by simp)) fun y hy => hxs y (by simp [hy])⟩

theorem path_from {a' : Option α} (h : Path f a xs b) (ha : g a' = f a)
    (hxs : ∀ x ∈ xs, g (some x) = f (some x)) : Path g a' xs b := by
  cases xs with
  | nil => exact ha.trans h
  | cons x xs =>
    obtain ⟨hx, hrest⟩ := h
    exact ⟨ha.trans hx, path_congr hrest (hxs x (by simp)) fun y hy => hxs y (by simp [hy])⟩

theorem path_range' {g : Nat → α} {i m : Nat} (ha : f a = if m = 0 then none else some (g i))
    (hnext : ∀ j, i ≤ j → j < i + m →
      f (some (g j)) = if j + 1 < i + m then some (g (j + 1)) else none) :
    Path f a ((List.range' i m).map g) none := by
  induction m generalizing i a with
  | zero => exact ha.trans (if_pos rfl)
  | succ m ih =>
    rw [if_neg (Nat.succ_ne_zero m)] at ha
    refine ⟨ha, ih ?_ fun j hij hj => ?_⟩
    · rw [hnext i (Nat.le_refl i) (by omega)]
      split_ifs <;> first | rfl | omega
    · rw [hnext j (by omega) (by omega), Nat.add_right_comm i 1 m, Nat.add_assoc]

theorem path_append_cons :
    Path f a (xs ++ x :: ys) b ↔ Path f a xs (some x) ∧ Path f (some x) ys b := by
  induction xs generalizing a with
  | nil => rfl
  | cons y xs ih =>
    simp only [List.cons_append, Path, ih]
    exact and_assoc.symm

theorem path_head (h : Path f a xs none) : f a = xs.head? := by
  cases xs with
  | nil => exact h
  | cons x xs => exact h.1

theorem path_unique (h : Path f a xs none) (h' : Path f a ys none) : xs = ys := by
  induction xs generalizing a ys with
  | nil =>
    cases ys with
    | nil => rfl
    | cons y ys => cases h.symm.trans h'.1
  | cons x xs ih =>
    cases ys with
    | nil => cases h'.symm.trans h.1
    | cons y ys =>
      obtain rfl : x = y := Option.some.inj (h.1.symm.trans h'.1)
      rw [ih h.2 h'.2]

theorem path_succ (h : Path f a (xs ++ x :: ys) none) : f (some x) = ys.head? :=
  path_head (path_append_cons.mp h).2

/-- What an element refers to comes after it in the list. -/
def Later (f : α → Option α) : List α → Prop
  | [] => True
  | x :: xs => (∀ y, f x = some y → y ∈ xs) ∧ Later f xs

section Later

variable {first first' : α → Option α} {c : α}

theorem later_congr (h : Later first xs) (hxs : ∀ x ∈ xs, first' x = first x) :
    Later first' xs := by
  induction xs with
  | nil => trivial
  | cons x xs ih =>
    refine ⟨fun y hy => h.1 y ?_, ih h.2 fun y hy => hxs y (by simp [hy])⟩
    rw [← hxs x (by simp), hy]

theorem Later.mem (h : Later first (xs ++ x :: ys)) (hx : first x = some y) : y ∈ ys := by
  induction xs with
  | nil => exact h.1 y hx
  | cons z xs ih => exact ih h.2

theorem later_insert_behind (h : Later first (xs ++ x :: ys)) (hc : first' c = none)
    (hx : ∀ y, first' x = some y → y = c ∨ first x = some y)
    (hothers : ∀ y ∈ xs ++ ys, first' y = first y) : Later first' (xs ++ x :: c :: ys) := by
  induction xs with
  | nil =>
    refine ⟨fun y hy => ?_, fun y hy => ?_, later_congr h.2 hothers⟩
    · rcases hx y hy with rfl | hy
      · exact List.mem_cons_self
      · exact List.mem_cons_of_mem _ (h.1 y hy)
    · rw [hc] at hy
      cases hy
  | cons z xs ih =>
    refine ⟨fun y hy => ?_, ih h.2 fun y hy => hothers y (by simp [hy])⟩
    rw [hothers z (by simp)] at hy
    have hmem : y ∈ xs ++ x :: ys := h.1 y hy
    show y ∈ xs ++ x :: c :: ys
    simp only [List.mem_append, List.mem_cons] at hmem ⊢
    exact hmem.imp_right (Or.imp_right Or.inr)

end Later

section Update

variable [DecidableEq α]

theorem update_some_ne (hne : y ≠ x) (v : Option α) :
    Function.update f (some x) v (some y) = f (some y) :=
  Function.update_of_ne (fun he => hne (Option.some.inj he)) ..

theorem path_redirect (h : Path f a xs b) (hnodup : xs.Nodup) (ha : ∀ x ∈ xs, a ≠ some x)
    (c : Option α) : Path (Function.update f (xs.getLast?.or a) c) a xs c := by
  induction xs generalizing a with
  | nil => simp [Path]
  | cons x xs ih =>
    obtain ⟨hx, hrest⟩ := h
    obtain ⟨hnot, hnodup⟩ := List.nodup_cons.mp hnodup
    have hplace : (x :: xs).getLast?.or a = xs.getLast?.or (some x) := by
      cases hlast : xs.getLast? <;> simp [List.getLast?_cons, hlast]
    rw [hplace]
    refine ⟨?_, ih hrest hnodup fun y hy => ?_⟩
    · rw [Function.update_of_ne, hx]
      cases hlast : xs.getLast? with
      | none => exact ha x (by simp)
      | some y => exact ha y (by simp [List.mem_of_getLast? hlast])
    · rintro ⟨⟩
      exact hnot hy

/-- A new element is linked in between two neighbours. -/
theorem path_insert {c : α} (h : Path f none (xs ++ ys) none) (hnodup : (xs ++ ys).Nodup)
    (hc : c ∉ xs ++ ys) :
    Path (Function.update (Function.update f (some c) ys.head?) xs.getLast? (some c)) none
      (xs ++ c :: ys) none := by
  obtain ⟨hxs, hys, hdisjoint⟩ := List.nodup_append'.mp hnodup
  rw [List.mem_append, not_or] at hc
  have hbefore : Path f none xs ys.head? := by
    cases ys with
    | nil => simpa using h
    | cons y ys => exact (path_append_cons.mp h).1
  refine path_append_cons.mpr ⟨?_, ?_⟩
  · have hkeep : Path (Function.update f (some c) ys.head?) none xs ys.head? :=
      path_congr hbefore (by simp) fun x hx => update_some_ne (ne_of_mem_of_not_mem hx hc.1) _
    simpa using path_redirect hkeep hxs (by simp) (some c)
  · have hlast : ∀ y, y ∉ xs → xs.getLast? ≠ some y := fun y hy he =>
      hy (List.mem_of_getLast? he)
    cases ys with
    | nil => simp [Path, Function.update_of_ne (hlast c hc.1).symm]
    | cons y ys =>
      have hafter := (path_append_cons.mp h).2
      have hfresh : ∀ z ∈ y :: ys, Function.update (Function.update f (some c) (some y))
          xs.getLast? (some c) (some z) = f (some z) := by
        intro z hz
        rw [Function.update_of_ne (hlast z fun hx => hdisjoint hx hz).symm,
          update_some_ne (ne_of_mem_of_not_mem hz hc.2)]
      refine ⟨?_, path_congr hafter (hfresh y (by simp)) fun z hz => hfresh z (by simp [hz])⟩
      rw [List.head?_cons, Function.update_of_ne (hlast c hc.1).symm, Function.update_self]

theorem path_erase (h : Path f none (xs ++ x :: ys) none) (hnodup : (xs ++ x :: ys).Nodup)
    (v : Option α) :
    Path (Function.update (Function.update f xs.getLast? ys.head?) (some x) v) none
      (xs ++ ys) none := by
  obtain ⟨hxs, hys, hdisjoint⟩ := List.nodup_append'.mp hnodup
  obtain ⟨hx, hys⟩ := List.nodup_cons.mp hys
  obtain ⟨hbefore, hafter⟩ := path_append_cons.mp h
  have hredirect : Path (Function.update f xs.getLast? ys.head?) none xs ys.head? := by
    simpa using path_redirect hbefore hxs (by simp) ys.head?
  have hforget : Path (Function.update (Function.update f xs.getLast? ys.head?) (some x) v) none
      xs ys.head? :=
    path_congr hredirect (by simp) fun y hy =>
      update_some_ne (fun he => hdisjoint hy (by simp [he])) _
  cases ys with
  | nil => simpa using hforget
  | cons y ys =>
    refine path_append_cons.mpr ⟨hforget, ?_⟩
    have hfresh : ∀ z ∈ y :: ys, Function.update (Function.update f xs.getLast? (some y))
        (some x) v (some z) = f (some z) := by
      intro z hz
      rw [update_some_ne (ne_of_mem_of_not_mem hz hx), Function.update_of_ne]
      intro he
      exact hdisjoint (List.mem_of_getLast? he.symm) (by simp [hz])
    exact path_congr hafter.2 (hfresh y (by simp)) fun z hz => hfresh z (by simp [hz])

end Update

/-- The list is linked in both directions. -/
structure Linked (next prev : Option α → Option α) (l : List α) : Prop where
  nodup : l.Nodup
  next : Path next none l none
  prev : Path prev none l.reverse none

variable {next prev : Option α → Option α} {l : List α}

theorem Linked.unique {l' : List α} (h : Linked next prev l) (h' : Linked next prev l') :
    l = l' := path_unique h.next h'.next

theorem Linked.first_eq (h : Linked next prev l) : next none = l.head? := path_head h.next

theorem Linked.last_eq (h : Linked next prev l) : prev none = l.getLast? := by
  rw [path_head h.prev, List.head?_reverse]

theorem Linked.next_eq (h : Linked next prev (xs ++ x :: ys)) : next (some x) = ys.head? :=
  path_succ h.next

theorem Linked.prev_eq (h : Linked next prev (xs ++ x :: ys)) : prev (some x) = xs.getLast? := by
  have hprev := h.prev
  rw [List.reverse_append, List.reverse_cons, List.append_assoc] at hprev
  exact (path_succ hprev).trans List.head?_reverse

variable [DecidableEq α]

theorem Linked.insert {c : α} (h : Linked next prev (xs ++ ys)) (hc : c ∉ xs ++ ys) :
    Linked (Function.update (Function.update next (some c) ys.head?) xs.getLast? (some c))
      (Function.update (Function.update prev (some c) xs.getLast?) ys.head? (some c))
      (xs ++ c :: ys) := by
  have hprev := h.prev
  rw [List.reverse_append] at hprev
  have hnodup : (ys.reverse ++ xs.reverse).Nodup := by
    rw [← List.reverse_append]
    exact List.nodup_reverse.mpr h.nodup
  have hinsert := path_insert hprev hnodup (by simpa [and_comm] using hc)
  refine ⟨?_, path_insert h.next h.nodup hc, ?_⟩
  · exact List.nodup_middle.mpr (List.nodup_cons.mpr ⟨hc, h.nodup⟩)
  · simpa using hinsert

theorem Linked.erase (h : Linked next prev (xs ++ x :: ys)) (v w : Option α) :
    Linked (Function.update (Function.update next xs.getLast? ys.head?) (some x) v)
      (Function.update (Function.update prev ys.head? xs.getLast?) (some x) w) (xs ++ ys) := by
  have hprev := h.prev
  have hreverse : (xs ++ x :: ys).reverse = ys.reverse ++ x :: xs.reverse := by simp
  rw [hreverse] at hprev
  have herase := path_erase hprev (hreverse ▸ List.nodup_reverse.mpr h.nodup) w
  refine ⟨(List.nodup_cons.mp (List.nodup_middle.mp h.nodup)).2, path_erase h.next h.nodup v, ?_⟩
  simpa using herase

end LinkedList
