import Mathlib.Data.List.Basic
import Mathlib.Data.List.Chain
import Mathlib.Data.List.Nodup
import Mathlib.Logic.Function.Basic

/-! A pool of linked cells. The free cells form a list whose order the links give; a chain that
is in use is linked by the same links and ends with the first cell that is not continued. -/

namespace ChainPool

variable {α : Type*} {next next' : α → α} {more more' : α → Bool} {first a b : α}
  {free rest c d : List α} {chains : List (List α)}

/-- The cells of a chain -/
def Chain (next : α → α) (more : α → Bool) : List α → Prop
  | [] => False
  | [a] => more a = false
  | a :: b :: rest => more a = true ∧ next a = b ∧ Chain next more (b :: rest)

theorem Chain.congr (h : Chain next more c) (hnext : ∀ a ∈ c, next' a = next a)
    (hmore : ∀ a ∈ c, more' a = more a) : Chain next' more' c := by
  induction c with
  | nil => exact h
  | cons a c ih =>
    cases c with
    | nil => exact (hmore a (by simp)).trans h
    | cons b c =>
      obtain ⟨ha, hb, hrest⟩ := h
      refine ⟨(hmore a (by simp)).trans ha, (hnext a (by simp)).trans hb, ih hrest ?_ ?_⟩
      · exact fun x hx => hnext x (by simp [hx])
      · exact fun x hx => hmore x (by simp [hx])

theorem Chain.ne_nil (h : Chain next more c) : c ≠ [] := by
  rintro rfl
  exact h

/-- The cells of the pool: the free ones, from the first one on, and the chains in use. -/
structure Pool (next : α → α) (more : α → Bool) (first : α) (free : List α)
    (chains : List (List α)) : Prop where
  nodup : (free ++ chains.flatten).Nodup
  first : ∀ a ∈ free.head?, first = a
  linked : free.IsChain fun a b => next a = b
  chained : ∀ c ∈ chains, Chain next more c

theorem Pool.take (h : Pool next more first (c ++ rest) chains) (hc : Chain next more' c)
    (hmore : ∀ a, a ∉ c → more' a = more a) {last : α} (hlast : last ∈ c.getLast?) :
    Pool next more' (next last) rest (c :: chains) := by
  have hnodup := h.nodup
  rw [List.append_assoc] at hnodup
  constructor
  · rw [List.flatten_cons, ← List.append_assoc]
    rw [← List.append_assoc] at hnodup
    exact (List.perm_append_comm.append_right _).nodup_iff.mp hnodup
  · intro a ha
    obtain ⟨init, rfl⟩ := List.getLast?_eq_some_iff.mp hlast
    obtain ⟨tail, rfl⟩ := List.head?_eq_some_iff.mp ha
    have hlinked := h.linked
    rw [List.append_assoc] at hlinked
    exact (List.isChain_append_cons_cons.mp hlinked).2.1
  · exact h.linked.right_of_append
  · intro d hd
    rcases List.mem_cons.mp hd with rfl | hd
    · exact hc
    · apply (h.chained d hd).congr (fun _ _ => rfl)
      intro a ha
      apply hmore
      intro hac
      have hdisjoint := List.disjoint_of_nodup_append hnodup
      exact hdisjoint hac (List.mem_append_right _ (List.mem_flatten_of_mem hd ha))

theorem Chain.isChain (h : Chain next more c) : c.IsChain fun a b => next a = b := by
  induction c with
  | nil => exact List.IsChain.nil
  | cons a c ih =>
    cases c with
    | nil => exact List.IsChain.singleton a
    | cons b c => exact List.IsChain.cons_cons h.2.1 (ih h.2.2)

section Release

variable [DecidableEq α] {last : α}

theorem isChain_update_last (h : c.IsChain fun a b => next a = b) (hnodup : c.Nodup)
    (hlast : last ∈ c.getLast?) (v : α) :
    c.IsChain fun a b => Function.update next last v a = b := by
  induction c with
  | nil => exact List.IsChain.nil
  | cons a c ih =>
    cases c with
    | nil => exact List.IsChain.singleton a
    | cons b c =>
      obtain ⟨hab, hrest⟩ := List.isChain_cons_cons.mp h
      obtain ⟨ha, hnodup⟩ := List.nodup_cons.mp hnodup
      have hlast : last ∈ (b :: c).getLast? := by simpa using hlast
      have hne : a ≠ last := by
        rintro rfl
        exact ha (List.mem_of_getLast? hlast)
      refine List.IsChain.cons_cons ?_ (ih hrest hnodup hlast)
      rw [Function.update_of_ne hne, hab]

theorem isChain_update_of_notMem (h : c.IsChain fun a b => next a = b) (hlast : last ∉ c) (v : α) :
    c.IsChain fun a b => Function.update next last v a = b := by
  apply h.imp_of_mem_imp
  intro a b ha _ hab
  rw [Function.update_of_ne (ne_of_mem_of_not_mem ha hlast), hab]

theorem release_perm (before after : List (List α)) (c free : List α) :
    (c ++ free ++ (before ++ after).flatten).Perm (free ++ (before ++ c :: after).flatten) := by
  simp only [List.flatten_append, List.flatten_cons, List.append_assoc]
  grind [List.perm_append_comm_assoc]

/-- A chain comes back to the beginning of the free list. -/
theorem Pool.release {before after : List (List α)}
    (h : Pool next more first free (before ++ c :: after)) (hhead : a ∈ c.head?)
    (hlast : last ∈ c.getLast?) :
    Pool (Function.update next last first) more a (c ++ free) (before ++ after) := by
  have hnodup := (release_perm before after c free).nodup_iff.mpr h.nodup
  have hc : Chain next more c := h.chained c (by simp)
  have hmem : last ∈ c := List.mem_of_getLast? hlast
  have hcnodup : c.Nodup := (List.nodup_append'.mp (List.nodup_append'.mp hnodup).1).1
  have hfree : last ∉ free := fun hf =>
    (List.nodup_append'.mp (List.nodup_append'.mp hnodup).1).2.2 hmem hf
  constructor
  · exact hnodup
  · intro x hx
    rw [List.head?_append, Option.mem_def.mp hhead] at hx
    exact Option.some.inj hx
  · apply List.isChain_append.mpr
    refine ⟨isChain_update_last hc.isChain hcnodup hlast first,
      isChain_update_of_notMem h.linked hfree first, fun x hx y hy => ?_⟩
    obtain rfl : last = x := Option.some.inj (hlast.symm.trans hx)
    rw [Function.update_self]
    exact h.first y hy
  · intro d hd
    have hdc : d ∈ before ++ c :: after := by
      rcases List.mem_append.mp hd with hd | hd
      · simp [hd]
      · simp [hd]
    apply (h.chained d hdc).congr _ fun _ _ => rfl
    intro x hx
    apply Function.update_of_ne
    rintro rfl
    have hdisjoint := (List.nodup_append'.mp hnodup).2.2
    exact hdisjoint (List.mem_append_left _ hmem) (List.mem_flatten_of_mem hd hx)

end Release

end ChainPool
