import Mathlib.Algebra.BigOperators.Group.List.Basic
import Mathlib.Data.Finset.Card
import Mathlib.Logic.Function.Basic
import Mathlib.Algebra.Order.Ring.Nat

/-! A queue of keys, each with a finite set of flags. A key is in the queue as long as it has
flags; flags are raised at the end of the queue and cleared anywhere. -/

structure FlaggedQueue (α β : Type*) where
  flags : α → Finset β
  order : List α

namespace FlaggedQueue

variable {α β : Type*} [DecidableEq α] [DecidableEq β] {q : FlaggedQueue α β} {a k : α} {b c : β}

def raise (q : FlaggedQueue α β) (a : α) (b : β) : FlaggedQueue α β where
  flags := Function.update q.flags a (insert b (q.flags a))
  order := if a ∈ q.order then q.order else q.order ++ [a]

def clear (q : FlaggedQueue α β) (a : α) (b : β) : FlaggedQueue α β where
  flags := Function.update q.flags a ((q.flags a).erase b)
  order := if (q.flags a).erase b = ∅ then q.order.erase a else q.order

theorem raise_flags : (q.raise a b).flags = Function.update q.flags a (insert b (q.flags a)) := rfl

theorem clear_flags : (q.clear a b).flags = Function.update q.flags a ((q.flags a).erase b) := rfl

/-- The flags and the queue say the same. -/
structure Listed (q : FlaggedQueue α β) : Prop where
  mem : ∀ a, q.flags a ≠ ∅ ↔ a ∈ q.order
  nodup : q.order.Nodup

/-- A flag that only the first key may have. -/
def OnlyFirst (q : FlaggedQueue α β) (b : β) : Prop := ∀ a ∈ q.order.tail, b ∉ q.flags a

/-- How often a flag waits to be cleared. -/
def pending (q : FlaggedQueue α β) (e : α × β) : Nat := if e.2 ∈ q.flags e.1 then 1 else 0

/-- How many flags wait to be cleared. -/
def size (q : FlaggedQueue α β) : Nat := (q.order.map fun a => (q.flags a).card).sum

theorem Listed.raise (h : q.Listed) : (q.raise a b).Listed where
  mem k := by
    simp only [FlaggedQueue.raise]
    by_cases hk : k = a
    · subst hk
      rw [Function.update_self]
      split_ifs with hmem
      · simp [hmem]
      · simp
    · rw [Function.update_of_ne hk, h.mem k]
      split_ifs
      · rfl
      · simp [hk]
  nodup := by
    simp only [FlaggedQueue.raise]
    split_ifs with hmem
    · exact h.nodup
    · apply h.nodup.append (List.nodup_singleton a)
      simpa using hmem

theorem Listed.clear (h : q.Listed) : (q.clear a b).Listed where
  mem k := by
    simp only [FlaggedQueue.clear]
    by_cases hk : k = a
    · subst hk
      rw [Function.update_self]
      split_ifs with hrest
      · simp [hrest, h.nodup.not_mem_erase]
      · have hmem : q.flags k ≠ ∅ := fun he => hrest (by simp [he])
        simp [hrest, (h.mem k).mp hmem]
    · rw [Function.update_of_ne hk, h.mem k]
      split_ifs
      · rw [List.mem_erase_of_ne hk]
      · rfl
  nodup := by
    simp only [FlaggedQueue.clear]
    split_ifs
    · exact h.nodup.erase a
    · exact h.nodup

omit [DecidableEq α] in
theorem Listed.flags_eq_empty (h : q.Listed) (hnil : q.order = []) : q.flags a = ∅ := by
  by_contra hne
  have hmem := (h.mem a).mp hne
  simp [hnil] at hmem

theorem mem_tail_of_mem_tail_erase {l : List α} (h : k ∈ (l.erase a).tail) : k ∈ l.tail := by
  cases l with
  | nil => simp at h
  | cons x l =>
    rw [List.erase_cons] at h
    split_ifs at h
    · exact List.mem_of_mem_tail h
    · exact List.mem_of_mem_erase h

theorem OnlyFirst.raise_of_ne (h : q.OnlyFirst c) (hmem : ∀ a, q.flags a ≠ ∅ ↔ a ∈ q.order)
    (hbc : b ≠ c) : (q.raise a b).OnlyFirst c := by
  intro k hk
  have hold : c ∉ q.flags k := by
    simp only [raise] at hk
    split_ifs at hk with ha
    · exact h k hk
    · cases hl : q.order with
      | nil => simp [hl] at hk
      | cons x l =>
        rw [hl, List.cons_append, List.tail_cons, List.mem_append, List.mem_singleton] at hk
        rcases hk with hk | rfl
        · exact h k (by simp [hl, hk])
        · have hempty : q.flags k = ∅ := by
            by_contra hne
            exact ha ((hmem k).mp hne)
          simp [hempty]
  simp only [raise]
  by_cases hka : k = a
  · subst hka
    simp [hold, hbc.symm]
  · rw [Function.update_of_ne hka]
    exact hold

theorem OnlyFirst.raise_of_nil (hnil : q.order = []) : (q.raise a b).OnlyFirst c := by
  intro k hk
  simp [FlaggedQueue.raise, hnil] at hk

theorem OnlyFirst.clear (h : q.OnlyFirst c) : (q.clear a b).OnlyFirst c := by
  intro k hk
  have hold : c ∉ q.flags k := by
    simp only [FlaggedQueue.clear] at hk
    split_ifs at hk
    · exact h k (mem_tail_of_mem_tail_erase hk)
    · exact h k hk
  simp only [FlaggedQueue.clear]
  by_cases hka : k = a
  · subst hka
    rw [Function.update_self]
    exact fun hc => hold (Finset.mem_of_mem_erase hc)
  · rw [Function.update_of_ne hka]
    exact hold

theorem pending_raise [BEq (α × β)] [LawfulBEq (α × β)] (hb : b ∉ q.flags a) (e : α × β) :
    (q.raise a b).pending e = q.pending e + [(a, b)].count e := by
  obtain ⟨k, c⟩ := e
  simp only [pending, raise]
  by_cases hk : k = a
  · subst hk
    by_cases hc : c = b
    · subst hc
      simp [hb]
    · have hne : ¬ b = c := fun he => hc he.symm
      simp [hc, hne]
  · have hne : ¬ a = k := fun he => hk he.symm
    simp [Function.update_of_ne hk, hne]

theorem pending_clear [BEq (α × β)] [LawfulBEq (α × β)] (hb : b ∈ q.flags a) (e : α × β) :
    q.pending e = (q.clear a b).pending e + [(a, b)].count e := by
  obtain ⟨k, c⟩ := e
  simp only [pending, clear]
  by_cases hk : k = a
  · subst hk
    by_cases hc : c = b
    · subst hc
      simp [hb]
    · have hne : ¬ b = c := fun he => hc he.symm
      simp [hc, hne]
  · have hne : ¬ a = k := fun he => hk he.symm
    simp [Function.update_of_ne hk, hne]

theorem Listed.size_clear (h : q.Listed) (hb : b ∈ q.flags a) :
    (q.clear a b).size + 1 = q.size := by
  have hmem : a ∈ q.order := (h.mem a).mp (Finset.ne_empty_of_mem hb)
  have hcard : ((q.flags a).erase b).card + 1 = (q.flags a).card := Finset.card_erase_add_one hb
  have hsplit : ∀ g : α → Nat, (q.order.map g).sum = g a + ((q.order.erase a).map g).sum := by
    intro g
    rw [((List.perm_cons_erase hmem).map g).sum_eq, List.map_cons, List.sum_cons]
  have hrest : ((q.order.erase a).map fun k => ((q.clear a b).flags k).card) =
      (q.order.erase a).map fun k => (q.flags k).card := by
    apply List.map_congr_left
    intro k hk
    have hka : k ≠ a := fun he => h.nodup.not_mem_erase (he ▸ hk)
    rw [clear_flags, Function.update_of_ne hka]
  have hself : ((q.clear a b).flags a).card = ((q.flags a).erase b).card := by
    rw [clear_flags, Function.update_self]
  unfold size
  rw [hsplit fun k => (q.flags k).card]
  by_cases hempty : (q.flags a).erase b = ∅
  · have horder : (q.clear a b).order = q.order.erase a := if_pos hempty
    rw [horder, hrest]
    simp [hempty] at hcard
    omega
  · have horder : (q.clear a b).order = q.order := if_neg hempty
    rw [horder, hsplit, hrest, hself]
    omega

end FlaggedQueue
