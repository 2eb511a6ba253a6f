import Mathlib.Data.List.Basic
import Mathlib.Logic.Function.Basic
import Mathlib.Tactic.SplitIfs

/-! Positions in a ring of `n` slots, advanced by compare-and-subtract, and the
list of values stored in a run of consecutive slots. -/

namespace RingIndex

def add (n p k : Nat) : Nat := if n ≤ p + k then p + k - n else p + k

/-- Number of steps that lead from `start` to `stop`. -/
def sub (n stop start : Nat) : Nat := if start ≤ stop then stop - start else stop + n - start

variable {n p q i j k : Nat}

theorem add_lt (hp : p < n) (hk : k ≤ n) : add n p k < n := by
  unfold add; split_ifs <;> omega

theorem sub_lt (hp : p < n) (hq : q < n) : sub n p q < n := by
  unfold sub; split_ifs <;> omega

@[simp] theorem add_zero (hp : p < n) : add n p 0 = p := by
  unfold add; split_ifs <;> omega

@[simp] theorem sub_self : sub n p p = 0 := by simp [sub]

theorem sub_eq_zero (hq : q < n) : sub n p q = 0 ↔ p = q := by
  unfold sub; split_ifs <;> omega

theorem sub_add (hp : p < n) (hk : k < n) : sub n (add n p k) p = k := by
  unfold sub add; split_ifs <;> omega

theorem add_sub (hp : p < n) (hq : q < n) : add n q (sub n p q) = p := by
  unfold sub add; split_ifs <;> omega

theorem add_add (hp : p < n) (h : i + j ≤ n) : add n (add n p i) j = add n p (i + j) := by
  unfold add; split_ifs <;> omega

theorem add_inj (hi : i < n) (hj : j < n) (h : add n p i = add n p j) : i = j := by
  unfold add at h; split_ifs at h <;> omega

theorem sub_add_start (hp : p < n) (hq : q < n) (hne : p ≠ q) :
    sub n p (add n q 1) + 1 = sub n p q := by
  unfold sub add; split_ifs <;> omega

theorem sub_add_stop (hp : p < n) (hq : q < n) (h : sub n p q + 1 < n) :
    sub n (add n p 1) q = sub n p q + 1 := by
  unfold sub at h; unfold sub add; split_ifs at * <;> omega

theorem sub_trans (hi : i < n) (hp : p < n) (hq : q < n) (h : sub n i p + sub n p q < n) :
    sub n i q = sub n i p + sub n p q := by
  unfold sub at *; split_ifs at * <;> omega

/-- The values in `k` consecutive slots from position `p`. -/
def segment {α : Type*} (n : Nat) (slot : Nat → α) (p k : Nat) : List α :=
  (List.range k).map fun i => slot (add n p i)

variable {α : Type*} {slot slot' : Nat → α}

@[simp] theorem segment_length : (segment n slot p k).length = k := by simp [segment]

@[simp] theorem segment_zero : segment n slot p 0 = [] := rfl

theorem segment_append (hp : p < n) (h : i + j ≤ n) :
    segment n slot p (i + j) = segment n slot p i ++ segment n slot (add n p i) j := by
  simp only [segment, List.range_add, List.map_append, List.map_map]
  refine congrArg _ (List.map_congr_left fun x hx => ?_)
  have := List.mem_range.mp hx
  simp only [Function.comp, add_add hp (show i + x ≤ n by omega)]

theorem segment_one (hp : p < n) : segment n slot p 1 = [slot p] := by
  simp [segment, hp]

theorem segment_snoc (hp : p < n) (hk : k < n) :
    segment n slot p (k + 1) = segment n slot p k ++ [slot (add n p k)] := by
  rw [segment_append hp (by omega), segment_one (add_lt hp (by omega))]

theorem segment_cons (hp : p < n) (hk : k < n) :
    segment n slot p (k + 1) = slot p :: segment n slot (add n p 1) k := by
  rw [Nat.add_comm, segment_append hp (by omega), segment_one hp]
  rfl

theorem segment_head? (hp : p < n) (hk : k ≤ n) :
    (segment n slot p k).head? = if k = 0 then none else some (slot p) := by
  rcases Nat.eq_zero_or_eq_succ_pred k with rfl | hsucc
  · rfl
  · rw [hsucc, Nat.succ_eq_add_one, segment_cons hp (by omega)]
    rfl

theorem segment_congr (h : ∀ i < k, slot (add n p i) = slot' (add n p i)) :
    segment n slot p k = segment n slot' p k :=
  List.map_congr_left fun i hi => h i (List.mem_range.mp hi)

theorem segment_update (hj : j < n) (hk : k ≤ j) (x : α) :
    segment n (Function.update slot (add n p j) x) p k = segment n slot p k := by
  apply segment_congr
  intro i hi
  have hne : add n p i ≠ add n p j := fun he => by
    have := add_inj (by omega) hj he
    omega
  simp [Function.update, hne]

end RingIndex
