import Mathlib.Algebra.Order.Ring.Nat
import Mathlib.Tactic.Ring

/-! Division by shift and subtract, on natural numbers. -/

namespace ShiftSubtract

variable {n d q r k : Nat}

/-- The quotient of `n` by `d` is known up to its low `k` bits. -/
structure Partial (n d k q r : Nat) : Prop where
  sum : q * d + r = n
  bound : r < d * 2 ^ k

theorem Partial.start (h : n < d * 2 ^ k) : Partial n d k 0 n := ⟨by omega, h⟩

theorem Partial.subtract (h : Partial n d (k + 1) q r) (hfits : d * 2 ^ k ≤ r) :
    Partial n d k (q + 2 ^ k) (r - d * 2 ^ k) where
  sum := by
    have hsum := h.sum
    have hq : (q + 2 ^ k) * d = q * d + d * 2 ^ k := by ring
    omega
  bound := by
    have hbound := h.bound
    rw [Nat.pow_succ, ← Nat.mul_assoc] at hbound
    omega

theorem Partial.skip (h : Partial n d (k + 1) q r) (hfits : r < d * 2 ^ k) : Partial n d k q r :=
  ⟨h.sum, hfits⟩

theorem Partial.quotient (h : Partial n d 0 q r) : q = n / d := by
  obtain ⟨hsum, hbound⟩ := h
  rw [Nat.pow_zero, Nat.mul_one] at hbound
  have hsucc : (q + 1) * d = q * d + d := Nat.succ_mul q d
  symm
  apply Nat.div_eq_of_lt_le
  · omega
  · omega

theorem Partial.le (h : Partial n d k q r) : q ≤ n := by
  have hsum := h.sum
  have hd : 0 < d := Nat.pos_of_mul_pos_right (Nat.zero_lt_of_lt h.bound)
  have hle := Nat.le_mul_of_pos_right q hd
  omega

end ShiftSubtract
