import Mathlib.Data.Nat.Bitwise

/-! Rounding to a multiple of a power of two with a mask. -/

namespace Alignment

/-- The least multiple of `align` from `n` on -/
def alignUp (n align : Nat) : Nat := (n + (align - 1)) / align * align

theorem and_not_mask {w k : Nat} (x : BitVec w) :
    x &&& ~~~ BitVec.ofNat w (2 ^ k - 1) = (x >>> k) <<< k := by
  apply BitVec.eq_of_getLsbD_eq
  intro i hi
  rw [BitVec.getLsbD_and, BitVec.getLsbD_not, BitVec.getLsbD_ofNat, Nat.testBit_two_pow_sub_one,
    BitVec.getLsbD_shiftLeft, BitVec.getLsbD_ushiftRight]
  by_cases hik : i < k
  · simp [hik]
  · rw [Nat.add_sub_cancel' (not_lt.mp hik)]
    simp [hik, hi]

theorem toNat_and_not_mask {w k : Nat} (x : BitVec w) :
    (x &&& ~~~ BitVec.ofNat w (2 ^ k - 1)).toNat = x.toNat / 2 ^ k * 2 ^ k := by
  have hle : x.toNat / 2 ^ k * 2 ^ k ≤ x.toNat := Nat.div_mul_le_self ..
  rw [and_not_mask, BitVec.toNat_shiftLeft, BitVec.toNat_ushiftRight, Nat.shiftRight_eq_div_pow,
    Nat.shiftLeft_eq, Nat.mod_eq_of_lt (Nat.lt_of_le_of_lt hle x.isLt)]

theorem toNat_align {w k : Nat} (x : BitVec w) (hk : k ≤ w) :
    ((x + BitVec.ofNat w (2 ^ k - 1)) &&& ~~~ BitVec.ofNat w (2 ^ k - 1)).toNat =
      alignUp x.toNat (2 ^ k) % 2 ^ w := by
  have hpow : 2 ^ w = 2 ^ k * 2 ^ (w - k) := by rw [← Nat.pow_add, Nat.add_sub_cancel' hk]
  have hle : 2 ^ k ≤ 2 ^ w := Nat.pow_le_pow_right (by decide) hk
  have hpos : 0 < 2 ^ k := Nat.two_pow_pos k
  have hmask : (2 ^ k - 1) % 2 ^ w = 2 ^ k - 1 := Nat.mod_eq_of_lt (by omega)
  rw [toNat_and_not_mask, BitVec.toNat_add, BitVec.toNat_ofNat, hmask, alignUp, hpow,
    Nat.mod_mul_right_div_self, Nat.mul_comm (2 ^ k) (2 ^ (w - k)), Nat.mul_mod_mul_right]

end Alignment
