import Mathlib.Data.Nat.Bitwise
import Mathlib.Algebra.BigOperators.Group.List.Basic

/-! Sums of 16-bit words whose carries are added once. -/

namespace OnesComplement

/-- The carries are added to the low half. -/
def fold (n : Nat) : Nat := n % 2 ^ 16 + n / 2 ^ 16

/-- With its complement a sum is all ones, unless adding the carries makes another one. -/
theorem fold_complement {n : Nat} (hn : n / 2 ^ 16 < 2 ^ 16) :
    fold (n + (2 ^ 16 - 1 - fold n % 2 ^ 16)) % 2 ^ 16 = 2 ^ 16 - 1 ↔ fold n < 2 ^ 16 := by
  unfold fold
  rcases Nat.lt_or_ge (n % 2 ^ 16 + n / 2 ^ 16) (2 ^ 16) with hlt | hge
  · have hmod : (n + (2 ^ 16 - 1 - (n % 2 ^ 16 + n / 2 ^ 16) % 2 ^ 16)) % 2 ^ 16 =
        2 ^ 16 - 1 - n / 2 ^ 16 := by omega
    have hdiv : (n + (2 ^ 16 - 1 - (n % 2 ^ 16 + n / 2 ^ 16) % 2 ^ 16)) / 2 ^ 16 =
        n / 2 ^ 16 := by omega
    rw [hmod, hdiv]
    omega
  · have hmod : (n + (2 ^ 16 - 1 - (n % 2 ^ 16 + n / 2 ^ 16) % 2 ^ 16)) % 2 ^ 16 =
        2 ^ 16 - 1 - n / 2 ^ 16 := by omega
    have hdiv : (n + (2 ^ 16 - 1 - (n % 2 ^ 16 + n / 2 ^ 16) % 2 ^ 16)) / 2 ^ 16 =
        n / 2 ^ 16 + 1 := by omega
    rw [hmod, hdiv]
    omega

/-- The sum of the words in 32 bits -/
def sum32 (words : List (BitVec 16)) : BitVec 32 :=
  words.foldl (fun acc word => acc + word.setWidth 32) 0

theorem foldl_toNat (words : List (BitVec 16)) (acc : BitVec 32)
    (hfit : acc.toNat + (words.map BitVec.toNat).sum < 2 ^ 32) :
    (words.foldl (fun acc word => acc + word.setWidth 32) acc).toNat =
      acc.toNat + (words.map BitVec.toNat).sum := by
  induction words generalizing acc with
  | nil => rfl
  | cons word words ih =>
    rw [List.map_cons, List.sum_cons] at hfit
    have hword := word.isLt
    have hadd : (acc + word.setWidth 32).toNat = acc.toNat + word.toNat := by
      rw [BitVec.toNat_add, BitVec.toNat_setWidth]
      omega
    rw [List.foldl_cons, ih, hadd, List.map_cons, List.sum_cons, Nat.add_assoc]
    omega

theorem sum32_toNat {words : List (BitVec 16)} (hfit : (words.map BitVec.toNat).sum < 2 ^ 32) :
    (sum32 words).toNat = (words.map BitVec.toNat).sum := by
  have hzero : (0 : BitVec 32).toNat = 0 := rfl
  rw [sum32, foldl_toNat, hzero, Nat.zero_add]
  omega

theorem complement_toNat (acc : BitVec 32) :
    ((~~~((acc &&& 0xFFFF#32) + (acc >>> 16))).setWidth 16).toNat =
      2 ^ 16 - 1 - fold acc.toNat % 2 ^ 16 := by
  have hlt := acc.isLt
  have hmask : (acc &&& 0xFFFF#32).toNat = acc.toNat % 2 ^ 16 := by
    rw [BitVec.toNat_and]
    exact Nat.and_two_pow_sub_one_eq_mod acc.toNat 16
  have hshift : (acc >>> 16).toNat = acc.toNat / 2 ^ 16 := by
    rw [BitVec.toNat_ushiftRight, Nat.shiftRight_eq_div_pow]
  rw [BitVec.toNat_setWidth, BitVec.toNat_not, BitVec.toNat_add, hmask, hshift]
  unfold fold
  omega

/-- The sum of two words, the carry added at the low end -/
def addCarry (a b : BitVec 16) : BitVec 16 :=
  if a.toNat + b.toNat < 2 ^ 16 then a + b else a + b + 1

/-- The one's complement sum of the words -/
def onesSum (words : List (BitVec 16)) : BitVec 16 := words.foldl addCarry 0

/-- The residue of a sum modulo all ones, which is all ones rather than zero for any other sum
than zero -/
def residue (n : Nat) : Nat := if n = 0 then 0 else (n - 1) % (2 ^ 16 - 1) + 1

theorem residue_eq {n : Nat} (hn : n < 2 ^ 16) : residue n = n := by
  unfold residue
  split_ifs <;> omega

theorem addCarry_toNat (a b : BitVec 16) : (addCarry a b).toNat = residue (a.toNat + b.toNat) := by
  have ha := a.isLt
  have hb := b.isLt
  have hone : (1 : BitVec 16).toNat = 1 := rfl
  unfold addCarry residue
  split_ifs <;> simp only [BitVec.toNat_add, hone] <;> omega

theorem residue_add_residue (m n : Nat) : residue (residue m + n) = residue (m + n) := by
  unfold residue
  split_ifs <;> omega

theorem foldl_addCarry_toNat (words : List (BitVec 16)) (acc : BitVec 16) :
    (words.foldl addCarry acc).toNat = residue (acc.toNat + (words.map BitVec.toNat).sum) := by
  induction words generalizing acc with
  | nil => simp [residue_eq acc.isLt]
  | cons word words ih =>
    simp only [List.foldl_cons, List.map_cons, List.sum_cons]
    rw [ih, addCarry_toNat, residue_add_residue, Nat.add_assoc]

theorem onesSum_toNat (words : List (BitVec 16)) :
    (onesSum words).toNat = residue (words.map BitVec.toNat).sum := by
  have hzero : (0 : BitVec 16).toNat = 0 := rfl
  rw [onesSum, foldl_addCarry_toNat, hzero, Nat.zero_add]

theorem fold_eq_residue {n : Nat} (hn : n / 2 ^ 16 < 2 ^ 16) :
    fold n % 2 ^ 16 = residue n ↔ fold n < 2 ^ 16 := by
  have hfold : residue n = residue (n % 2 ^ 16 + n / 2 ^ 16) := by
    have hmod : (n - 1) % (2 ^ 16 - 1) = (n % 2 ^ 16 + n / 2 ^ 16 - 1) % (2 ^ 16 - 1) ∨ n = 0 := by
      rcases Nat.eq_zero_or_pos n with hzero | hpos
      · exact Or.inr hzero
      · have hsplit : n - 1 = n % 2 ^ 16 + n / 2 ^ 16 - 1 + (2 ^ 16 - 1) * (n / 2 ^ 16) := by omega
        rw [hsplit, Nat.add_mul_mod_self_left]
        exact Or.inl rfl
    unfold residue
    split_ifs <;> omega
  have hbound : n % 2 ^ 16 + n / 2 ^ 16 < 2 ^ 17 - 1 := by omega
  rw [hfold]
  unfold fold residue
  generalize n % 2 ^ 16 + n / 2 ^ 16 = m at hbound
  split_ifs <;> omega

theorem sum_lt {words : List (BitVec 16)} (hlen : words.length ≤ 2 ^ 16) :
    (words.map BitVec.toNat).sum < 2 ^ 32 := by
  have hbound : (words.map BitVec.toNat).sum ≤ words.length * (2 ^ 16 - 1) := by
    clear hlen
    induction words with
    | nil => simp
    | cons word words ih =>
      have hword := word.isLt
      simp only [List.map_cons, List.sum_cons, List.length_cons]
      omega
  have hprod : words.length * (2 ^ 16 - 1) ≤ 2 ^ 16 * (2 ^ 16 - 1) := Nat.mul_le_mul_right _ hlen
  omega

end OnesComplement
