import Mathlib.Data.List.Basic
import Mathlib.Data.List.GetD
import Mathlib.Logic.Function.Basic
import Mathlib.Data.Nat.Bitwise

/-! Rings of `n` slots that are written and read at free-running indices. An index is the
number of values so far, cut to its width. -/

namespace FreeRunning

variable {α : Type*} {slots : Nat → α} {n start : Nat} {log : List α} {a : α}

/-- The values of the log from `start` on are in their slots. -/
def Holds (slots : Nat → α) (n : Nat) (log : List α) (start : Nat) : Prop :=
  ∀ j a, start ≤ j → log[j]? = some a → slots (j % n) = a

theorem holds_nil : Holds slots n [] start := by
  intro j a _ hj
  simp at hj

theorem Holds.read (h : Holds slots n log start) (hstart : log[start]? = some a) :
    slots (start % n) = a := h start a (Nat.le_refl _) hstart

theorem Holds.mono {start' : Nat} (h : Holds slots n log start) (hle : start ≤ start') :
    Holds slots n log start' := fun j a hj => h j a (Nat.le_trans hle hj)

theorem Holds.write (h : Holds slots n log start) (hroom : log.length < start + n) (a : α) :
    Holds (Function.update slots (log.length % n) a) n (log ++ [a]) start := by
  intro j b hj hget
  rcases Nat.lt_trichotomy j log.length with hlt | rfl | hgt
  · rw [List.getElem?_append_left hlt] at hget
    rw [Function.update_of_ne, h j b hj hget]
    intro heq
    have hsub : (log.length - j) % n = 0 := Nat.sub_mod_eq_zero_of_mod_eq heq.symm
    rw [Nat.mod_eq_of_lt (by omega)] at hsub
    omega
  · rw [List.getElem?_concat_length] at hget
    rw [Function.update_self]
    exact Option.some.inj hget
  · rw [List.getElem?_eq_none (by rw [List.length_append]; exact hgt)] at hget
    cases hget

theorem prefix_concat {read : List α} (h : read <+: log) (hlt : read.length < log.length) :
    read ++ [log[read.length]] <+: log := by
  obtain ⟨after, hafter⟩ := h
  have hdrop : log.drop read.length = after := by
    rw [← hafter, List.drop_left]
  rw [List.drop_eq_getElem_cons hlt] at hdrop
  refine ⟨log.drop (read.length + 1), ?_⟩
  rw [List.append_assoc, List.singleton_append, hdrop, hafter]

theorem ofNat_inj {w i j : Nat} (hle : i ≤ j) (hlt : j < i + 2 ^ w) :
    BitVec.ofNat w i = BitVec.ofNat w j ↔ i = j := by
  constructor
  · intro heq
    have hmod : i % 2 ^ w = j % 2 ^ w := by
      have := congrArg BitVec.toNat heq
      rwa [BitVec.toNat_ofNat, BitVec.toNat_ofNat] at this
    have hsub : (j - i) % 2 ^ w = 0 := Nat.sub_mod_eq_zero_of_mod_eq hmod.symm
    rw [Nat.mod_eq_of_lt (by omega)] at hsub
    omega
  · rintro rfl
    rfl

theorem ofNat_succ {w i : Nat} : BitVec.ofNat w i + 1 = BitVec.ofNat w (i + 1) := by
  rw [BitVec.ofNat_add]
  rfl

theorem mask_eq {w k i : Nat} (hk : k ≤ w) (hw : w < 32) :
    ((BitVec.ofNat w i).setWidth 32 &&& (BitVec.ofNat 32 (2 ^ k) - 1)).toNat = i % 2 ^ k := by
  have hpow : 2 ^ k < 2 ^ 32 := Nat.pow_lt_pow_right (by decide) (by omega)
  have hmask : (BitVec.ofNat 32 (2 ^ k) - 1).toNat = 2 ^ k - 1 := by
    have hpos := Nat.two_pow_pos k
    rw [BitVec.toNat_sub, BitVec.toNat_ofNat, Nat.mod_eq_of_lt hpow]
    have hone : (1 : BitVec 32).toNat = 1 := rfl
    rw [hone]
    omega
  have hindex : ((BitVec.ofNat w i).setWidth 32).toNat = i % 2 ^ w := by
    have hlt : i % 2 ^ w < 2 ^ 32 := Nat.lt_of_lt_of_le (Nat.mod_lt _ (Nat.two_pow_pos w))
      (Nat.pow_le_pow_right (by decide) hw.le)
    rw [BitVec.toNat_setWidth, BitVec.toNat_ofNat, Nat.mod_eq_of_lt hlt]
  rw [BitVec.toNat_and, hmask, hindex, Nat.and_two_pow_sub_one_eq_mod,
    Nat.mod_mod_of_dvd _ (Nat.pow_dvd_pow 2 hk)]

end FreeRunning
