import Chpok.Library.SequentialCopy
import Chpok.Library.ByteMemory

/-! `memmove` (`libpok/libc/string/memmove.c`). Pointers have 32 bits. The regions are copied
from the beginning where the destination comes after the source, so that bytes are read that have
been written. -/

namespace Chpok

/-- The loop that copies bytes from the beginning -/
def copyBeginning (mem : BitVec 32 → Byte) (d s : BitVec 32) : Nat → BitVec 32 → Byte
  | 0 => mem
  | n + 1 => copyBeginning (Function.update mem d (mem s)) (d + 1) (s + 1) n

/-- The loop that copies bytes from the end -/
def copyEnd (mem : BitVec 32 → Byte) (dEnd sEnd : BitVec 32) : Nat → BitVec 32 → Byte
  | 0 => mem
  | n + 1 => copyEnd (Function.update mem (dEnd - 1) (mem (sEnd - 1))) (dEnd - 1) (sEnd - 1) n

/-- `memmove`. The sum of the distance and the length has no sign. -/
def memmove (mem : BitVec 32 → Byte) (dest src n : BitVec 32) :
    (BitVec 32 → Byte) × BitVec 32 :=
  let distance := dest - src
  if distance.toInt ≥ 0 ∨ distance + n < 0 then (copyBeginning mem dest src n.toNat, dest)
  else (copyEnd mem (dest + n) (src + n) n.toNat, dest)

namespace Memmove

open SequentialCopy

variable {mem : BitVec 32 → Byte} {dest src n d s : BitVec 32}

/-- The move of the `i`-th byte -/
def move (dest src : BitVec 32) (i : Nat) : BitVec 32 × BitVec 32 :=
  (dest + BitVec.ofNat 32 i, src + BitVec.ofNat 32 i)

theorem copyBeginning_eq (mem : BitVec 32 → Byte) (d s : BitVec 32) (n : Nat) :
    copyBeginning mem d s n = run mem ((List.range n).map (move d s)) := by
  induction n generalizing mem d s with
  | zero => rfl
  | succ n ih =>
    have hfirst : move d s 0 = (d, s) := by simp [move]
    have hnext : move d s ∘ Nat.succ = move (d + 1) (s + 1) := by
      funext i
      have hsucc : BitVec.ofNat 32 (i + 1) = 1 + BitVec.ofNat 32 i := by
        rw [Nat.add_comm, BitVec.ofNat_add]
        rfl
      simp only [Function.comp, move, Nat.succ_eq_add_one, hsucc, add_assoc]
    rw [copyBeginning, ih, List.range_succ_eq_map, List.map_cons, List.map_map, hfirst, hnext,
      run_cons]

theorem copyEnd_eq (mem : BitVec 32 → Byte) (d s : BitVec 32) (n : Nat) :
    copyEnd mem (d + BitVec.ofNat 32 n) (s + BitVec.ofNat 32 n) n =
      run mem ((List.range n).reverse.map (move d s)) := by
  induction n generalizing mem with
  | zero => rfl
  | succ n ih =>
    have hpred (a : BitVec 32) : a + BitVec.ofNat 32 (n + 1) - 1 = a + BitVec.ofNat 32 n := by
      rw [BitVec.ofNat_add, ← add_assoc]
      exact add_sub_cancel_right _ _
    rw [copyEnd, hpred, hpred, ih, List.range_succ, List.reverse_append, List.reverse_singleton,
      List.singleton_append, List.map_cons, run_cons, move]

theorem targets (dest src : BitVec 32) (l : List Nat) :
    (l.map (move dest src)).map Prod.fst = l.map fun i => dest + BitVec.ofNat 32 i := by
  rw [List.map_map]
  rfl

theorem targets_nodup {l : List Nat} (hl : l.Nodup) (hlt : ∀ i ∈ l, i < 2 ^ 32) :
    ((l.map (move dest src)).map Prod.fst).Nodup := by
  rw [targets]
  apply List.Nodup.map_on _ hl
  intro i hi j hj heq
  have hnat := congrArg BitVec.toNat (add_left_cancel heq)
  rwa [BitVec.toNat_ofNat, BitVec.toNat_ofNat, Nat.mod_eq_of_lt (hlt i hi),
    Nat.mod_eq_of_lt (hlt j hj)] at hnat

theorem target_eq_source_iff {i j : Nat} (hi : i < 2 ^ 32) (hj : j < 2 ^ 32) :
    dest + BitVec.ofNat 32 j = src + BitVec.ofNat 32 i ↔ (j + (dest - src).toNat) % 2 ^ 32 = i := by
  have hmove : dest + BitVec.ofNat 32 j = src + BitVec.ofNat 32 i ↔
      BitVec.ofNat 32 j + (dest - src) = BitVec.ofNat 32 i := by
    constructor
    · intro h
      rw [add_comm, sub_add_eq_add_sub, h, add_sub_cancel_left]
    · intro h
      rw [← h, add_comm (BitVec.ofNat 32 j) (dest - src), ← add_assoc, add_sub_cancel]
  rw [hmove, ← BitVec.toNat_inj, BitVec.toNat_add, BitVec.toNat_ofNat, BitVec.toNat_ofNat,
    Nat.mod_eq_of_lt hi, Nat.mod_eq_of_lt hj]

theorem mem_targets {l : List Nat} {i : Nat} (hl : ∀ j ∈ l, j < 2 ^ 32) (hi : i < 2 ^ 32) :
    src + BitVec.ofNat 32 i ∈ (l.map (move dest src)).map Prod.fst ↔
      ∃ j ∈ l, (j + (dest - src).toNat) % 2 ^ 32 = i := by
  rw [targets, List.mem_map]
  constructor
  · rintro ⟨j, hj, heq⟩
    exact ⟨j, hj, (target_eq_source_iff hi (hl j hj)).mp heq⟩
  · rintro ⟨j, hj, heq⟩
    exact ⟨j, hj, (target_eq_source_iff hi (hl j hj)).mpr heq⟩

theorem range_split {n i : Nat} (hi : i < n) :
    List.range n = List.range i ++ i :: List.range' (i + 1) (n - (i + 1)) := by
  have happend := List.range'_append_1 (s := 0) (m := i) (n := n - i)
  rw [Nat.zero_add, Nat.add_sub_cancel' hi.le] at happend
  rw [List.range_eq_range', List.range_eq_range', ← List.range'_succ, Nat.sub_add_eq,
    Nat.sub_add_cancel (by omega), happend]

theorem copyBeginning_read {n i : Nat} (hn : n < 2 ^ 32) (hi : i < n) :
    copyBeginning mem dest src n (dest + BitVec.ofNat 32 i) =
      if 0 < (dest - src).toNat ∧ (dest - src).toNat ≤ i then
        copyBeginning mem dest src n (dest + BitVec.ofNat 32 (i - (dest - src).toNat))
      else mem (src + BitVec.ofNat 32 i) := by
  have hdist := (dest - src).isLt
  have hmoves : (List.range n).map (move dest src) = (List.range i).map (move dest src) ++
      (dest + BitVec.ofNat 32 i, src + BitVec.ofNat 32 i) ::
        (List.range' (i + 1) (n - (i + 1))).map (move dest src) := by
    rw [range_split hi, List.map_append, List.map_cons, move]
  have hnodup : (((List.range n).map (move dest src)).map Prod.fst).Nodup :=
    targets_nodup List.nodup_range fun j hj => (List.mem_range.mp hj).trans hn
  have hread : src + BitVec.ofNat 32 i ∈ ((List.range i).map (move dest src)).map Prod.fst ↔
      0 < (dest - src).toNat ∧ (dest - src).toNat ≤ i := by
    rw [mem_targets (fun j hj => by have := List.mem_range.mp hj; omega) (by omega)]
    constructor
    · rintro ⟨j, hj, heq⟩
      rw [List.mem_range] at hj
      omega
    · rintro ⟨hpos, hle⟩
      exact ⟨i - (dest - src).toNat, List.mem_range.mpr (by omega), by omega⟩
  rw [copyBeginning_eq, hmoves, run_target (hmoves ▸ hnodup)]
  simp only [hread]
  split_ifs with hin
  · have hsame : dest + BitVec.ofNat 32 (i - (dest - src).toNat) = src + BitVec.ofNat 32 i :=
      (target_eq_source_iff (by omega) (by omega)).mpr (by omega)
    rw [hsame]
  · rfl

theorem copyEnd_read {n i : Nat} (hn : n < 2 ^ 32) (hi : i < n) :
    copyEnd mem (dest + BitVec.ofNat 32 n) (src + BitVec.ofNat 32 n) n (dest + BitVec.ofNat 32 i) =
      if 0 < (src - dest).toNat ∧ i + (src - dest).toNat < n then
        copyEnd mem (dest + BitVec.ofNat 32 n) (src + BitVec.ofNat 32 n) n
          (dest + BitVec.ofNat 32 (i + (src - dest).toNat))
      else mem (src + BitVec.ofNat 32 i) := by
  have hdist := (src - dest).isLt
  have hneg : (dest - src).toNat = (2 ^ 32 - (src - dest).toNat) % 2 ^ 32 := by
    rw [← neg_sub, BitVec.toNat_neg]
  have hmoves : (List.range n).reverse.map (move dest src) =
      (List.range' (i + 1) (n - (i + 1))).reverse.map (move dest src) ++
        (dest + BitVec.ofNat 32 i, src + BitVec.ofNat 32 i) ::
          (List.range i).reverse.map (move dest src) := by
    rw [range_split hi, List.reverse_append, List.reverse_cons, List.append_assoc, List.map_append,
      List.singleton_append, List.map_cons, move]
  have hnodup : (((List.range n).reverse.map (move dest src)).map Prod.fst).Nodup :=
    targets_nodup (List.nodup_reverse.mpr List.nodup_range) fun j hj =>
      (List.mem_range.mp (List.mem_reverse.mp hj)).trans hn
  have hread : src + BitVec.ofNat 32 i ∈
      ((List.range' (i + 1) (n - (i + 1))).reverse.map (move dest src)).map Prod.fst ↔
        0 < (src - dest).toNat ∧ i + (src - dest).toNat < n := by
    have hlater (j : Nat) : j ∈ (List.range' (i + 1) (n - (i + 1))).reverse ↔ i < j ∧ j < n := by
      rw [List.mem_reverse, List.mem_range'_1]
      omega
    rw [mem_targets (fun j hj => by have := (hlater j).mp hj; omega) (by omega)]
    constructor
    · rintro ⟨j, hj, heq⟩
      rw [hlater] at hj
      omega
    · rintro ⟨hpos, hlt⟩
      exact ⟨i + (src - dest).toNat, (hlater _).mpr (by omega), by omega⟩
  rw [copyEnd_eq, hmoves, run_target (hmoves ▸ hnodup)]
  simp only [hread]
  split_ifs with hin
  · have hsame : dest + BitVec.ofNat 32 (i + (src - dest).toNat) = src + BitVec.ofNat 32 i :=
      (target_eq_source_iff (by omega) (by omega)).mpr (by omega)
    rw [hsame]
  · rfl

theorem copyBeginning_frame {n : Nat} {a : BitVec 32} (ha : ∀ i < n, a ≠ dest + BitVec.ofNat 32 i) :
    copyBeginning mem dest src n a = mem a := by
  rw [copyBeginning_eq]
  apply run_of_notMem
  rw [targets, List.mem_map]
  rintro ⟨i, hi, rfl⟩
  exact ha i (List.mem_range.mp hi) rfl

theorem copyEnd_frame {n : Nat} {a : BitVec 32} (ha : ∀ i < n, a ≠ dest + BitVec.ofNat 32 i) :
    copyEnd mem (dest + BitVec.ofNat 32 n) (src + BitVec.ofNat 32 n) n a = mem a := by
  rw [copyEnd_eq]
  apply run_of_notMem
  rw [targets, List.mem_map]
  rintro ⟨i, hi, rfl⟩
  exact ha i (List.mem_range.mp (List.mem_reverse.mp hi)) rfl

end Memmove

open SequentialCopy Memmove

/-- The bytes that were at the source are at the destination, and nothing else has changed. -/
def MovesBytes (mem mem' : BitVec 32 → Byte) (dest src n : BitVec 32) : Prop :=
  (∀ i < n.toNat, mem' (dest + BitVec.ofNat 32 i) = mem (src + BitVec.ofNat 32 i)) ∧
    ∀ a, (∀ i < n.toNat, a ≠ dest + BitVec.ofNat 32 i) → mem' a = mem a

/-- Overlapping regions are copied in the wrong direction, which only goes unnoticed where the
source repeats itself at the distance between the regions. -/
theorem memmove_bytes (mem : BitVec 32 → Byte) (dest src n : BitVec 32) :
    MovesBytes mem (memmove mem dest src n).1 dest src n ↔
      Repeats (fun i => mem (src + BitVec.ofNat 32 i)) n.toNat (dest - src).toInt.natAbs := by
  have hend : dest + n = dest + BitVec.ofNat 32 n.toNat ∧ src + n = src + BitVec.ofNat 32 n.toNat := by
    rw [BitVec.ofNat_toNat, BitVec.setWidth_eq]
    exact ⟨rfl, rfl⟩
  have hunsigned : ¬ dest - src + n < 0 := BitVec.not_lt_zero
  rw [memmove, MovesBytes]
  simp only [hunsigned, or_false, hend.1, hend.2]
  split_ifs with hdir
  · have habs : (dest - src).toInt.natAbs = (dest - src).toNat := by
      rw [BitVec.toInt_eq_toNat_cond] at hdir ⊢
      split_ifs at hdir ⊢ <;> omega
    rw [and_iff_left fun a => copyBeginning_frame, habs]
    exact copied_forward_iff fun i hi => copyBeginning_read n.isLt hi
  · have hneg : (src - dest).toNat = (2 ^ 32 - (dest - src).toNat) % 2 ^ 32 := by
      rw [← neg_sub, BitVec.toNat_neg]
    have habs : (dest - src).toInt.natAbs = (src - dest).toNat := by
      rw [BitVec.toInt_eq_toNat_cond] at hdir ⊢
      split_ifs at hdir ⊢ <;> omega
    rw [and_iff_left fun a => copyEnd_frame, habs]
    exact copied_backward_iff fun i hi => copyEnd_read n.isLt hi

/-- The bytes 0 and 1 are moved by one. -/
theorem memmove_bytes_fails :
    ¬ ∀ (mem : BitVec 32 → Byte) (dest src n : BitVec 32),
      MovesBytes mem (memmove mem dest src n).1 dest src n := by
  intro h
  have hbyte := (h (fun a => a.setWidth 8) 1 0 2).1 1 (by decide)
  exact absurd hbyte (by decide)

end Chpok
