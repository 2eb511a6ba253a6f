import Chpok.Library.WhileLoop
import Chpok.Library.ShiftSubtract
import Mathlib.Algebra.Order.Ring.Nat

/-! Division of 64 bits on targets without it (`libpok/libc/misc/__udivdi3.c`). -/

namespace Chpok

/-- The variables of `__udivdi3` -/
structure Division where
  num : BitVec 64
  den : BitVec 64
  quot : BitVec 64
  qbit : BitVec 64
  deriving DecidableEq, Repr

namespace Division

def start (num den : BitVec 64) : Division := ⟨num, den, 0, 1⟩

/-- The condition of the first loop -/
def isUnaligned (s : Division) : Bool := 0 ≤ s.den.toInt

/-- The body of the first loop -/
def shiftLeft (s : Division) : Division := { s with den := s.den <<< 1, qbit := s.qbit <<< 1 }

/-- The condition of the second loop -/
def hasBit (s : Division) : Bool := s.qbit ≠ 0

/-- The body of the second loop, up to the shifts. -/
def subtract (s : Division) : Division :=
  if s.den ≤ s.num then { s with num := s.num - s.den, quot := s.quot + s.qbit } else s

/-- The body of the second loop -/
def subtractAndShift (s : Division) : Division :=
  { s.subtract with den := s.subtract.den >>> 1, qbit := s.subtract.qbit >>> 1 }

/-- The variables after the first loop has begun -/
abbrev InFirst (num den : BitVec 64) (s : Division) : Prop :=
  WhileLoop.Heads isUnaligned shiftLeft (start num den) s

/-- The variables after the second loop has begun -/
def InSecond (num den : BitVec 64) (t : Division) : Prop :=
  ∃ s, InFirst num den s ∧ s.isUnaligned = false ∧ WhileLoop.Heads hasBit subtractAndShift s t

end Division

/-- `__udivdi3`; each loop makes at most `fuel` passes. -/
def udivdi3 (fuel : Nat) (num den : BitVec 64) : Option (BitVec 64) :=
  if den = 0 then some 0
  else
    (WhileLoop.run Division.isUnaligned Division.shiftLeft fuel (.start num den)).bind fun s =>
      (WhileLoop.run Division.hasBit Division.subtractAndShift fuel s).map (·.quot)

namespace Division

open ShiftSubtract

variable {num den : BitVec 64} {s t : Division} {n : Nat}

/-- The first loop after `63 - n` passes -/
structure Aligning (num den : BitVec 64) (n : Nat) (s : Division) : Prop where
  num : s.num = num
  quot : s.quot = 0
  passes : ∃ k, n + k = 63 ∧ s.den.toNat = den.toNat * 2 ^ k ∧ s.qbit.toNat = 2 ^ k

/-- The second loop, `n` passes before its end -/
structure Dividing (num den : BitVec 64) (n : Nat) (s : Division) : Prop where
  known : Partial num.toNat den.toNat n s.quot.toNat s.num.toNat
  bit : n = 0 ∧ s.qbit = 0 ∨ ∃ k, n = k + 1 ∧ s.qbit.toNat = 2 ^ k ∧ s.den.toNat = den.toNat * 2 ^ k

theorem isUnaligned_iff : s.isUnaligned = true ↔ s.den.toNat < 2 ^ 63 := by
  rw [isUnaligned, decide_eq_true_iff, BitVec.toInt_eq_toNat_cond]
  have hlt := s.den.isLt
  split_ifs
  · omega
  · omega

theorem toNat_shiftLeft_one {x : BitVec 64} (h : x.toNat < 2 ^ 63) :
    (x <<< 1).toNat = 2 * x.toNat := by
  rw [BitVec.toNat_shiftLeft, Nat.shiftLeft_eq, Nat.pow_one, Nat.mul_comm]
  apply Nat.mod_eq_of_lt
  omega

theorem toNat_shiftRight_one {x : BitVec 64} : (x >>> 1).toNat = x.toNat / 2 := by
  rw [BitVec.toNat_ushiftRight, Nat.shiftRight_eq_div_pow, Nat.pow_one]

theorem Aligning.qbit_le (h : Aligning num den n s) (hden : den ≠ 0) :
    s.qbit.toNat ≤ s.den.toNat := by
  obtain ⟨k, -, hshifted, hbit⟩ := h.passes
  have hpos : 0 < den.toNat := Nat.pos_of_ne_zero fun h0 => hden (BitVec.eq_of_toNat_eq h0)
  rw [hbit, hshifted]
  exact Nat.le_mul_of_pos_left _ hpos

theorem Aligning.shiftLeft (h : Aligning num den (n + 1) s) (hden : den ≠ 0)
    (hcond : s.isUnaligned = true) : Aligning num den n s.shiftLeft where
  num := h.num
  quot := h.quot
  passes := by
    have hle := h.qbit_le hden
    have hlt := isUnaligned_iff.mp hcond
    obtain ⟨k, hk, hshifted, hbit⟩ := h.passes
    refine ⟨k + 1, by omega, ?_, ?_⟩
    · calc (s.den <<< 1).toNat = 2 * s.den.toNat := toNat_shiftLeft_one hlt
        _ = den.toNat * 2 ^ (k + 1) := by rw [hshifted]; ring
    · calc (s.qbit <<< 1).toNat = 2 * s.qbit.toNat := toNat_shiftLeft_one (by omega)
        _ = 2 ^ (k + 1) := by rw [hbit]; ring

theorem aligning_counts (hden : den ≠ 0) :
    WhileLoop.Counts isUnaligned shiftLeft (Aligning num den) where
  done := by
    intro s h
    have hle := h.qbit_le hden
    obtain ⟨k, hk, -, hbit⟩ := h.passes
    rw [Nat.zero_add] at hk
    subst hk
    rw [← Bool.not_eq_true, isUnaligned_iff]
    omega
  pass n s h hcond := h.shiftLeft hden hcond

theorem aligning_start : Aligning num den 63 (start num den) :=
  ⟨rfl, rfl, 0, rfl, (Nat.mul_one _).symm, rfl⟩

theorem Aligning.dividing (h : Aligning num den n s) (hend : s.isUnaligned = false) :
    ∃ k, k ≤ 63 ∧ Dividing num den (k + 1) s := by
  obtain ⟨hnum, hquot, k, hk, hshifted, hbit⟩ := h
  have hge : 2 ^ 63 ≤ s.den.toNat := by
    rw [← Bool.not_eq_true, isUnaligned_iff] at hend
    omega
  have hlt : num.toNat < den.toNat * 2 ^ (k + 1) := by
    rw [Nat.pow_succ, ← Nat.mul_assoc, ← hshifted]
    omega
  refine ⟨k, by omega, ?_, .inr ⟨k, rfl, hbit, hshifted⟩⟩
  rw [hquot, hnum]
  exact .start hlt

theorem Dividing.quot_add (h : Dividing num den (n + 1) s) (hfits : s.den ≤ s.num) :
    (s.quot + s.qbit).toNat = s.quot.toNat + s.qbit.toNat := by
  obtain ⟨hknown, ⟨hzero, -⟩ | ⟨k, hk, hbit, hshifted⟩⟩ := h
  · contradiction
  · obtain rfl := Nat.succ.inj hk
    have hle : den.toNat * 2 ^ n ≤ s.num.toNat := hshifted ▸ hfits
    rw [BitVec.toNat_add, hbit]
    exact Nat.mod_eq_of_lt (Nat.lt_of_le_of_lt (hknown.subtract hle).le num.isLt)

theorem Dividing.subtract (h : Dividing num den (n + 1) s) :
    s.subtract.den = s.den ∧ s.subtract.qbit = s.qbit ∧
      Partial num.toNat den.toNat n s.subtract.quot.toNat s.subtract.num.toNat := by
  have hquot := h.quot_add
  obtain ⟨hknown, ⟨hzero, -⟩ | ⟨k, hk, hbit, hshifted⟩⟩ := h
  · contradiction
  · obtain rfl := Nat.succ.inj hk
    by_cases hfits : s.den ≤ s.num
    · have hle : den.toNat * 2 ^ n ≤ s.num.toNat := hshifted ▸ hfits
      have hnext := hknown.subtract hle
      simp only [Division.subtract, if_pos hfits]
      refine ⟨trivial, trivial, ?_⟩
      rw [hquot hfits, BitVec.toNat_sub_of_le hfits, hbit, hshifted]
      exact hnext
    · have hgt : s.num.toNat < s.den.toNat := Nat.lt_of_not_le hfits
      simp only [Division.subtract, if_neg hfits]
      exact ⟨trivial, trivial, hknown.skip (hshifted ▸ hgt)⟩

/-- A shift loses no bit unless it is the last one. -/
theorem Dividing.shifts (h : Dividing num den (n + 1) s) :
    (n = 0 ∧ s.qbit >>> 1 = 0) ∨ ∃ k, n = k + 1 ∧
      (s.qbit >>> 1).toNat = 2 ^ k ∧ (s.den >>> 1).toNat = den.toNat * 2 ^ k ∧
      s.qbit.toNat = 2 * (s.qbit >>> 1).toNat ∧ s.den.toNat = 2 * (s.den >>> 1).toNat := by
  obtain ⟨-, ⟨hzero, -⟩ | ⟨k, hk, hbit, hshifted⟩⟩ := h
  · contradiction
  · obtain rfl := Nat.succ.inj hk
    cases n with
    | zero =>
      refine .inl ⟨rfl, BitVec.eq_of_toNat_eq ?_⟩
      rw [toNat_shiftRight_one, hbit]
      rfl
    | succ k =>
      have hq : (s.qbit >>> 1).toNat = 2 ^ k := by
        rw [toNat_shiftRight_one, hbit, Nat.pow_succ, Nat.mul_div_cancel _ Nat.two_pos]
      have hd : (s.den >>> 1).toNat = den.toNat * 2 ^ k := by
        rw [toNat_shiftRight_one, hshifted, Nat.pow_succ, ← Nat.mul_assoc,
          Nat.mul_div_cancel _ Nat.two_pos]
      refine .inr ⟨k, rfl, hq, hd, ?_, ?_⟩
      · rw [hq, hbit, Nat.pow_succ, Nat.mul_comm]
      · rw [hd, hshifted]
        ring

theorem dividing_counts : WhileLoop.Counts hasBit subtractAndShift (Dividing num den) where
  done := by
    rintro s ⟨-, ⟨-, hbit⟩ | ⟨k, hk, -⟩⟩
    · simp [hasBit, hbit]
    · contradiction
  pass := by
    intro n s h _
    obtain ⟨hden, hqbit, hknown⟩ := h.subtract
    refine ⟨hknown, ?_⟩
    simp only [subtractAndShift, hden, hqbit]
    rcases h.shifts with ⟨hn, hzero⟩ | ⟨k, hk, hq, hd, -⟩
    · exact .inl ⟨hn, hzero⟩
    · exact .inr ⟨k, hk, hq, hd⟩

theorem InSecond.dividing (h : InSecond num den t) (hden : den ≠ 0) :
    ∃ n, Dividing num den n t := by
  obtain ⟨s, hfirst, hend, hsecond⟩ := h
  obtain ⟨m, -, haligning⟩ := (aligning_counts hden).heads aligning_start hfirst
  obtain ⟨k, -, hdividing⟩ := haligning.dividing hend
  obtain ⟨n, -, ht⟩ := dividing_counts.heads hdividing hsecond
  exact ⟨n, ht⟩

theorem Dividing.pos (h : Dividing num den n t) (hbit : t.hasBit = true) : ∃ m, n = m + 1 := by
  obtain ⟨-, ⟨-, hzero⟩ | ⟨k, hk, -⟩⟩ := h
  · simp [hasBit, hzero] at hbit
  · exact ⟨k, hk⟩

end Division

open Division in
/-- The quotient is that of the natural numbers, and no shift or subtraction on the way to it wraps. -/
theorem udivdi3_floor {num den : BitVec 64} (hden : den ≠ 0) :
    (∀ fuel, 64 ≤ fuel →
      ∃ quot, udivdi3 fuel num den = some quot ∧ quot.toNat = num.toNat / den.toNat) ∧
    (∀ s, InFirst num den s → s.isUnaligned = true →
      s.shiftLeft.den.toNat = 2 * s.den.toNat ∧ s.shiftLeft.qbit.toNat = 2 * s.qbit.toNat) ∧
    ∀ t, InSecond num den t → t.hasBit = true →
      t.subtract.num.toNat + (if t.den ≤ t.num then t.den.toNat else 0) = t.num.toNat ∧
      t.quot.toNat + (if t.den ≤ t.num then t.qbit.toNat else 0) = t.subtract.quot.toNat ∧
      (t.subtractAndShift.hasBit = true →
        t.den.toNat = 2 * t.subtractAndShift.den.toNat ∧
        t.qbit.toNat = 2 * t.subtractAndShift.qbit.toNat) := by
  refine ⟨fun fuel hfuel => ?_, fun s hs hcond => ?_, fun t ht hbit => ?_⟩
  · have hstart : Aligning num den 63 (start num den) := aligning_start
    obtain ⟨s, hrun, hheads, hend⟩ := (aligning_counts hden).run hstart (Nat.le_of_succ_le hfuel)
    obtain ⟨m, -, haligning⟩ := (aligning_counts hden).heads hstart hheads
    obtain ⟨k, hk, hdividing⟩ := haligning.dividing hend
    obtain ⟨t, hrun', hheads', hend'⟩ := dividing_counts.run hdividing
      (Nat.le_trans (Nat.succ_le_succ hk) hfuel)
    obtain ⟨n, -, hknown, ⟨rfl, -⟩ | ⟨k, rfl, hbit, -⟩⟩ := dividing_counts.heads hdividing hheads'
    · refine ⟨t.quot, ?_, hknown.quotient⟩
      rw [udivdi3, if_neg hden, hrun, Option.bind_some, hrun']
      rfl
    · have hzero : t.qbit = 0 := by simpa [hasBit] using hend'
      rw [hzero] at hbit
      exact absurd hbit (Nat.two_pow_pos k).ne
  · obtain ⟨m, -, haligning⟩ := (aligning_counts hden).heads aligning_start hs
    have hle := haligning.qbit_le hden
    have hlt := isUnaligned_iff.mp hcond
    exact ⟨toNat_shiftLeft_one hlt, toNat_shiftLeft_one (by omega)⟩
  · obtain ⟨n, hdividing⟩ := ht.dividing hden
    obtain ⟨m, rfl⟩ := hdividing.pos hbit
    refine ⟨?_, ?_, fun hmore => ?_⟩
    · by_cases hfits : t.den ≤ t.num
      · simp only [subtract, if_pos hfits]
        rw [BitVec.toNat_sub_of_le hfits]
        exact Nat.sub_add_cancel hfits
      · simp [subtract, if_neg hfits]
    · by_cases hfits : t.den ≤ t.num
      · simp only [subtract, if_pos hfits]
        exact (hdividing.quot_add hfits).symm
      · simp [subtract, if_neg hfits]
    · obtain ⟨hden', hqbit, -⟩ := hdividing.subtract
      simp only [hasBit, subtractAndShift, hden', hqbit] at hmore ⊢
      rcases hdividing.shifts with ⟨-, hzero⟩ | ⟨k, -, -, -, hq, hd⟩
      · simp [hzero] at hmore
      · exact ⟨hd, hq⟩

theorem udivdi3_floor_seven : ∃ quot, udivdi3 64 100 7 = some quot ∧ quot.toNat = 14 :=
  (udivdi3_floor (by decide)).1 64 (Nat.le_refl _)

end Chpok
