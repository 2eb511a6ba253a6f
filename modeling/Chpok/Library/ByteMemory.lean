import Chpok.Library.ByteOrder
import Mathlib.Data.BitVec

/-! Copying in a memory whose addresses are words, and the addresses that have been written.
A range of addresses goes on at 0 after the last one. -/

namespace ByteMemory

variable {w n k : Nat} {a base area : BitVec w}

/-- The address is one of the `n` from `base` on. -/
def Covers (base : BitVec w) (n : Nat) (a : BitVec w) : Prop := (a - base).toNat < n

instance : Decidable (Covers base n a) := inferInstanceAs (Decidable (_ < _))

theorem Covers.pos (h : Covers base n a) : 0 < n := Nat.zero_lt_of_lt h

theorem covers_start (h : 0 < n) : Covers base n base := by
  simp [Covers, h]

theorem covers_add {i : BitVec w} : Covers base n (base + i) ↔ i.toNat < n := by
  simp [Covers]

theorem covers_iff (h : base.toNat + n ≤ 2 ^ w) :
    Covers base n a ↔ base.toNat ≤ a.toNat ∧ a.toNat < base.toNat + n := by
  have ha := a.isLt
  have hbase := base.isLt
  rw [Covers]
  rcases Nat.lt_or_ge a.toNat base.toNat with hlt | hge
  · rw [BitVec.toNat_sub_of_lt (BitVec.lt_def.mpr hlt)]
    omega
  · rw [BitVec.toNat_sub_of_le (BitVec.le_def.mpr hge)]
    omega

theorem covers_append {m : BitVec w} :
    Covers base m.toNat a ∨ Covers (base + m) k a ↔ Covers base (m.toNat + k) a := by
  simp only [Covers, ← sub_sub]
  rcases Nat.lt_or_ge (a - base).toNat m.toNat with hlt | hge
  · constructor
    · intro _
      omega
    · intro _
      exact .inl hlt
  · rw [BitVec.toNat_sub_of_le (BitVec.le_def.mpr hge)]
    omega

/-- A range lies in another one if its end does, when it is computed without a word. -/
theorem covers_inside_iff (hk : k < 2 ^ w) :
    (∀ a, Covers base n a → Covers area k a) ↔ n = 0 ∨ (base - area).toNat + n ≤ k := by
  constructor
  · intro h
    rcases Nat.eq_zero_or_pos n with hzero | hpos
    · exact .inl hzero
    right
    have hfirst : (base - area).toNat < k := h base (covers_start hpos)
    by_contra hover
    -- the first address behind the area
    have hsub : area + BitVec.ofNat w k - base = BitVec.ofNat w k - (base - area) := by
      rw [sub_sub_eq_add_sub, add_comm]
    have hk' : (BitVec.ofNat w k).toNat = k := by
      rw [BitVec.toNat_ofNat, Nat.mod_eq_of_lt hk]
    have hcover : Covers base n (area + BitVec.ofNat w k) := by
      rw [Covers, hsub, BitVec.toNat_sub_of_le (BitVec.le_def.mpr (by omega)), hk']
      omega
    have hin := h _ hcover
    rw [covers_add, hk'] at hin
    omega
  · rintro (rfl | hend) a ha
    · exact absurd ha.pos (by omega)
    · have hsum : a - area = (a - base) + (base - area) := (sub_add_sub_cancel a base area).symm
      simp only [Covers] at ha ⊢
      rw [hsum, BitVec.toNat_add_of_lt (by omega)]
      omega

/-- A memory, and the ranges that have been written -/
structure Memory (w : Nat) where
  bytes : BitVec w → Byte
  written : List (BitVec w × Nat)

namespace Memory

variable {m : Memory w} {source : BitVec w → Byte}

def Written (m : Memory w) (a : BitVec w) : Prop := ∃ r ∈ m.written, Covers r.1 r.2 a

/-- The byte at `dest + i` is `source i`. -/
def copy (m : Memory w) (dest : BitVec w) (source : BitVec w → Byte) (n : Nat) : Memory w where
  bytes a := if Covers dest n a then source (a - dest) else m.bytes a
  written := (dest, n) :: m.written

theorem written_copy : (m.copy base source n).Written a ↔ Covers base n a ∨ m.Written a := by
  simp [Written, copy]

theorem bytes_copy_of_covers (h : Covers base n a) :
    (m.copy base source n).bytes a = source (a - base) := if_pos h

theorem bytes_copy_of_not_covers (h : ¬ Covers base n a) :
    (m.copy base source n).bytes a = m.bytes a := if_neg h

end Memory

section Words

variable {order : ByteOrder} {bytes bytes' : BitVec 32 → Byte} {a b c : BitVec 32}

/-- The word at an address -/
def load32 (order : ByteOrder) (bytes : BitVec 32 → Byte) (a : BitVec 32) : BitVec 32 :=
  order.load32 (bytes a) (bytes (a + 1)) (bytes (a + 2)) (bytes (a + 3))

def store32 (order : ByteOrder) (bytes : BitVec 32 → Byte) (a x : BitVec 32) : BitVec 32 → Byte :=
  fun c => if Covers a 4 c then (order.store32 x).getD (c - a).toNat 0 else bytes c

theorem load32_congr (h : ∀ c, Covers a 4 c → bytes' c = bytes c) :
    load32 order bytes' a = load32 order bytes a := by
  have hin (i : BitVec 32) (hi : i.toNat < 4) : bytes' (a + i) = bytes (a + i) :=
    h (a + i) (covers_add.mpr hi)
  have hfirst : bytes' a = bytes a := h a (covers_start (by decide))
  rw [load32, load32, hfirst, hin 1 (by decide), hin 2 (by decide), hin 3 (by decide)]

theorem load32_store32 (bytes : BitVec 32 → Byte) (a x : BitVec 32) :
    load32 order (store32 order bytes a x) a = x := by
  obtain ⟨b0, b1, b2, b3, hstore, hload⟩ := ByteOrder.store32_eq order x
  have hin (i : BitVec 32) (hi : i.toNat < 4) : store32 order bytes a x (a + i) =
      [b0, b1, b2, b3].getD i.toNat 0 := by
    have hoffset : a + i - a = i := by rw [add_comm, add_sub_cancel_right]
    rw [store32, if_pos (covers_add.mpr hi), hstore, hoffset]
  have hfirst : store32 order bytes a x a = b0 := by
    have hzero := hin 0 (by decide)
    rwa [add_zero] at hzero
  rw [load32, hfirst, hin 1 (by decide), hin 2 (by decide), hin 3 (by decide)]
  exact hload

theorem load32_store32_of_apart (h : ∀ c, Covers b 4 c → ¬ Covers a 4 c) (x : BitVec 32) :
    load32 order (store32 order bytes a x) b = load32 order bytes b := by
  apply load32_congr
  intro c hc
  rw [store32, if_neg (h c hc)]

end Words

end ByteMemory
