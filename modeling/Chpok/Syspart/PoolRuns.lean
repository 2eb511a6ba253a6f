import Chpok.Syspart.Pool
import Chpok.Library.LinkedList
import Chpok.Library.Alignment

/-! Which elements a pool hands out. The free elements are a list linked by their indices. The
index of the last element is whatever the heap held before. -/

namespace Chpok

open ByteMemory

namespace JetPool

variable {order : ByteOrder} {pool : JetPool} {mem : Bytes} {a b c p q : BitVec 32} {i j x y : Nat}

def slots (pool : JetPool) : List (BitVec 32) := (List.range pool.num.toNat).map pool.slot

/-- The elements lie one after the other in the memory, each with room for the fields. -/
structure Placed (pool : JetPool) : Prop where
  header : 16 ≤ pool.stride.toNat
  fits : pool.data.toNat + pool.stride.toNat * pool.num.toNat ≤ 2 ^ 32

theorem Placed.slot_le (h : pool.Placed) (hi : i < pool.num.toNat) :
    pool.data.toNat + i * pool.stride.toNat + pool.stride.toNat ≤ 2 ^ 32 := by
  have hfits := h.fits
  have hle : (i + 1) * pool.stride.toNat ≤ pool.num.toNat * pool.stride.toNat :=
    Nat.mul_le_mul_right _ hi
  rw [Nat.add_mul, Nat.one_mul, Nat.mul_comm pool.num.toNat] at hle
  omega

theorem Placed.slot_toNat (h : pool.Placed) (hi : i < pool.num.toNat) :
    (pool.slot i).toNat = pool.data.toNat + i * pool.stride.toNat := by
  have hle := h.slot_le hi
  have hheader := h.header
  have hidx : i % 2 ^ 32 = i := Nat.mod_eq_of_lt (hi.trans pool.num.isLt)
  rw [slot, getPoolElem, BitVec.toNat_add, BitVec.toNat_mul, BitVec.toNat_ofNat, hidx]
  have hmul : i * pool.stride.toNat % 2 ^ 32 = i * pool.stride.toNat := Nat.mod_eq_of_lt (by omega)
  rw [hmul]
  omega

theorem Placed.slot_add_le (h : pool.Placed) (hij : i < j) (hj : j < pool.num.toNat) :
    (pool.slot i).toNat + pool.stride.toNat ≤ (pool.slot j).toNat := by
  have hle : (i + 1) * pool.stride.toNat ≤ j * pool.stride.toNat := Nat.mul_le_mul_right _ hij
  rw [Nat.add_mul, Nat.one_mul] at hle
  rw [h.slot_toNat (hij.trans hj), h.slot_toNat hj]
  omega

theorem mem_slots : a ∈ pool.slots ↔ ∃ i < pool.num.toNat, pool.slot i = a := by
  simp [slots]

theorem Placed.nodup (h : pool.Placed) : pool.slots.Nodup := by
  have hheader := h.header
  apply List.Nodup.map_on _ List.nodup_range
  intro i hi j hj heq
  rw [List.mem_range] at hi hj
  rcases Nat.lt_trichotomy i j with hlt | rfl | hgt
  · have hle := h.slot_add_le hlt hj
    rw [heq] at hle
    omega
  · rfl
  · have hle := h.slot_add_le hgt hi
    rw [heq] at hle
    omega

theorem Placed.le_of_mem (h : pool.Placed) (ha : a ∈ pool.slots) : a.toNat + 16 ≤ 2 ^ 32 := by
  obtain ⟨i, hi, rfl⟩ := mem_slots.mp ha
  have hle := h.slot_le hi
  have hheader := h.header
  rw [h.slot_toNat hi]
  omega

theorem Placed.apart_of_ne (h : pool.Placed) (ha : a ∈ pool.slots) (hb : b ∈ pool.slots)
    (hne : a ≠ b) : a.toNat + 16 ≤ b.toNat ∨ b.toNat + 16 ≤ a.toNat := by
  obtain ⟨i, hi, rfl⟩ := mem_slots.mp ha
  obtain ⟨j, hj, rfl⟩ := mem_slots.mp hb
  have hheader := h.header
  rcases Nat.lt_trichotomy i j with hlt | rfl | hgt
  · have hle := h.slot_add_le hlt hj
    omega
  · exact absurd rfl hne
  · have hle := h.slot_add_le hgt hi
    omega

theorem Placed.apart (h : pool.Placed) (ha : a ∈ pool.slots) (hb : b ∈ pool.slots)
    (hp : p.toNat = a.toNat + x) (hq : q.toNat = b.toNat + y) (hx : x + 4 ≤ 16) (hy : y + 4 ≤ 16)
    (hne : a ≠ b ∨ x + 4 ≤ y ∨ y + 4 ≤ x) : ∀ c, Covers q 4 c → ¬ Covers p 4 c := by
  have hafits := h.le_of_mem ha
  have hbfits := h.le_of_mem hb
  intro c hqc hpc
  rw [covers_iff (by omega)] at hqc hpc
  by_cases hab : a = b
  · subst hab
    rcases hne with hne | hne
    · exact hne rfl
    · omega
  · have := h.apart_of_ne ha hb hab
    omega

theorem Placed.add_toNat (h : pool.Placed) (ha : a ∈ pool.slots) {o : BitVec 32}
    (ho : o.toNat < 16) : (a + o).toNat = a.toNat + o.toNat := by
  have hle := h.le_of_mem ha
  rw [BitVec.toNat_add]
  omega

section Fields

variable (h : pool.Placed) (ha : a ∈ pool.slots) (hb : b ∈ pool.slots) (v : BitVec 32)

include h ha hb

theorem idx_setIsFree :
    PoolElem.idx ⟨order, b⟩ (PoolElem.setIsFree ⟨order, a⟩ mem v) = PoolElem.idx ⟨order, b⟩ mem := by
  apply load32_store32_of_apart
  exact h.apart (x := 4) (y := 0) ha hb (h.add_toNat ha (by decide)) rfl (by decide) (by decide)
    (.inr (by decide))

theorem idx_setNextFreeIdx : PoolElem.idx ⟨order, b⟩ (PoolElem.setNextFreeIdx ⟨order, a⟩ mem v) =
    PoolElem.idx ⟨order, b⟩ mem := by
  apply load32_store32_of_apart
  exact h.apart (x := 8) (y := 0) ha hb (h.add_toNat ha (by decide)) rfl (by decide) (by decide)
    (.inr (by decide))

theorem nextFreeIdx_setIsFree :
    PoolElem.nextFreeIdx ⟨order, b⟩ (PoolElem.setIsFree ⟨order, a⟩ mem v) =
      PoolElem.nextFreeIdx ⟨order, b⟩ mem := by
  apply load32_store32_of_apart
  exact h.apart (x := 4) (y := 8) ha hb (h.add_toNat ha (by decide)) (h.add_toNat hb (by decide))
    (by decide) (by decide) (.inr (by decide))

theorem nextFreeIdx_setIdx :
    PoolElem.nextFreeIdx ⟨order, b⟩ (PoolElem.setIdx ⟨order, a⟩ mem v) =
      PoolElem.nextFreeIdx ⟨order, b⟩ mem := by
  apply load32_store32_of_apart
  exact h.apart (x := 0) (y := 8) ha hb rfl (h.add_toNat hb (by decide)) (by decide) (by decide)
    (.inr (by decide))

theorem nextFreeIdx_setNextFreeIdx :
    PoolElem.nextFreeIdx ⟨order, b⟩ (PoolElem.setNextFreeIdx ⟨order, a⟩ mem v) =
      Function.update (fun b => PoolElem.nextFreeIdx ⟨order, b⟩ mem) a v b := by
  by_cases hab : b = a
  · subst hab
    rw [Function.update_self]
    exact load32_store32 mem _ v
  · rw [Function.update_of_ne hab]
    apply load32_store32_of_apart
    exact h.apart (x := 8) (y := 8) ha hb (h.add_toNat ha (by decide)) (h.add_toNat hb (by decide))
      (by decide) (by decide) (.inl (Ne.symm hab))

theorem idx_setIdx : PoolElem.idx ⟨order, b⟩ (PoolElem.setIdx ⟨order, a⟩ mem v) =
    Function.update (fun b => PoolElem.idx ⟨order, b⟩ mem) a v b := by
  by_cases hab : b = a
  · subst hab
    rw [Function.update_self]
    exact load32_store32 mem _ v
  · rw [Function.update_of_ne hab]
    apply load32_store32_of_apart
    exact h.apart (x := 0) (y := 0) ha hb rfl rfl (by decide) (by decide) (.inl (Ne.symm hab))

end Fields

/-- The element of an index, unless it is the end of the list -/
def deref (pool : JetPool) (idx : BitVec 32) : Option (BitVec 32) :=
  if idx = -1 then none else some (pool.getPoolElem idx)

theorem deref_ofNat (hi : i < pool.num.toNat) (hsigned : pool.num.toNat < 2 ^ 31) :
    pool.deref (BitVec.ofNat 32 i) = some (pool.slot i) := by
  have hne : BitVec.ofNat 32 i ≠ -1 := by
    intro heq
    have hnat := congrArg BitVec.toNat heq
    have hmax : (-1 : BitVec 32).toNat = 2 ^ 32 - 1 := rfl
    rw [BitVec.toNat_ofNat, hmax] at hnat
    omega
  rw [deref, if_neg hne, slot]

theorem Placed.slot_inj (h : pool.Placed) {i j : Nat} (hi : i < pool.num.toNat)
    (hj : j < pool.num.toNat) (heq : pool.slot i = pool.slot j) : i = j := by
  have hheader := h.header
  rcases Nat.lt_trichotomy i j with hlt | rfl | hgt
  · have hle := h.slot_add_le hlt hj
    rw [heq] at hle
    omega
  · rfl
  · have hle := h.slot_add_le hgt hi
    rw [heq] at hle
    omega

/-- What the loop of `jet_pool_create` has done after some elements -/
theorem linkLoop_fields (h : pool.Placed) (mem : Bytes) {k : Nat} (hk : k < pool.num.toNat) :
    (∀ i < k,
        PoolElem.nextFreeIdx ⟨order, pool.slot i⟩ (pool.linkLoop order mem k) =
            BitVec.ofNat 32 (i + 1) ∧
          PoolElem.idx ⟨order, pool.slot i⟩ (pool.linkLoop order mem k) = BitVec.ofNat 32 i) ∧
      ∀ i, k ≤ i → i < pool.num.toNat →
        PoolElem.idx ⟨order, pool.slot i⟩ (pool.linkLoop order mem k) =
          PoolElem.idx ⟨order, pool.slot i⟩ mem := by
  induction k with
  | zero => exact ⟨fun i hi => absurd hi (Nat.not_lt_zero i), fun i _ _ => rfl⟩
  | succ k ih =>
    obtain ⟨hdone, hrest⟩ := ih (Nat.lt_of_succ_lt hk)
    have hmem (i : Nat) (hi : i < pool.num.toNat) : pool.slot i ∈ pool.slots :=
      mem_slots.mpr ⟨i, hi, rfl⟩
    have hlast := hmem k (Nat.lt_of_succ_lt hk)
    have hne (i : Nat) (hi : i < pool.num.toNat) (hik : i ≠ k) : pool.slot i ≠ pool.slot k :=
      fun heq => hik (h.slot_inj hi (Nat.lt_of_succ_lt hk) heq)
    have hstep : pool.linkLoop order mem (k + 1) = PoolElem.setIdx ⟨order, pool.slot k⟩
        (PoolElem.setNextFreeIdx ⟨order, pool.slot k⟩ (pool.linkLoop order mem k)
          (BitVec.ofNat 32 (k + 1))) (BitVec.ofNat 32 k) := by
      simp only [linkLoop, List.range_succ, List.foldl_append, List.foldl_cons, List.foldl_nil, slot]
    rw [hstep]
    refine ⟨fun i hi => ?_, fun i hki hi => ?_⟩
    · have hinum : i < pool.num.toNat := by omega
      rw [nextFreeIdx_setIdx h hlast (hmem i hinum), nextFreeIdx_setNextFreeIdx h hlast (hmem i hinum),
        idx_setIdx h hlast (hmem i hinum)]
      by_cases hik : i = k
      · subst hik
        exact ⟨Function.update_self .., Function.update_self ..⟩
      · rw [Function.update_of_ne (hne i hinum hik), Function.update_of_ne (hne i hinum hik),
          idx_setNextFreeIdx h hlast (hmem i hinum)]
        exact hdone i (by omega)
    · rw [idx_setIdx h hlast (hmem i hi), Function.update_of_ne (hne i hi (by omega)),
        idx_setNextFreeIdx h hlast (hmem i hi)]
      exact hrest i (by omega) hi

/-- The last element -/
def lastSlot (pool : JetPool) : BitVec 32 := pool.slot (pool.num.toNat - 1)

end JetPool

namespace PoolState

open LinkedList

variable {order : ByteOrder} {s t : PoolState} {pool : JetPool} {known : BitVec 32 → Prop}
  {free rest : List (BitVec 32)} {a : BitVec 32} {call : PoolCall}

/-- Where the indices of the free elements lead -/
def next (order : ByteOrder) (s : PoolState) : Option (BitVec 32) → Option (BitVec 32)
  | none => s.pool.deref s.pool.freeElemIdx
  | some a => s.pool.deref (PoolElem.nextFreeIdx ⟨order, a⟩ s.mem)

/-- The free elements are linked in the order of the list; the elements that satisfy `known` have
their own index. -/
structure Holds (order : ByteOrder) (pool : JetPool) (known : BitVec 32 → Prop) (s : PoolState)
    (free : List (BitVec 32)) : Prop where
  same : s.pool = { pool with freeElemIdx := s.pool.freeElemIdx }
  perm : (free ++ s.inUse).Perm pool.slots
  path : Path (s.next order) none free none
  own : ∀ a ∈ pool.slots, known a → pool.deref (PoolElem.idx ⟨order, a⟩ s.mem) = some a

theorem Holds.deref (h : Holds order pool known s free) (idx : BitVec 32) :
    s.pool.deref idx = pool.deref idx := by
  rw [h.same]
  rfl

theorem Holds.slots (h : Holds order pool known s free) : s.pool.slots = pool.slots := by
  rw [h.same]
  rfl

theorem Holds.mem_slots (h : Holds order pool known s free) (ha : a ∈ free ∨ a ∈ s.inUse) :
    a ∈ pool.slots := h.perm.subset (List.mem_append.mpr ha)

theorem Holds.get_nil (h : Holds order pool known s []) :
    s.pool.jetPoolGetFreeElem order s.mem = (none, s.pool, s.mem) := by
  have hnone : s.pool.deref s.pool.freeElemIdx = none := h.path
  rw [JetPool.deref] at hnone
  have hend : s.pool.freeElemIdx = -1 := by
    by_contra hne
    rw [if_neg hne] at hnone
    exact absurd hnone (Option.some_ne_none _)
  rw [JetPool.jetPoolGetFreeElem, if_pos hend]

/-- The first free element is handed out. -/
theorem Holds.get_cons (hplaced : pool.Placed) (h : Holds order pool known s (a :: rest)) :
    (s.pool.jetPoolGetFreeElem order s.mem).1 = some a ∧
      ∃ t, s.step order .getFreeElem = some t ∧ Holds order pool known t rest := by
  obtain ⟨hfirst, hrest⟩ := h.path
  have hsome : s.pool.deref s.pool.freeElemIdx = some a := hfirst
  have hne : s.pool.freeElemIdx ≠ -1 := by
    intro hend
    rw [JetPool.deref, if_pos hend] at hsome
    exact absurd hsome.symm (Option.some_ne_none a)
  rw [JetPool.deref, if_neg hne] at hsome
  have helem : s.pool.getPoolElem s.pool.freeElemIdx = a := Option.some.inj hsome
  have ha : a ∈ pool.slots := h.mem_slots (.inl List.mem_cons_self)
  have hget : s.pool.jetPoolGetFreeElem order s.mem = (some a,
      { s.pool with freeElemIdx := PoolElem.nextFreeIdx ⟨order, a⟩ s.mem },
      PoolElem.setIsFree ⟨order, a⟩ s.mem 0) := by
    rw [JetPool.jetPoolGetFreeElem, if_neg hne]
    simp only [helem, JetPool.nextFreeIdx_setIsFree hplaced ha ha]
  have hstep : s.step order .getFreeElem = some
      ⟨{ s.pool with freeElemIdx := PoolElem.nextFreeIdx ⟨order, a⟩ s.mem },
        PoolElem.setIsFree ⟨order, a⟩ s.mem 0, a :: s.inUse⟩ := by
    simp only [step, hget, Option.toList_some, List.singleton_append]
  refine ⟨by rw [hget], _, hstep, ?_⟩
  constructor
  · rw [h.same]
  · exact List.perm_middle.trans h.perm
  · apply path_from hrest
    · rfl
    · intro x hx
      have hx : x ∈ pool.slots := h.mem_slots (.inl (List.mem_cons_of_mem _ hx))
      change JetPool.deref _ (PoolElem.nextFreeIdx _ (PoolElem.setIsFree _ _ _)) = _
      rw [JetPool.nextFreeIdx_setIsFree hplaced ha hx]
      rfl
  · intro b hb hknown
    change pool.deref (PoolElem.idx _ (PoolElem.setIsFree _ _ _)) = _
    rw [JetPool.idx_setIsFree hplaced ha hb]
    exact h.own b hb hknown

/-- An element that has its own index comes to the front of the free ones. -/
theorem Holds.free_elem (hplaced : pool.Placed) (h : Holds order pool known s free)
    (hnodup : (free ++ s.inUse).Nodup) (hin : a ∈ s.inUse) (hknown : known a) :
    ∃ t, s.step order (.freeElem a) = some t ∧ Holds order pool known t (a :: free) := by
  have ha : a ∈ pool.slots := h.mem_slots (.inr hin)
  have hfree : s.pool.jetPoolFreeElem order s.mem a =
      ({ s.pool with freeElemIdx := PoolElem.idx ⟨order, a⟩ s.mem },
        PoolElem.setNextFreeIdx ⟨order, a⟩ (PoolElem.setIsFree ⟨order, a⟩ s.mem 1)
          s.pool.freeElemIdx) := by
    simp only [JetPool.jetPoolFreeElem, JetPool.idx_setNextFreeIdx hplaced ha ha,
      JetPool.idx_setIsFree hplaced ha ha]
  have hnext (b : BitVec 32) (hb : b ∈ pool.slots) :
      PoolElem.nextFreeIdx ⟨order, b⟩ (PoolElem.setNextFreeIdx ⟨order, a⟩
        (PoolElem.setIsFree ⟨order, a⟩ s.mem 1) s.pool.freeElemIdx) =
      Function.update (fun b => PoolElem.nextFreeIdx ⟨order, b⟩ s.mem) a s.pool.freeElemIdx b := by
    rw [JetPool.nextFreeIdx_setNextFreeIdx hplaced ha hb]
    by_cases hba : b = a
    · subst hba
      rw [Function.update_self, Function.update_self]
    · rw [Function.update_of_ne hba, Function.update_of_ne hba,
        JetPool.nextFreeIdx_setIsFree hplaced ha hb]
  have hstep : s.step order (.freeElem a) = some
      ⟨{ s.pool with freeElemIdx := PoolElem.idx ⟨order, a⟩ s.mem },
        PoolElem.setNextFreeIdx ⟨order, a⟩ (PoolElem.setIsFree ⟨order, a⟩ s.mem 1)
          s.pool.freeElemIdx, s.inUse.erase a⟩ := by
    simp only [step, hfree, if_pos hin]
  refine ⟨_, hstep, ?_⟩
  constructor
  · rw [h.same]
  · have herase : (a :: s.inUse.erase a).Perm s.inUse := (List.perm_cons_erase hin).symm
    have hmove : (a :: free ++ s.inUse.erase a).Perm (free ++ a :: s.inUse.erase a) :=
      List.perm_middle.symm
    exact hmove.trans ((herase.append_left free).trans h.perm)
  · refine ⟨?_, path_from h.path ?_ ?_⟩
    · change s.pool.deref (PoolElem.idx ⟨order, a⟩ s.mem) = some a
      rw [h.deref]
      exact h.own a ha hknown
    · change JetPool.deref _ (PoolElem.nextFreeIdx ⟨order, a⟩ _) = _
      rw [hnext a ha, Function.update_self]
      rfl
    · intro x hx
      have hxa : x ≠ a := by
        rintro rfl
        exact (List.nodup_append'.mp hnodup).2.2 hx hin
      change JetPool.deref _ (PoolElem.nextFreeIdx ⟨order, x⟩ _) = _
      rw [hnext x (h.mem_slots (.inl hx)), Function.update_of_ne hxa]
      rfl
  · intro b hb hknownb
    change pool.deref (PoolElem.idx ⟨order, b⟩ (PoolElem.setNextFreeIdx _ _ _)) = _
    rw [JetPool.idx_setNextFreeIdx hplaced ha hb, JetPool.idx_setIsFree hplaced ha hb]
    exact h.own b hb hknownb

/-- What others write leaves the indices alone. -/
theorem Holds.write (hplaced : pool.Placed) (h : Holds order pool known s free) {byte : Byte}
    (hstep : s.step order (.write a byte) = some t) : Holds order pool known t free := by
  have hout : ∀ i < s.pool.num.toNat, ¬ Covers (s.pool.slot i) 12 a := by
    by_contra hout
    simp only [step, if_neg hout] at hstep
    exact absurd hstep.symm (Option.some_ne_none t)
  simp only [step, if_pos hout, Option.some.injEq] at hstep
  subst hstep
  have hload (p b : BitVec 32) (o : BitVec 32) (hb : b ∈ pool.slots) (hp : p = b + o)
      (ho : o.toNat + 4 ≤ 12) :
      load32 order (Function.update s.mem a byte) p = load32 order s.mem p := by
    apply load32_congr
    intro c hc
    apply Function.update_of_ne
    rintro rfl
    rw [← h.slots] at hb
    obtain ⟨i, hi, rfl⟩ := JetPool.mem_slots.mp hb
    have hfits := hplaced.le_of_mem (h.slots ▸ hb)
    have hpnat := hplaced.add_toNat (h.slots ▸ hb) (show o.toNat < 16 by omega)
    rw [hp, covers_iff (by omega)] at hc
    apply hout i hi
    rw [covers_iff (by omega)]
    omega
  constructor
  · exact h.same
  · exact h.perm
  · refine path_congr h.path ?_ fun x hx => ?_
    · rfl
    change JetPool.deref _ (load32 order _ (x + 8)) = _
    rw [hload (x + 8) x 8 (h.mem_slots (.inl hx)) rfl (by decide)]
    rfl
  · intro b hb hknown
    change pool.deref (load32 order _ b) = _
    rw [hload b b 0 hb (BitVec.add_zero b).symm (by decide)]
    exact h.own b hb hknown

/-- What a pool does for its users: a free element is handed out as long as there is one, and
every element that is not in use will be. -/
structure Serves (order : ByteOrder) (s : PoolState) : Prop where
  fresh : ∀ a, (s.pool.jetPoolGetFreeElem order s.mem).1 = some a → a ∈ s.pool.slots ∧ a ∉ s.inUse
  full : (s.pool.jetPoolGetFreeElem order s.mem).1 = none ↔ ∀ a ∈ s.pool.slots, a ∈ s.inUse
  again : ∀ a ∈ s.pool.slots, a ∉ s.inUse → ∃ k t,
    Run.exec (step order) s (List.replicate k .getFreeElem) = some t ∧
      (t.pool.jetPoolGetFreeElem order t.mem).1 = some a

theorem Holds.again (hplaced : pool.Placed) (h : Holds order pool known s free) (ha : a ∈ free) :
    ∃ k t, Run.exec (step order) s (List.replicate k .getFreeElem) = some t ∧
      (t.pool.jetPoolGetFreeElem order t.mem).1 = some a := by
  induction free generalizing s with
  | nil => exact absurd ha List.not_mem_nil
  | cons b rest ih =>
    obtain ⟨hget, t, hstep, ht⟩ := h.get_cons hplaced
    rcases List.mem_cons.mp ha with rfl | hrest
    · exact ⟨0, s, rfl, hget⟩
    · obtain ⟨k, u, hexec, hu⟩ := ih ht hrest
      exact ⟨k + 1, u, Run.exec_cons.mpr ⟨t, hstep, hexec⟩, hu⟩

theorem Holds.serves (hplaced : pool.Placed) (h : Holds order pool known s free) :
    s.Serves order := by
  have hnodup : (free ++ s.inUse).Nodup := h.perm.nodup_iff.mpr hplaced.nodup
  have hdisjoint := (List.nodup_append'.mp hnodup).2.2
  constructor
  · intro a hget
    rw [h.slots]
    cases free with
    | nil =>
      rw [h.get_nil] at hget
      exact absurd hget.symm (Option.some_ne_none a)
    | cons b rest =>
      rw [(h.get_cons hplaced).1] at hget
      obtain rfl := Option.some.inj hget
      exact ⟨h.mem_slots (.inl List.mem_cons_self), hdisjoint List.mem_cons_self⟩
  · rw [h.slots]
    cases free with
    | nil =>
      rw [h.get_nil]
      exact iff_of_true rfl fun a ha => h.perm.symm.subset ha
    | cons b rest =>
      rw [(h.get_cons hplaced).1]
      apply iff_of_false (Option.some_ne_none b)
      intro hall
      exact hdisjoint List.mem_cons_self (hall b (h.mem_slots (.inl List.mem_cons_self)))
  · intro a ha hfree
    rw [h.slots] at ha
    rcases List.mem_append.mp (h.perm.symm.subset ha) with hin | hin
    · exact h.again hplaced hin
    · exact absurd hin hfree

/-- A call keeps the list of free elements, as long as only elements that have their own index
are freed. -/
theorem Holds.step (hplaced : pool.Placed) (h : Holds order pool known s free)
    (hknown : ∀ a, call = .freeElem a → known a) (hstep : s.step order call = some t) :
    ∃ free', Holds order pool known t free' := by
  cases call with
  | getFreeElem =>
    cases free with
    | nil =>
      simp only [PoolState.step, h.get_nil, Option.toList_none, List.nil_append,
        Option.some.injEq] at hstep
      subst hstep
      exact ⟨[], h.same, h.perm, h.path, h.own⟩
    | cons a rest =>
      obtain ⟨-, u, hu, hrest⟩ := h.get_cons hplaced
      obtain rfl := Option.some.inj (hu.symm.trans hstep)
      exact ⟨rest, hrest⟩
  | freeElem a =>
    have hin : a ∈ s.inUse := by
      by_contra hnot
      simp only [PoolState.step, if_neg hnot] at hstep
      exact absurd hstep.symm (Option.some_ne_none t)
    have hnodup : (free ++ s.inUse).Nodup := h.perm.nodup_iff.mpr hplaced.nodup
    obtain ⟨u, hu, hfree⟩ := h.free_elem hplaced hnodup hin (hknown a rfl)
    obtain rfl := Option.some.inj (hu.symm.trans hstep)
    exact ⟨a :: free, hfree⟩
  | write a byte => exact ⟨free, h.write hplaced hstep⟩

theorem Holds.run (hplaced : pool.Placed) {calls : List PoolCall}
    (h : Holds order pool known s free) (hknown : ∀ a, .freeElem a ∈ calls → known a)
    (hrun : Run.exec (PoolState.step order) s calls = some t) :
    ∃ free', Holds order pool known t free' := by
  induction calls generalizing s free with
  | nil =>
    obtain rfl := Option.some.inj hrun
    exact ⟨free, h⟩
  | cons call calls ih =>
    obtain ⟨u, hstep, hrest⟩ := Run.exec_cons.mp hrun
    obtain ⟨free', hu⟩ := h.step hplaced
      (fun a ha => hknown a (ha ▸ List.mem_cons_self)) hstep
    exact ih hu (fun a ha => hknown a (List.mem_cons_of_mem _ ha)) hrest

end PoolState

namespace JetPool

open LinkedList

variable {order : ByteOrder} {heap heap' : SmallHeap} {mem mem' : Bytes}
  {elemSize num : BitVec 32} {pool : JetPool}

/-- Where the heap puts the elements of a new pool -/
def dataStart (heap : SmallHeap) : BitVec 32 := align (align heap.heapCurrent 16 + 20) 16

/-- The elements end before the last address, when their end is computed without a word. -/
def HasRoom (heap : SmallHeap) (elemSize num : BitVec 32) : Prop :=
  (dataStart heap).toNat + Alignment.alignUp (elemSize.toNat + 16) 4 * num.toNat < 2 ^ 32

instance (heap : SmallHeap) (elemSize num : BitVec 32) : Decidable (HasRoom heap elemSize num) :=
  inferInstanceAs (Decidable (_ < _))

theorem HasRoom.stride_toNat (hnum : 0 < num.toNat) (hroom : HasRoom heap elemSize num) :
    (alignUp (elemSize + 16) 4).toNat = Alignment.alignUp (elemSize.toNat + 16) 4 := by
  have hle : Alignment.alignUp (elemSize.toNat + 16) 4 * 1 ≤
      Alignment.alignUp (elemSize.toNat + 16) 4 * num.toNat := Nat.mul_le_mul_left _ hnum
  have hfits : Alignment.alignUp (elemSize.toNat + 16) 4 < 2 ^ 32 := by
    rw [HasRoom] at hroom
    omega
  have hge : elemSize.toNat + 16 ≤ Alignment.alignUp (elemSize.toNat + 16) 4 := by
    rw [Alignment.alignUp]
    omega
  have hsum : (elemSize + 16).toNat = elemSize.toNat + 16 := by
    have hsixteen : (16 : BitVec 32).toNat = 16 := rfl
    rw [BitVec.toNat_add, hsixteen]
    omega
  have halign := Alignment.toNat_align (k := 2) (elemSize + 16) (by decide)
  rw [hsum] at halign
  exact halign.trans (Nat.mod_eq_of_lt hfits)

theorem jetPoolCreate_eq (hnum : 0 < num.toNat) (hroom : HasRoom heap elemSize num)
    (h : jetPoolCreate order heap mem elemSize num = some (heap', pool, mem')) :
    pool = ⟨elemSize, num, alignUp (elemSize + 16) 4, 0, dataStart heap⟩ ∧
      mem' = pool.link order mem := by
  have hsize : 16 ≤ (alignUp (elemSize + 16) 4 * num).toNat := by
    have hle : Alignment.alignUp (elemSize.toNat + 16) 4 * 1 ≤
        Alignment.alignUp (elemSize.toNat + 16) 4 * num.toNat := Nat.mul_le_mul_left _ hnum
    have hge : elemSize.toNat + 16 ≤ Alignment.alignUp (elemSize.toNat + 16) 4 := by
      rw [Alignment.alignUp]
      omega
    have hroom' := hroom
    rw [HasRoom] at hroom'
    rw [BitVec.toNat_mul, hroom.stride_toNat hnum, Nat.mod_eq_of_lt (by omega)]
    omega
  have hlarge : memGetAlignment (alignUp (elemSize + 16) 4 * num) = 16 := by
    have hone : (1 : BitVec 32).toNat = 1 := rfl
    have hfour : (4 : BitVec 32).toNat = 4 := rfl
    have height : (8 : BitVec 32).toNat = 8 := rfl
    have hsixteen : (16 : BitVec 32).toNat = 16 := rfl
    unfold memGetAlignment
    simp only [BitVec.le_def, BitVec.lt_def, hone, hfour, height, hsixteen]
    split_ifs <;> first | rfl | omega
  have hne : alignUp (elemSize + 16) 4 * num ≠ 0 := by
    intro heq
    rw [heq] at hsize
    exact absurd hsize (by decide)
  have hblock (heap heap' : SmallHeap) (size data : BitVec 32) (hsize : size ≠ 0)
      (hlarge : memGetAlignment size = 16) (h : heap.smalloc size = some (heap', some data)) :
      data = align heap.heapCurrent 16 ∧ heap'.heapCurrent = data + size := by
    simp only [SmallHeap.smalloc, SmallHeap.smallocAligned, hlarge, if_neg hsize] at h
    split_ifs at h
    all_goals simp only [Option.some.injEq, Prod.mk.injEq, reduceCtorEq, and_false] at h
    obtain ⟨rfl, rfl⟩ := h
    exact ⟨rfl, rfl⟩
  simp only [jetPoolCreate, Option.bind_eq_some_iff, Option.map_eq_some_iff] at h
  obtain ⟨⟨heap1, -⟩, hfirst, start, rfl, ⟨heap2, -⟩, hsecond, data, rfl, hpool⟩ := h
  obtain ⟨hstart, hcurrent⟩ := hblock heap heap1 20 start (by decide) (by decide) hfirst
  obtain ⟨hdata, -⟩ := hblock heap1 heap2 _ data hne hlarge hsecond
  rw [hcurrent, hstart] at hdata
  simp only [Prod.mk.injEq] at hpool
  obtain ⟨-, rfl, rfl⟩ := hpool
  exact ⟨by rw [hdata, dataStart], rfl⟩

theorem HasRoom.placed (hnum : 0 < num.toNat) (hroom : HasRoom heap elemSize num) :
    Placed ⟨elemSize, num, alignUp (elemSize + 16) 4, 0, dataStart heap⟩ := by
  constructor
  · have hge : elemSize.toNat + 16 ≤ Alignment.alignUp (elemSize.toNat + 16) 4 := by
      rw [Alignment.alignUp]
      omega
    rw [hroom.stride_toNat hnum]
    omega
  · rw [hroom.stride_toNat hnum]
    exact hroom.le

/-- The last element keeps whatever index the memory held. -/
def KnowsIndex (order : ByteOrder) (pool : JetPool) (mem : Bytes) (a : BitVec 32) : Prop :=
  a = pool.lastSlot → pool.deref (PoolElem.idx ⟨order, a⟩ mem) = some a

theorem link_holds (h : pool.Placed) (hpos : 0 < pool.num.toNat)
    (hsigned : pool.num.toNat < 2 ^ 31) (hfirst : pool.freeElemIdx = 0) (mem : Bytes) :
    PoolState.Holds order pool (KnowsIndex order pool mem) ⟨pool, pool.link order mem, []⟩
      pool.slots := by
  have hone : (1 : BitVec 32).toNat = 1 := rfl
  have hpred : (pool.num - 1).toNat = pool.num.toNat - 1 := by
    have hle : 1 ≤ pool.num := by
      rw [BitVec.le_def, hone]
      exact hpos
    rw [BitVec.toNat_sub_of_le hle, hone]
  have hcount : (pool.num - 1).toInt.toNat = pool.num.toNat - 1 := by
    rw [BitVec.toInt_eq_toNat_of_lt (by omega), hpred, Int.toNat_natCast]
  have hlastElem : pool.getPoolElem (pool.num - 1) = pool.lastSlot := by
    rw [lastSlot, slot, ← hpred, BitVec.ofNat_toNat, BitVec.setWidth_eq]
  have hmem (i : Nat) (hi : i < pool.num.toNat) : pool.slot i ∈ pool.slots :=
    mem_slots.mpr ⟨i, hi, rfl⟩
  have hlast : pool.lastSlot ∈ pool.slots := hmem _ (by omega)
  have hlink : pool.link order mem = PoolElem.setNextFreeIdx ⟨order, pool.lastSlot⟩
      (pool.linkLoop order mem (pool.num.toNat - 1)) (-1) := by
    rw [link, hcount, hlastElem]
  obtain ⟨hdone, hrest⟩ :=
    linkLoop_fields h mem (Nat.sub_lt hpos Nat.one_pos)
  rw [hlink]
  constructor
  · rfl
  · rw [List.append_nil]
  · have hslots : pool.slots = (List.range' 0 pool.num.toNat).map pool.slot := by
      rw [slots, List.range_eq_range']
    rw [hslots]
    apply path_range'
    · rw [if_neg (by omega)]
      change pool.deref pool.freeElemIdx = _
      rw [hfirst]
      exact deref_ofNat hpos hsigned
    · intro i _ hi
      rw [Nat.zero_add] at hi ⊢
      change pool.deref (PoolElem.nextFreeIdx _ _) = _
      rw [nextFreeIdx_setNextFreeIdx h hlast (hmem i hi)]
      by_cases hend : i + 1 < pool.num.toNat
      · have hne : pool.slot i ≠ pool.lastSlot := by
          intro heq
          have := h.slot_inj hi (by omega) heq
          omega
        rw [if_pos hend, Function.update_of_ne hne, (hdone i (by omega)).1,
          deref_ofNat hend hsigned]
      · have heq : i = pool.num.toNat - 1 := by omega
        rw [if_neg hend, heq, ← lastSlot, Function.update_self, deref, if_pos rfl]
  · intro a ha hknown
    obtain ⟨i, hi, rfl⟩ := mem_slots.mp ha
    rw [idx_setNextFreeIdx h hlast ha]
    by_cases hend : i < pool.num.toNat - 1
    · rw [(hdone i hend).2, deref_ofNat hi hsigned]
    · have heq : i = pool.num.toNat - 1 := by omega
      rw [hrest i (by omega) hi]
      exact hknown (by rw [heq, lastSlot])

end JetPool

variable {order : ByteOrder} {heap heap' : SmallHeap} {mem mem' : Bytes}
  {elemSize num : BitVec 32} {pool : JetPool} {calls : List PoolCall} {s : PoolState}

/-- The pool serves its users as long as its last element is not freed, or if that one has its own
index by chance. -/
theorem object_pool (hnum : 0 < num.toInt) (hroom : JetPool.HasRoom heap elemSize num)
    (hcreate : JetPool.jetPoolCreate order heap mem elemSize num = some (heap', pool, mem'))
    (hlast : PoolCall.freeElem pool.lastSlot ∈ calls →
      pool.deref (PoolElem.idx ⟨order, pool.lastSlot⟩ mem) = some pool.lastSlot)
    (hrun : Run.exec (PoolState.step order) ⟨pool, mem', []⟩ calls = some s) : s.Serves order := by
  have hsigned : num.toNat < 2 ^ 31 := by
    by_contra hge
    rw [BitVec.toInt_eq_toNat_cond, if_neg (by omega)] at hnum
    have hlt := num.isLt
    omega
  have hpos : 0 < num.toNat := by
    rw [BitVec.toInt_eq_toNat_of_lt (by omega)] at hnum
    omega
  obtain ⟨rfl, rfl⟩ := JetPool.jetPoolCreate_eq hpos hroom hcreate
  have hplaced := hroom.placed hpos
  have hholds : PoolState.Holds order _ _ _ _ := JetPool.link_holds hplaced hpos hsigned rfl mem
  obtain ⟨free, hfree⟩ := hholds.run hplaced (fun a ha heq => by
    subst heq
    exact hlast ha) hrun
  exact hfree.serves hplaced

/-- A heap of 4 KiB that holds zeros -/
def zeroHeap : SmallHeap := ⟨0x1000, 0x2000, false⟩

/-- Three elements of 8 bytes -/
def zeroPool : JetPool := ⟨8, 3, 24, 0, 0x1020⟩

example : (JetPool.jetPoolCreate .little zeroHeap (fun _ => 0) 8 3).map
    (fun created => created.2.1) = some zeroPool := by decide

theorem object_pool_zeroPool : ∃ s, Run.exec (PoolState.step .little)
    ⟨zeroPool, zeroPool.link .little fun _ => 0, []⟩
      [.getFreeElem, .getFreeElem, .freeElem 0x1020, .write 0x1048 7, .getFreeElem, .getFreeElem] =
        some s ∧ s.Serves .little := by
  obtain ⟨s, hs⟩ := Option.isSome_iff_exists.mp (show (Run.exec (PoolState.step .little)
    ⟨zeroPool, zeroPool.link .little fun _ => 0, []⟩
      [.getFreeElem, .getFreeElem, .freeElem 0x1020, .write 0x1048 7, .getFreeElem,
        .getFreeElem]).isSome by decide)
  have hnum : 0 < (3 : BitVec 32).toInt := by decide
  have hroom : JetPool.HasRoom zeroHeap 8 3 := by decide
  exact ⟨s, hs, object_pool hnum hroom rfl (by decide) hs⟩

theorem object_pool_fails :
    ¬ ∀ (order : ByteOrder) (heap heap' : SmallHeap) (mem mem' : Bytes) (elemSize num : BitVec 32)
      (pool : JetPool) (calls : List PoolCall) (s : PoolState), 0 < num.toInt →
        JetPool.HasRoom heap elemSize num →
          JetPool.jetPoolCreate order heap mem elemSize num = some (heap', pool, mem') →
            Run.exec (PoolState.step order) ⟨pool, mem', []⟩ calls = some s → s.Serves order := by
  intro h
  obtain ⟨s, hs, hget⟩ : ∃ s, Run.exec (PoolState.step .little)
      ⟨zeroPool, zeroPool.link .little fun _ => 0, []⟩
        [.getFreeElem, .getFreeElem, .getFreeElem, .freeElem 0x1050] = some s ∧
      (s.pool.jetPoolGetFreeElem .little s.mem).1 = some 0x1020 ∧ 0x1020 ∈ s.inUse :=
    ⟨_, rfl, by decide, by decide⟩
  have hserves := h .little zeroHeap _ _ _ 8 3 zeroPool _ s (by decide) (by decide) rfl hs
  exact (hserves.fresh _ hget.1).2 hget.2

end Chpok
