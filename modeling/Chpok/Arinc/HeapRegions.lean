import Chpok.Arinc.Buffer
import Chpok.Library.Allocation

/-! What the heaps of a partition hand out. The ends are computed in words, so that the end of
a great block may come out before the limit. -/

namespace Chpok

open Allocation Alignment

theorem align_toNat {val alignment : BitVec 32} {k : Nat} (hk : k < 32)
    (h : alignment.toNat = 2 ^ k) :
    (align val alignment).toNat = alignUp val.toNat alignment.toNat % 2 ^ 32 := by
  have hmask : alignment - 1 = BitVec.ofNat 32 (2 ^ k - 1) := by
    have hpos : 0 < 2 ^ k := Nat.two_pow_pos k
    have hlt := alignment.isLt
    apply BitVec.eq_of_toNat_eq
    rw [BitVec.toNat_sub, BitVec.toNat_ofNat, h, show (1 : BitVec 32).toNat = 1 from rfl]
    omega
  rw [align, hmask, h]
  exact toNat_align val (by omega)

theorem memGetAlignment_pow (objSize : BitVec 32) :
    ∃ k < 32, (memGetAlignment objSize).toNat = 2 ^ k := by
  unfold memGetAlignment
  split_ifs
  · exact ⟨0, by decide, by decide⟩
  · exact ⟨1, by decide, by decide⟩
  · exact ⟨2, by decide, by decide⟩
  · exact ⟨3, by decide, by decide⟩
  · exact ⟨4, by decide, by decide⟩

namespace HeapCall

/-- A size and a number that are not 0, and an alignment that is a power of two -/
def Ordinary : HeapCall → Prop
  | .smallocAligned size alignment => size ≠ 0 ∧ ∃ k < 32, alignment.toNat = 2 ^ k
  | .smalloc size => size ≠ 0
  | .scalloc nmemb size => nmemb ≠ 0 ∧ size ≠ 0

/-- The size of all elements, each but the last one with its padding -/
def size : HeapCall → Nat
  | .smallocAligned size _ => size.toNat
  | .smalloc size => size.toNat
  | .scalloc nmemb size =>
    alignUp size.toNat (memGetAlignment size).toNat * (nmemb.toNat - 1) + size.toNat

def alignment : HeapCall → BitVec 32
  | .smallocAligned _ alignment => alignment
  | .smalloc size => memGetAlignment size
  | .scalloc _ size => memGetAlignment size

theorem Ordinary.pow {call : HeapCall} (h : call.Ordinary) :
    ∃ k < 32, call.alignment.toNat = 2 ^ k := by
  cases call with
  | smallocAligned size alignment => exact h.2
  | smalloc size => exact memGetAlignment_pow size
  | scalloc nmemb size => exact memGetAlignment_pow size

theorem toNat_pos {size : BitVec 32} (h : size ≠ 0) : 0 < size.toNat := by
  rcases Nat.eq_zero_or_pos size.toNat with h0 | h0
  · exact absurd (BitVec.eq_of_toNat_eq h0) h
  · exact h0

theorem Ordinary.size_pos {call : HeapCall} (h : call.Ordinary) : 0 < call.size := by
  cases call with
  | smallocAligned size alignment => exact toNat_pos h.1
  | smalloc size => exact toNat_pos h
  | scalloc nmemb size =>
    have := toNat_pos h.2
    simp only [HeapCall.size]
    omega

theorem dvd_of_pow {n k : Nat} (hk : k < 32) (h : n = 2 ^ k) : n ∣ 2 ^ 32 :=
  h ▸ Nat.pow_dvd_pow 2 (by omega)

/-- An ordinary call as a request for memory -/
def request (call : { call : HeapCall // call.Ordinary }) : Request (2 ^ 32) where
  size := call.1.size
  align := call.1.alignment.toNat
  pos := call.2.size_pos
  dvd := by
    obtain ⟨k, hk, h⟩ := call.2.pow
    exact dvd_of_pow hk h

end HeapCall

/-- A request to `arinc_alloc` -/
structure BlockRequest where
  size : BitVec 32
  alignment : BitVec 32
  size_ne : size ≠ 0
  pow : ∃ k < 32, alignment.toNat = 2 ^ k

def BlockRequest.request (q : BlockRequest) : Request (2 ^ 32) where
  size := q.size.toNat
  align := q.alignment.toNat
  pos := HeapCall.toNat_pos q.size_ne
  dvd := by
    obtain ⟨k, hk, h⟩ := q.pow
    exact HeapCall.dvd_of_pow hk h

namespace SmallHeap

variable {heap : SmallHeap} {size alignment nmemb : BitVec 32}

/-- The heap answers as one that goes upwards, up to the computed end. -/
def Bumps (heap : SmallHeap) (q : Request (2 ^ 32)) (r : Option (SmallHeap × Option (BitVec 32))) :
    Prop :=
  heap.heapEnd.toNat < q.stop heap.heapCurrent.toNat ∧ r = some (heap, none) ∨
    q.stop heap.heapCurrent.toNat ≤ heap.heapEnd.toNat ∧ ∃ stop start : BitVec 32,
      stop.toNat = q.stop heap.heapCurrent.toNat ∧ start.toNat = q.start heap.heapCurrent.toNat ∧
        r = some ({ heap with heapCurrent := stop }, some start)

theorem bumps_of_sum {q : Request (2 ^ 32)} {start stop : BitVec 32}
    (hstart : start.toNat = q.start heap.heapCurrent.toNat)
    (hstop : stop.toNat = q.stop heap.heapCurrent.toNat) :
    heap.Bumps q (if stop > heap.heapEnd then some (heap, none)
      else some ({ heap with heapCurrent := stop }, some start)) := by
  by_cases hover : heap.heapEnd.toNat < stop.toNat
  · exact .inl ⟨hstop ▸ hover, if_pos (BitVec.lt_def.mpr hover)⟩
  · refine .inr ⟨by omega, stop, start, hstop, hstart, if_neg fun hlt => hover ?_⟩
    exact BitVec.lt_def.mp hlt

theorem smallocAligned_bumps {q : Request (2 ^ 32)} (hmode : heap.normalMode = false)
    (hsize : q.size = size.toNat) (halign : q.align = alignment.toNat)
    (hpow : ∃ k < 32, alignment.toNat = 2 ^ k) :
    heap.Bumps q (heap.smallocAligned size alignment) := by
  obtain ⟨k, hk, hal⟩ := hpow
  have hne : size ≠ 0 := by
    rintro rfl
    have := q.pos
    rw [hsize] at this
    exact absurd this (by decide)
  have hstart : (align heap.heapCurrent alignment).toNat = q.start heap.heapCurrent.toNat := by
    rw [align_toNat hk hal, Request.start, halign]
  rw [smallocAligned, if_neg (by simp [hmode]), if_neg hne]
  apply bumps_of_sum hstart
  rw [BitVec.toNat_add, hstart, Request.stop, Request.start, hsize, Nat.mod_add_mod]

theorem scalloc_bumps {q : Request (2 ^ 32)} (hmode : nmemb = 1 → heap.normalMode = false)
    (hordinary : (HeapCall.scalloc nmemb size).Ordinary)
    (hsize : q.size = (HeapCall.scalloc nmemb size).size)
    (halign : q.align = (memGetAlignment size).toNat) :
    heap.Bumps q (heap.scalloc nmemb size) := by
  obtain ⟨hnmemb, hne⟩ := hordinary
  obtain ⟨k, hk, hal⟩ := memGetAlignment_pow size
  rw [scalloc, if_neg (not_or.mpr ⟨hne, hnmemb⟩)]
  by_cases hone : nmemb = 1
  · rw [if_pos hone]
    refine smallocAligned_bumps (hmode hone) ?_ halign ⟨k, hk, hal⟩
    rw [hsize, hone]
    simp [HeapCall.size]
  · rw [if_neg hone]
    have hstart : (align heap.heapCurrent (memGetAlignment size)).toNat =
        q.start heap.heapCurrent.toNat := by
      rw [align_toNat hk hal, Request.start, halign]
    have hpred : (nmemb - 1).toNat = nmemb.toNat - 1 := by
      have := HeapCall.toNat_pos hnmemb
      have := nmemb.isLt
      rw [BitVec.toNat_sub, show (1 : BitVec 32).toNat = 1 from rfl]
      omega
    apply bumps_of_sum hstart
    rw [BitVec.toNat_add, BitVec.toNat_add, BitVec.toNat_mul, hstart, align_toNat hk hal, hpred,
      Request.stop, Request.start, hsize, HeapCall.size, Nat.mod_mul_mod, Nat.add_mod_mod,
      Nat.mod_add_mod, Nat.add_assoc, Nat.mod_add_mod, halign]

/-- The mode is checked by the calls that go through `smalloc_aligned`. -/
def Allowed (heap : SmallHeap) : HeapCall → Prop
  | .smallocAligned _ _ => heap.normalMode = false
  | .smalloc _ => heap.normalMode = false
  | .scalloc nmemb _ => nmemb = 1 → heap.normalMode = false

theorem call_bumps (call : { call : HeapCall // call.Ordinary }) (hallowed : heap.Allowed call.1) :
    heap.Bumps (HeapCall.request call) (heap.call call.1) := by
  obtain ⟨call, hordinary⟩ := call
  cases call with
  | smallocAligned size alignment => exact smallocAligned_bumps hallowed rfl rfl hordinary.2
  | smalloc size => exact smallocAligned_bumps hallowed rfl rfl (memGetAlignment_pow size)
  | scalloc nmemb size => exact scalloc_bumps hallowed hordinary rfl rfl

theorem smallocAligned_asserts (h : heap.normalMode ≠ false) :
    heap.smallocAligned size alignment = none := by
  simp [smallocAligned, h]

theorem call_asserts (call : { call : HeapCall // call.Ordinary }) (h : ¬ heap.Allowed call.1) :
    heap.call call.1 = none := by
  obtain ⟨call, hordinary⟩ := call
  cases call with
  | smallocAligned size alignment => exact smallocAligned_asserts h
  | smalloc size => exact smallocAligned_asserts h
  | scalloc nmemb size =>
    obtain ⟨hone, hmode⟩ := Classical.not_imp.mp h
    rw [SmallHeap.call, scalloc, if_neg (not_or.mpr ⟨hordinary.2, hordinary.1⟩), if_pos hone]
    exact smallocAligned_asserts hmode

/-- A call, and the block that is returned -/
def alloc (heap : SmallHeap) (call : { call : HeapCall // call.Ordinary }) :
    Option (SmallHeap × Option Region) :=
  (heap.call call.1).map fun r =>
    (r.1, r.2.map fun start => ⟨start.toNat, start.toNat + call.1.size⟩)

theorem heap_proper (hlow : heap.heapCurrent.toNat ≤ heap.heapEnd.toNat)
    (calls : List { call : HeapCall // call.Ordinary }) :
    Proper alloc (fun call => (HeapCall.request call).Asked)
        ⟨heap.heapCurrent.toNat, heap.heapEnd.toNat⟩ heap [] calls ↔
      Run.Meets (fun heap call => (heap.alloc call).map Prod.fst)
        (fun h call => h.Allowed call.1 →
          (HeapCall.request call).Fits 0 heap.heapEnd.toNat h.heapCurrent.toNat) heap calls := by
  have hlimit : 0 + heap.heapEnd.toNat < 2 ^ 32 := by
    have := heap.heapEnd.isLt
    omega
  have hstuck : ∀ (t : SmallHeap) (call : { call : HeapCall // call.Ordinary }),
      ¬ t.Allowed call.1 → t.alloc call = none := by
    intro t call hnot
    rw [alloc, call_asserts call hnot, Option.map_none]
  have hbump : ∀ (t : SmallHeap) (call : { call : HeapCall // call.Ordinary }),
      t.heapEnd = heap.heapEnd → t.Allowed call.1 →
      heap.heapEnd.toNat < (HeapCall.request call).stop t.heapCurrent.toNat ∧
          t.alloc call = some (t, none) ∨
        (HeapCall.request call).stop t.heapCurrent.toNat ≤ heap.heapEnd.toNat ∧
          ∃ u : SmallHeap, u.heapEnd = heap.heapEnd ∧
            u.heapCurrent.toNat = (HeapCall.request call).stop t.heapCurrent.toNat ∧
            t.alloc call = some (u, some ((HeapCall.request call).region 0 t.heapCurrent.toNat)) := by
    intro t call hend hallowed
    rcases call_bumps call hallowed with ⟨hover, hcall⟩ | ⟨hfits, stop, start, hstop, hstart, hcall⟩
    · refine .inl ⟨hend ▸ hover, ?_⟩
      rw [alloc, hcall]
      rfl
    · refine .inr ⟨hend ▸ hfits, { t with heapCurrent := stop }, hend, hstop, ?_⟩
      have haddress : (HeapCall.request call).address 0 t.heapCurrent.toNat = start.toNat := by
        rw [Request.address, Nat.zero_add, hstart, Request.start, Nat.mod_mod]
      rw [alloc, hcall, Request.region, haddress]
      rfl
  have h := bump_proper_iff 0 (fun t : SmallHeap => t.heapCurrent.toNat)
    (fun t => t.heapEnd = heap.heapEnd) HeapCall.request calls hlimit hstuck hbump rfl hlow
  rw [Nat.cast_zero, Int.zero_add, Int.zero_add] at h
  exact h

end SmallHeap

namespace IntraHeap

variable {heap : IntraHeap} {q : BlockRequest}

/-- A request, and the block that is returned -/
def alloc (heap : IntraHeap) (q : BlockRequest) : Option (IntraHeap × Option Region) :=
  let (next, messages) := heap.arincAlloc q.size q.alignment
  some (next, if messages = 0 then none
    else some ⟨messages.toNat, messages.toNat + q.size.toNat⟩)

/-- The address that `arinc_alloc` computes -/
def address (heap : IntraHeap) (q : BlockRequest) : Nat :=
  q.request.address heap.intraHeap.toNat heap.sizeCurrent.toNat

/-- The computed end is right, or the block would be at `NULL` and nothing is taken for it. -/
def Fits (heap : IntraHeap) (q : BlockRequest) : Prop :=
  q.request.Fits heap.intraHeap.toNat heap.memorySize.toNat heap.sizeCurrent.toNat ∨
    heap.address q = 0 ∧ q.request.stop heap.sizeCurrent.toNat = heap.sizeCurrent.toNat

theorem arincAlloc_reset (size alignment state : BitVec 32) :
    (heap.arincAlloc size alignment).1.resetState state = heap.resetState state := by
  dsimp only [arincAlloc]
  split_ifs
  · rfl
  · rfl

theorem alloc_cases (heap : IntraHeap) (q : BlockRequest) :
    heap.memorySize.toNat < q.request.stop heap.sizeCurrent.toNat ∧ heap.alloc q = some (heap, none) ∨
      q.request.stop heap.sizeCurrent.toNat ≤ heap.memorySize.toNat ∧ ∃ stop : BitVec 32,
        stop.toNat = q.request.stop heap.sizeCurrent.toNat ∧
        heap.alloc q = some ({ heap with sizeCurrent := stop }, if heap.address q = 0 then none
          else some (q.request.region heap.intraHeap.toNat heap.sizeCurrent.toNat)) := by
  obtain ⟨k, hk, hal⟩ := q.pow
  have hstart : (align heap.sizeCurrent q.alignment).toNat = q.request.start heap.sizeCurrent.toNat :=
    align_toNat hk hal
  have hstop : (align heap.sizeCurrent q.alignment + q.size).toNat =
      q.request.stop heap.sizeCurrent.toNat := by
    rw [BitVec.toNat_add, hstart, Request.stop, Request.start, Nat.mod_add_mod]
    rfl
  have haddress : (heap.intraHeap + align heap.sizeCurrent q.alignment).toNat = heap.address q := by
    rw [BitVec.toNat_add, hstart, address, Request.address]
  have hnull : heap.intraHeap + align heap.sizeCurrent q.alignment = 0 ↔ heap.address q = 0 := by
    rw [← haddress]
    exact ⟨fun h => by rw [h]; rfl, fun h => BitVec.eq_of_toNat_eq h⟩
  by_cases hover : heap.memorySize.toNat < (align heap.sizeCurrent q.alignment + q.size).toNat
  · refine .inl ⟨hstop ▸ hover, ?_⟩
    simp only [alloc, arincAlloc, if_pos (BitVec.lt_def.mpr hover : _ > heap.memorySize), if_pos]
  · refine .inr ⟨by omega, _, hstop, ?_⟩
    have hle : ¬ align heap.sizeCurrent q.alignment + q.size > heap.memorySize :=
      fun hlt => hover (BitVec.lt_def.mp hlt)
    simp only [alloc, arincAlloc, if_neg hle, hnull, haddress]
    rfl

/-- The requests are answered well exactly if all computed ends are right. -/
theorem alloc_proper (hlow : heap.sizeCurrent.toNat ≤ heap.memorySize.toNat)
    (hnull : heap.intraHeap ≠ 0) (hlimit : heap.intraHeap.toNat + heap.memorySize.toNat < 2 ^ 32)
    (qs : List BlockRequest) :
    Proper alloc (fun q => q.request.Asked)
        ⟨heap.intraHeap.toNat + heap.sizeCurrent.toNat, heap.intraHeap.toNat + heap.memorySize.toNat⟩
        heap [] qs ↔
      Run.Meets (fun heap q => (heap.alloc q).map Prod.fst) Fits heap qs := by
  have hbase := HeapCall.toNat_pos hnull
  let inv (t : IntraHeap) (taken : List Region) : Prop :=
    (t.intraHeap = heap.intraHeap ∧ t.memorySize = heap.memorySize) ∧
      Frontier heap.intraHeap.toNat heap.sizeCurrent.toNat heap.memorySize.toNat t.sizeCurrent.toNat
        taken
  have hinv : inv heap [] := ⟨⟨rfl, rfl⟩, Frontier.nil hlow⟩
  refine proper_iff inv ?_ ?_ hinv
  · rintro u taken q t answer ⟨⟨hintra, hmemory⟩, hfront⟩ hfits ha
    rw [← hintra, ← hmemory] at hlimit hfront
    rcases alloc_cases u q with ⟨-, hcall⟩ | ⟨hstop, stop, hcur, hcall⟩
    · obtain ⟨rfl, rfl⟩ := Prod.mk.inj (Option.some.inj (ha.symm.trans hcall))
      exact ⟨rfl, ⟨hintra, hmemory⟩, hintra ▸ hmemory ▸ hfront⟩
    · obtain ⟨rfl, rfl⟩ := Prod.mk.inj (Option.some.inj (ha.symm.trans hcall))
      rcases hfits with hfits | ⟨hzero, hsame⟩
      · obtain ⟨haddress, hgranted, hnext⟩ := hfront.fits hlimit hfits hstop
        have hne : u.address q ≠ 0 := by
          rw [address, haddress, hintra]
          omega
        rw [← hcur, hintra, hmemory] at hnext
        rw [hintra, hmemory] at hgranted
        rw [if_neg hne, hintra]
        exact ⟨hgranted, ⟨rfl, hmemory⟩, hnext⟩
      · have hstop : stop = u.sizeCurrent := BitVec.eq_of_toNat_eq (hcur.trans hsame)
        rw [if_pos hzero, hstop]
        exact ⟨rfl, ⟨hintra, hmemory⟩, hintra ▸ hmemory ▸ hfront⟩
  · rintro u taken q ⟨⟨hintra, hmemory⟩, hfront⟩ hfits
    rw [← hintra, ← hmemory] at hlimit hfront ⊢
    obtain ⟨hnot, hmoved⟩ := not_or.mp hfits
    obtain ⟨hstop, hwrong⟩ := hfront.not_fits hlimit hnot
    rcases alloc_cases u q with ⟨hrefused, -⟩ | ⟨-, stop, hcur, hcall⟩
    · omega
    · refine ⟨_, _, hcall, ?_⟩
      by_cases hzero : u.address q = 0
      · rw [if_pos hzero]
        intro hsame
        apply hmoved
        refine ⟨hzero, ?_⟩
        rw [← hcur, ← congrArg IntraHeap.sizeCurrent hsame]
      · rw [if_neg hzero]
        exact hwrong

end IntraHeap

namespace BufferTable

variable {table : BufferTable}

/-- A creation that fails takes no memory and no buffer. -/
theorem createBuffer_fails (name : List UInt8) (maxMessageSize maxNbMessage discipline : Int)
    (h : (table.createBuffer name maxMessageSize maxNbMessage discipline).2.1 ≠ .noError) :
    (table.createBuffer name maxMessageSize maxNbMessage discipline).1.heap = table.heap ∧
      (table.createBuffer name maxMessageSize maxNbMessage discipline).1.nbuffersUsed =
        table.nbuffersUsed := by
  have hreset : ∀ (size₁ align₁ size₂ align₂ : BitVec 32),
      ((table.heap.arincAlloc size₁ align₁).1.arincAlloc size₂ align₂).1.resetState
        table.heap.getState = table.heap := by
    intro size₁ align₁ size₂ align₂
    rw [IntraHeap.arincAlloc_reset, IntraHeap.arincAlloc_reset]
    rfl
  dsimp only [createBuffer] at h ⊢
  cases hbuffer : table.buffers[table.nbuffersUsed]? with
  | none =>
    dsimp only
    split_ifs
    · exact ⟨rfl, rfl⟩
    · exact ⟨rfl, rfl⟩
    · exact ⟨rfl, rfl⟩
  | some buffer =>
    dsimp only [hbuffer] at h ⊢
    split_ifs at h ⊢ with hmode hname hsize hnumber hdiscipline hmemory
    · exact ⟨rfl, rfl⟩
    · exact ⟨rfl, rfl⟩
    · exact ⟨rfl, rfl⟩
    · exact ⟨rfl, rfl⟩
    · exact ⟨rfl, rfl⟩
    · exact ⟨hreset _ _ _ _, rfl⟩
    · exact absurd (by rw [hbuffer]) h

end BufferTable

/-- The heap, the memory of messages and the creation of buffers -/
theorem heap_allocators (heap : SmallHeap) (hheap : heap.heapCurrent.toNat ≤ heap.heapEnd.toNat)
    (intra : IntraHeap) (hnull : intra.intraHeap ≠ 0)
    (hlimit : intra.intraHeap.toNat + intra.memorySize.toNat < 2 ^ 32)
    (hcurrent : intra.sizeCurrent.toNat ≤ intra.memorySize.toNat) :
    (∀ calls : List { call : HeapCall // call.Ordinary },
      Proper SmallHeap.alloc (fun call => (HeapCall.request call).Asked)
          ⟨heap.heapCurrent.toNat, heap.heapEnd.toNat⟩ heap [] calls ↔
        Run.Meets (fun heap call => (heap.alloc call).map Prod.fst)
          (fun h call => h.Allowed call.1 →
            (HeapCall.request call).Fits 0 heap.heapEnd.toNat h.heapCurrent.toNat) heap calls) ∧
      (∀ qs : List BlockRequest,
        Proper IntraHeap.alloc (fun q => q.request.Asked)
            ⟨intra.intraHeap.toNat + intra.sizeCurrent.toNat,
              intra.intraHeap.toNat + intra.memorySize.toNat⟩ intra [] qs ↔
          Run.Meets (fun heap q => (heap.alloc q).map Prod.fst) IntraHeap.Fits intra qs) ∧
      ∀ (table : BufferTable) (name : List UInt8) (maxMessageSize maxNbMessage discipline : Int),
        (table.createBuffer name maxMessageSize maxNbMessage discipline).2.1 ≠ .noError →
          (table.createBuffer name maxMessageSize maxNbMessage discipline).1.heap = table.heap ∧
            (table.createBuffer name maxMessageSize maxNbMessage discipline).1.nbuffersUsed =
              table.nbuffersUsed :=
  ⟨fun calls => SmallHeap.heap_proper hheap calls,
    fun qs => IntraHeap.alloc_proper hcurrent hnull hlimit qs,
    fun _ => BufferTable.createBuffer_fails⟩

/-- A heap of a page, and 64 bytes for messages -/
def pageHeap (heapCurrent : BitVec 32) : SmallHeap := ⟨heapCurrent, 0x3000, false⟩

def messageHeap (sizeCurrent : BitVec 32) : IntraHeap := ⟨0x2000, 64, sizeCurrent⟩

def threeWords : { call : HeapCall // call.Ordinary } := ⟨.scalloc 3 5, by decide, by decide⟩

def greatBlock : { call : HeapCall // call.Ordinary } :=
  ⟨.smalloc 0xfffff000, show (0xfffff000 : BitVec 32) ≠ 0 by decide⟩

def manyBlocks : { call : HeapCall // call.Ordinary } :=
  ⟨.scalloc 0x1000001 0x100, by decide, by decide⟩

def word (size : BitVec 32) (h : size ≠ 0) : BlockRequest := ⟨size, 4, h, 2, by decide, by decide⟩

theorem heap_allocators_threeWords :
    Proper SmallHeap.alloc (fun call => (HeapCall.request call).Asked) ⟨0x2001, 0x3000⟩
        (pageHeap 0x2001) [] [threeWords] ∧
      Proper IntraHeap.alloc (fun q => q.request.Asked) ⟨0x2000, 0x2040⟩ (messageHeap 0) []
        [word 5 (by decide)] ∧
      ((⟨false, [⟨[], 0, 0, 0, 0, 0, 0, 0, 0⟩], 0, messageHeap 0⟩ : BufferTable).createBuffer
        [98] 60 2 0).1.heap = messageHeap 0 := by
  obtain ⟨hheap, hintra, hcreate⟩ := heap_allocators (pageHeap 0x2001) (by decide) (messageHeap 0)
    (by decide) (by decide) (by decide)
  refine ⟨(hheap _).mpr ⟨fun _ => .inr (by decide), fun _ _ => trivial⟩,
    (hintra _).mpr ⟨.inl (.inr (by decide)), fun _ _ => trivial⟩, ?_⟩
  exact (hcreate _ [98] 60 2 0 (by decide)).1

/-- Sizes whose ends come out before the limit, and a number of elements whose product is 0 -/
theorem heap_allocators_fail :
    ¬ Proper SmallHeap.alloc (fun call => (HeapCall.request call).Asked) ⟨0x2000, 0x3000⟩
        (pageHeap 0x2000) [] [greatBlock] ∧
      ¬ Proper SmallHeap.alloc (fun call => (HeapCall.request call).Asked) ⟨0x2000, 0x3000⟩
        (pageHeap 0x2000) [] [manyBlocks] ∧
      ¬ Proper IntraHeap.alloc (fun q => q.request.Asked) ⟨0x2004, 0x2040⟩ (messageHeap 4) []
        [word 0xfffffffc (by decide)] := by
  refine ⟨fun h => ?_, fun h => ?_, fun h => ?_⟩
  · have hanswer : (pageHeap 0x2000).alloc greatBlock =
        some (pageHeap 0x1000, some ⟨0x2000, 0x100001000⟩) := by decide
    obtain ⟨⟨-, ⟨-, htop⟩, -⟩, -⟩ := h _ _ hanswer
    revert htop
    decide
  · have hanswer : (pageHeap 0x2000).alloc manyBlocks =
        some (pageHeap 0x2100, some ⟨0x2000, 0x100002100⟩) := by decide
    obtain ⟨⟨-, ⟨-, htop⟩, -⟩, -⟩ := h _ _ hanswer
    revert htop
    decide
  · have hanswer : (messageHeap 4).alloc (word 0xfffffffc (by decide)) =
        some (messageHeap 0, some ⟨0x2004, 0x100002000⟩) := by decide
    obtain ⟨⟨-, ⟨-, htop⟩, -⟩, -⟩ := h _ _ hanswer
    revert htop
    decide

end Chpok
