import Chpok.Library.ByteMemory
import Chpok.Library.Run
import Chpok.Libpok.Smalloc

/-! Pools of objects (`syspart/pool.c`). The elements lie in the memory, each with its index and
the index of the next free one in front of its data. Where the heap has no room there is no
pool. -/

namespace Chpok

open ByteMemory

abbrev Bytes := BitVec 32 → Byte

/-- `ALIGN_UP` -/
def alignUp (addr size : BitVec 32) : BitVec 32 := (addr + (size - 1)) &&& ~~~(size - 1)

/-- `struct pool` -/
structure JetPool where
  elemSize : BitVec 32
  num : BitVec 32
  stride : BitVec 32
  freeElemIdx : BitVec 32
  data : BitVec 32
  deriving DecidableEq, Repr

/-- The fields of `struct pool_elem`, at the address of the element -/
structure PoolElem where
  order : ByteOrder
  elem : BitVec 32

namespace PoolElem

def idx (e : PoolElem) (mem : Bytes) : BitVec 32 := load32 e.order mem e.elem

def nextFreeIdx (e : PoolElem) (mem : Bytes) : BitVec 32 := load32 e.order mem (e.elem + 8)

def setIdx (e : PoolElem) (mem : Bytes) (v : BitVec 32) : Bytes := store32 e.order mem e.elem v

def setIsFree (e : PoolElem) (mem : Bytes) (v : BitVec 32) : Bytes :=
  store32 e.order mem (e.elem + 4) v

def setNextFreeIdx (e : PoolElem) (mem : Bytes) (v : BitVec 32) : Bytes :=
  store32 e.order mem (e.elem + 8) v

end PoolElem

namespace JetPool

/-- `get_pool_elem` -/
def getPoolElem (pool : JetPool) (idx : BitVec 32) : BitVec 32 := pool.data + idx * pool.stride

/-- The loop of `jet_pool_create` over the first elements -/
def linkLoop (order : ByteOrder) (pool : JetPool) (mem : Bytes) (count : Nat) : Bytes :=
  (List.range count).foldl
    (fun mem i =>
      let elem : PoolElem := ⟨order, pool.getPoolElem (BitVec.ofNat 32 i)⟩
      elem.setIdx (elem.setNextFreeIdx mem (BitVec.ofNat 32 (i + 1))) (BitVec.ofNat 32 i)) mem

/-- The loop, and the last element after it -/
def link (order : ByteOrder) (pool : JetPool) (mem : Bytes) : Bytes :=
  let mem := pool.linkLoop order mem (pool.num - 1).toInt.toNat
  let elem : PoolElem := ⟨order, pool.getPoolElem (pool.num - 1)⟩
  elem.setNextFreeIdx mem (-1)

/-- `jet_pool_create` -/
def jetPoolCreate (order : ByteOrder) (heap : SmallHeap) (mem : Bytes) (elemSize num : BitVec 32) :
    Option (SmallHeap × JetPool × Bytes) :=
  (heap.smalloc 20).bind fun (heap, pool) =>
    pool.bind fun _ =>
      let stride := alignUp (elemSize + 16) 4
      (heap.smalloc (stride * num)).bind fun (heap, data) =>
        data.map fun data =>
          let pool : JetPool := { elemSize, num, stride, freeElemIdx := 0, data }
          (heap, pool, pool.link order mem)

/-- `jet_pool_get_free_elem`. The null pointer is no element. -/
def jetPoolGetFreeElem (order : ByteOrder) (pool : JetPool) (mem : Bytes) :
    Option (BitVec 32) × JetPool × Bytes :=
  if pool.freeElemIdx = -1 then (none, pool, mem)
  else
    let elem : PoolElem := ⟨order, pool.getPoolElem pool.freeElemIdx⟩
    let mem := elem.setIsFree mem 0
    (some elem.elem, { pool with freeElemIdx := elem.nextFreeIdx mem }, mem)

/-- `jet_pool_free_elem` -/
def jetPoolFreeElem (order : ByteOrder) (pool : JetPool) (mem : Bytes) (elem : BitVec 32) :
    JetPool × Bytes :=
  let e : PoolElem := ⟨order, elem⟩
  let mem := e.setIsFree mem 1
  let mem := e.setNextFreeIdx mem pool.freeElemIdx
  ({ pool with freeElemIdx := e.idx mem }, mem)

/-- The address of the `i`-th element -/
def slot (pool : JetPool) (i : Nat) : BitVec 32 := pool.getPoolElem (BitVec.ofNat 32 i)

end JetPool

inductive PoolCall where
  | getFreeElem
  | freeElem (elem : BitVec 32)
  | write (a : BitVec 32) (byte : Byte)
  deriving DecidableEq, Repr

/-- A pool, the memory, and the elements that have been handed out -/
structure PoolState where
  pool : JetPool
  mem : Bytes
  inUse : List (BitVec 32)

namespace PoolState

/-- Only elements in use are freed. The first three words of the elements are left alone by all
others. -/
def step (order : ByteOrder) (s : PoolState) : PoolCall → Option PoolState
  | .getFreeElem =>
    let (elem, pool, mem) := s.pool.jetPoolGetFreeElem order s.mem
    some ⟨pool, mem, elem.toList ++ s.inUse⟩
  | .freeElem elem =>
    if elem ∈ s.inUse then
      let (pool, mem) := s.pool.jetPoolFreeElem order s.mem elem
      some ⟨pool, mem, s.inUse.erase elem⟩
    else none
  | .write a byte =>
    if ∀ i < s.pool.num.toNat, ¬ Covers (s.pool.slot i) 12 a then
      some { s with mem := Function.update s.mem a byte }
    else none

end PoolState

end Chpok
