import Mathlib.Data.Option.Basic

/-! The heap of a partition (`libpok/core/smalloc.c`). A failed assertion has no result;
`abort` has no pointer. -/

namespace Chpok

/-- `ALIGN` and `ALIGN_PTR` -/
def align (val alignment : BitVec 32) : BitVec 32 :=
  let mask := alignment - 1
  (val + mask) &&& ~~~mask

/-- `libja_mem_get_alignment` -/
def memGetAlignment (objSize : BitVec 32) : BitVec 32 :=
  if objSize ≤ 1 then 1
  else if objSize < 4 then 2
  else if objSize < 8 then 4
  else if objSize < 16 then 8
  else 16

/-- `heap_current`, and what `kshd` has of the heap and of the partition's mode -/
structure SmallHeap where
  heapCurrent : BitVec 32
  heapEnd : BitVec 32
  normalMode : Bool
  deriving DecidableEq, Repr

namespace SmallHeap

/-- `smalloc_aligned` -/
def smallocAligned (heap : SmallHeap) (size alignment : BitVec 32) :
    Option (SmallHeap × Option (BitVec 32)) :=
  if heap.normalMode then none
  else if size = 0 then some (heap, some 0)
  else
    let objStart := align heap.heapCurrent alignment
    let objEnd := objStart + size
    if objEnd > heap.heapEnd then some (heap, none)
    else some ({ heap with heapCurrent := objEnd }, some objStart)

/-- `smalloc` -/
def smalloc (heap : SmallHeap) (size : BitVec 32) : Option (SmallHeap × Option (BitVec 32)) :=
  heap.smallocAligned size (memGetAlignment size)

/-- `scalloc` -/
def scalloc (heap : SmallHeap) (nmemb size : BitVec 32) :
    Option (SmallHeap × Option (BitVec 32)) :=
  if size = 0 ∨ nmemb = 0 then some (heap, some 0)
  else if nmemb = 1 then heap.smalloc size
  else
    let alignment := memGetAlignment size
    let stride := align size alignment
    let memStart := align heap.heapCurrent alignment
    let memEnd := memStart + stride * (nmemb - 1) + size
    if memEnd > heap.heapEnd then some (heap, none)
    else some ({ heap with heapCurrent := memEnd }, some memStart)

end SmallHeap

/-- The calls of the heap -/
inductive HeapCall where
  | smallocAligned (size alignment : BitVec 32)
  | smalloc (size : BitVec 32)
  | scalloc (nmemb size : BitVec 32)
  deriving DecidableEq, Repr

def SmallHeap.call (heap : SmallHeap) : HeapCall → Option (SmallHeap × Option (BitVec 32))
  | .smallocAligned size alignment => heap.smallocAligned size alignment
  | .smalloc size => heap.smalloc size
  | .scalloc nmemb size => heap.scalloc nmemb size

end Chpok
