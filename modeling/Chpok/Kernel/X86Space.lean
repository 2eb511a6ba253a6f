import Chpok.Library.Run
import Mathlib.Data.List.Basic
import Mathlib.Algebra.Order.Ring.Nat

/-! Memory of partitions on x86 (`kernel/arch/x86/space.c`, `kernel/arch/x86/uaccess.c`). A
word has 32 bits; the constants of `space.h` have 64, and so have the comparisons with them.
A failed assertion, or an access outside the array, has no result. -/

namespace Chpok

abbrev Word := BitVec 32

/-- `ALIGN_VAL` -/
def alignVal (val align : Word) : Word := (val + align - 1) &&& ~~~(align - 1)

/-- `POK_PARTITION_MEMORY_BASE` -/
def partitionMemoryBase : BitVec 64 := 0x0

/-- `POK_PARTITION_MEMORY_PHYS_START` -/
def partitionMemoryPhysStart : BitVec 64 := 0x1000000

/-- `struct ja_x86_space` -/
structure X86Space where
  physBase : Word
  sizeNormal : Word
  sizeHeap : Word
  sizeStack : Word
  sizeTotal : Word
  heapEnd : Word
  sizeStackUsed : Word
  deriving DecidableEq, Repr

namespace X86Space

/-- What `ja_space_init` stores in `heap_end` -/
def initHeapEnd (space : X86Space) : Word :=
  if space.sizeHeap > 0 then alignVal space.sizeNormal 16 + space.sizeHeap else space.sizeNormal

/-- What `ja_space_init` stores in `size_total` -/
def initSizeTotal (space : X86Space) : Word :=
  alignVal (alignVal space.initHeapEnd 16 + space.sizeStack) 0x1000

/-- The loop of `ja_space_init` -/
def spaceInit : Word → List X86Space → Option (List X86Space)
  | _, [] => some []
  | physStart, space :: spaces =>
    let space := { space with heapEnd := space.initHeapEnd, sizeTotal := space.initSizeTotal }
    if space.physBase = 0 then
      let space := { space with physBase := alignVal physStart 0x1000 }
      (spaceInit (space.physBase + space.sizeTotal) spaces).map (space :: ·)
    else if partitionMemoryPhysStart ≤ space.physBase.setWidth 64 ∧ space.physBase &&& 0xfff = 0 then
      let physBaseEnd := space.physBase + space.sizeTotal
      (spaceInit (if physStart < physBaseEnd then physBaseEnd else physStart) spaces).map (space :: ·)
    else none

/-- `ja_space_init` -/
def jaSpaceInit (spaces : List X86Space) : Option (List X86Space) :=
  spaceInit (partitionMemoryPhysStart.setWidth 32) spaces

/-- `&ja_spaces[space_id - 1]` -/
def lookup (spaces : List X86Space) (spaceId : Nat) : Option X86Space :=
  if spaceId ≠ 0 then spaces[spaceId - 1]? else none

/-- `ja_ustack_init` -/
def jaUstackInit (spaces : List X86Space) (spaceId : Nat) : Option (List X86Space) :=
  (lookup spaces spaceId).map fun space =>
    spaces.set (spaceId - 1) { space with sizeStackUsed := 0 }

/-- `ja_ustack_alloc`, and the address that it returns -/
def jaUstackAlloc (spaces : List X86Space) (spaceId : Nat) (stackSize : Word) :
    Option (List X86Space × Word) :=
  (lookup spaces spaceId).map fun space =>
    let sizeStackNew := space.sizeStackUsed + alignVal stackSize 16
    if sizeStackNew > space.sizeStack then (spaces, 0)
    else
      let result := partitionMemoryBase + space.sizeTotal.setWidth 64 - space.sizeStackUsed.setWidth 64
      (spaces.set (spaceId - 1) { space with sizeStackUsed := sizeStackNew }, result.setWidth 32)

/-- The checks of `x86_check_access` -/
def checkAccess (space : X86Space) (start size : Word) : Bool :=
  let stop := start + size
  if stop < start then false
  else if stop.setWidth 64 ≤ space.heapEnd.setWidth 64 + partitionMemoryBase then
    start.setWidth 64 ≥ partitionMemoryBase
  else if stop.setWidth 64 ≤ partitionMemoryBase + space.sizeTotal.setWidth 64 then
    start.setWidth 64 ≥
      partitionMemoryBase + space.sizeTotal.setWidth 64 - space.sizeStackUsed.setWidth 64
  else false

/-- `x86_check_access` -/
def x86CheckAccess (spaces : List X86Space) (addr size : Word) (spaceId : Nat) : Option Bool :=
  if size ≠ 0 then (lookup spaces spaceId).map fun space => space.checkAccess addr size else none

/-- `user_space_shift` -/
def userSpaceShift (spaces : List X86Space) (spaceId : Nat) : Option Word :=
  (lookup spaces spaceId).map fun space =>
    (partitionMemoryBase - space.physBase.setWidth 64).setWidth 32

/-- `ja_user_to_kernel_space`; the null pointer is 0. -/
def jaUserToKernelSpace (spaces : List X86Space) (addr size : Word) (spaceId : Nat) : Option Word :=
  (x86CheckAccess spaces addr size spaceId).bind fun accepted =>
    if accepted then (userSpaceShift spaces spaceId).map fun shift => addr - shift else some 0

end X86Space

inductive UstackCall where
  | init (spaceId : Nat)
  | alloc (spaceId : Nat) (stackSize : Word)
  deriving DecidableEq, Repr

namespace X86Space

def step (spaces : List X86Space) : UstackCall → Option (List X86Space)
  | .init spaceId => jaUstackInit spaces spaceId
  | .alloc spaceId stackSize => (jaUstackAlloc spaces spaceId stackSize).map Prod.fst

end X86Space

end Chpok
