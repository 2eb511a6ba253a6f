import Chpok.Kernel.X86Space

/-! Stacks of partitions on PowerPC (`kernel/arch/ppc/space.c`). The constants of
`deployment.h` have 64 bits. A failed assertion, or an access outside the array, has no
result. -/

namespace Chpok

/-- `struct ja_ppc_space`, without the addresses and the sum of the sizes -/
structure PpcSpace where
  sizeNormal : Word
  sizeHeap : Word
  ustackState : Word
  deriving DecidableEq, Repr

namespace PpcSpace

/-- `POK_PARTITION_MEMORY_BASE` -/
def partitionMemoryBase : BitVec 64 := 0x80000000

/-- `POK_PARTITION_MEMORY_SIZE` -/
def partitionMemorySize : BitVec 64 := 0x1000000

/-- `&ja_spaces[space_id - 1]` -/
def lookup (spaces : List PpcSpace) (spaceId : Nat) : Option PpcSpace :=
  if spaceId ≠ 0 then spaces[spaceId - 1]? else none

/-- `ja_ustack_init` -/
def jaUstackInit (spaces : List PpcSpace) (spaceId : Nat) : Option (List PpcSpace) :=
  (lookup spaces spaceId).map fun space =>
    spaces.set (spaceId - 1) { space with
      ustackState := (partitionMemoryBase + partitionMemorySize - 16).setWidth 32 }

/-- `ja_ustack_alloc`, and the address that it returns. There is no check of the boundaries. -/
def jaUstackAlloc (spaces : List PpcSpace) (spaceId : Nat) (stackSize : Word) :
    Option (List PpcSpace × Word) :=
  (lookup spaces spaceId).map fun space =>
    let sizeReal := alignVal stackSize 16
    let result := space.ustackState
    (spaces.set (spaceId - 1) { space with ustackState := space.ustackState - sizeReal }, result)

end PpcSpace

end Chpok
