import Chpok.Arinc.ProcessQueue
import Chpok.Kernel.ArincPartition
import Chpok.Libpok.Smalloc

/-! The memory of messages (`libpok/arinc653/arinc_alloc.c`) and the creation of buffers in it
(`libpok/arinc653/buffer.c`). -/

namespace Chpok

/-- `arinc_intra_heap`, `arinc_config_messages_memory_size` and
`arinc_intra_heap_size_current` -/
structure IntraHeap where
  intraHeap : BitVec 32
  memorySize : BitVec 32
  sizeCurrent : BitVec 32
  deriving DecidableEq, Repr

/-- `arinc_alloc`; `NULL` is 0. -/
def IntraHeap.arincAlloc (heap : IntraHeap) (size alignment : BitVec 32) : IntraHeap × BitVec 32 :=
  let sizeStart := align heap.sizeCurrent alignment
  let sizeEnd := sizeStart + size
  if sizeEnd > heap.memorySize then (heap, 0)
  else ({ heap with sizeCurrent := sizeEnd }, heap.intraHeap + sizeStart)

/-- `arinc_allocator_get_state` -/
def IntraHeap.getState (heap : IntraHeap) : BitVec 32 := heap.sizeCurrent

/-- `arinc_allocator_reset_state` -/
def IntraHeap.resetState (heap : IntraHeap) (state : BitVec 32) : IntraHeap :=
  { heap with sizeCurrent := state }

/-- `struct arinc_buffer`, without its section and its queue -/
structure ArincBuffer where
  bufferName : List UInt8
  maxMessageSize : Int
  maxNbMessage : Int
  nbMessage : Int
  messageStride : BitVec 32
  messages : BitVec 32
  messagesSize : BitVec 32
  baseOffset : Int
  discipline : Int
  deriving DecidableEq, Repr

/-- The buffers of a partition -/
structure BufferTable where
  normalMode : Bool
  buffers : List ArincBuffer
  nbuffersUsed : Nat
  heap : IntraHeap
  deriving DecidableEq, Repr

namespace BufferTable

/-- `SYSTEM_LIMIT_MESSAGE_SIZE` -/
def systemLimitMessageSize : Int := 8192

/-- `SYSTEM_LIMIT_NUMBER_OF_MESSAGES` -/
def systemLimitNumberOfMessages : Int := 512

/-- `find_buffer` -/
def findBuffer (table : BufferTable) (name : List UInt8) : Option ArincBuffer :=
  (table.buffers.take table.nbuffersUsed).find? fun buffer =>
    sameName maxNameLength buffer.bufferName name

/-- `CREATE_BUFFER`, and the identifier. The array has `arinc_config_nbuffers` elements. -/
def createBuffer (table : BufferTable) (name : List UInt8) (maxMessageSize maxNbMessage discipline : Int) :
    BufferTable × ReturnCode × Option Nat :=
  if table.normalMode then (table, .invalidMode, none)
  else if (table.findBuffer name).isSome then (table, .noAction, none)
  else
    match table.buffers[table.nbuffersUsed]? with
    | none => (table, .invalidConfig, none)
    | some buffer =>
      if maxMessageSize ≤ 0 ∨ maxMessageSize > systemLimitMessageSize then (table, .invalidParam, none)
      else if maxNbMessage ≤ 0 ∨ maxNbMessage > systemLimitNumberOfMessages then
        (table, .invalidParam, none)
      else if discipline ≠ 0 ∧ discipline ≠ 1 then (table, .invalidParam, none)
      else
        let messageStride := align (BitVec.ofInt 32 maxMessageSize) 4
        let astate := table.heap.getState
        let (heap, messages) :=
          table.heap.arincAlloc (messageStride * BitVec.ofInt 32 maxNbMessage) 4
        let (heap, messagesSize) := heap.arincAlloc (BitVec.ofInt 32 maxNbMessage * 4) 4
        let buffer := { buffer with
          maxMessageSize := maxMessageSize
          messageStride := messageStride
          maxNbMessage := maxNbMessage
          messages := messages
          messagesSize := messagesSize }
        if messages = 0 ∨ messagesSize = 0 then
          ({ table with
            buffers := table.buffers.set table.nbuffersUsed buffer
            heap := heap.resetState astate }, .invalidConfig, none)
        else
          ({ table with
            buffers := table.buffers.set table.nbuffersUsed { buffer with
              bufferName := name.take maxNameLength
              baseOffset := 0
              discipline := discipline }
            nbuffersUsed := table.nbuffersUsed + 1
            heap := heap }, .noError, some (table.nbuffersUsed + 1))

end BufferTable

end Chpok
