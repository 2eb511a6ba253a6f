import Chpok.Arinc.ProcessQueue
import Mathlib.Data.List.Range

/-! Messages that processes hand to each other while one of them waits. -/

namespace Chpok

/-- `memcpy`, for the memory from two addresses on. -/
def copyBytes (dst src : Nat → UInt8) (len : Int) : Nat → UInt8 :=
  fun i => if i < len.toNat then src i else dst i

/-- The message of `len` bytes at an address -/
def messageOf (src : Nat → UInt8) (len : Int) : List UInt8 := (List.range len.toNat).map src

@[simp]
theorem messageOf_copyBytes (dst src : Nat → UInt8) (len : Int) :
    messageOf (copyBytes dst src len) len = messageOf src len := by
  refine List.map_congr_left fun i hi => ?_
  exact if_pos (List.mem_range.mp hi)

/-- The memory at `wq_buffer`, and `wq_len`. Processes that wait have memory of their own there. -/
structure WqMessage where
  bytes : Nat → UInt8
  len : Int

/-- What a call has put behind `RETURN_CODE`, `LENGTH` and `MESSAGE_ADDR`. -/
structure MessageReturn where
  returnCode : ReturnCode
  length : Int
  bytes : Nat → UInt8

end Chpok
