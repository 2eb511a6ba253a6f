import Chpok.Arinc.Messages
import Mathlib.Data.Finset.Erase

/-! The messages of a buffer (`libpok/arinc653/buffer.c`). A call that begins to wait has not
returned yet; an access outside the messages of the buffer has no result. -/

namespace Chpok

/-- `struct arinc_buffer`, without its name and its section. Messages are by their index; `wq` is
what the processes have in `jet_thread_shared_data`. -/
structure BufferQueue where
  maxMessageSize : Int
  maxNbMessage : Int
  nbMessage : Int
  baseOffset : Int
  discipline : QueuingDiscipline
  messages : Nat → Nat → UInt8
  messagesSize : Nat → Int
  processQueue : WaitQueue
  wq : Nat → WqMessage

/-- `BUFFER_STATUS_TYPE` -/
structure BufferStatus where
  nbMessage : Int
  maxNbMessage : Int
  maxMessageSize : Int
  waitingProcesses : Nat
  deriving DecidableEq, Repr

namespace BufferQueue

/-- `message_index`, computed in `size_t`. -/
def messageIndex (buffer : BufferQueue) (offset : Int) : Nat :=
  let res : Nat := ((buffer.baseOffset + offset) % 0x100000000).toNat
  if buffer.maxNbMessage.toNat ≤ res then res - buffer.maxNbMessage.toNat else res

/-- `message_at`, and the element of `messages_size` -/
def messageAt (buffer : BufferQueue) (index : Nat) : Option Nat :=
  if index < buffer.maxNbMessage then some index else none

/-- A message is copied to an index. -/
def storeMessage (buffer : BufferQueue) (src : Nat → UInt8) (length : Int) (index : Nat) :
    BufferQueue :=
  { buffer with
    messages := Function.update buffer.messages index (copyBytes (buffer.messages index) src length)
    messagesSize := Function.update buffer.messagesSize index length
    nbMessage := buffer.nbMessage + 1 }

/-- A message is copied behind those in the buffer. -/
def putMessage (buffer : BufferQueue) (src : Nat → UInt8) (length : Int) : Option BufferQueue :=
  (buffer.messageAt (buffer.messageIndex buffer.nbMessage)).map (buffer.storeMessage src length)

/-- A message is copied to a process that waits for it. -/
def handMessage (buffer : BufferQueue) (src : Nat → UInt8) (length : Int) (t : Nat) : BufferQueue :=
  { buffer with
    wq := Function.update buffer.wq t ⟨copyBytes (buffer.wq t).bytes src length, length⟩ }

/-- `SEND_BUFFER`, up to the wait, with the process that it has awoken. -/
def sendBuffer (buffer : BufferQueue) (t : Nat) (src : Nat → UInt8) (length timeOut : Int)
    (start : WaitStart) : Option (BufferQueue × Option ReturnCode × Option Nat) :=
  if length ≤ 0 ∨ length > buffer.maxMessageSize then some (buffer, some .invalidParam, none)
  else if buffer.nbMessage < buffer.maxNbMessage then
    (buffer.processQueue.jetMsectionWqNotify false).bind fun r =>
      if r.2 then
        r.1.first.map fun tAwoken =>
          ({ buffer.handMessage src length tAwoken with
            processQueue := r.1.msectionWqDel tAwoken }, some .noError, some tAwoken)
      else
        ({ buffer with processQueue := r.1 }.putMessage src length).map (·, some .noError, none)
  else if timeOut = 0 then some (buffer, some .notAvailable, none)
  else
    (buffer.processQueue.queueAndWait t buffer.discipline start).map fun r =>
      ({ buffer with
        processQueue := r.1
        wq := Function.update buffer.wq t ⟨src, length⟩ }, r.2, none)

/-- `SEND_BUFFER`, after the wait. -/
def sendBufferEnd (buffer : BufferQueue) (t : Nat) : BufferQueue × ReturnCode :=
  ({ buffer with processQueue := (buffer.processQueue.waitReturn t).1 },
    (buffer.processQueue.waitReturn t).2)

/-- `RECEIVE_BUFFER`, up to the wait, with the process that it has awoken; `dst` is the memory at
`MESSAGE_ADDR`. -/
def receiveBuffer (buffer : BufferQueue) (t : Nat) (timeOut : Int) (dst : Nat → UInt8)
    (start : WaitStart) : Option (BufferQueue × Option MessageReturn × Option Nat) :=
  if 0 < buffer.nbMessage then
    (buffer.messageAt (buffer.messageIndex 0)).bind fun index =>
      let len := buffer.messagesSize index
      let ret : MessageReturn := ⟨.noError, len, copyBytes dst (buffer.messages index) len⟩
      let taken : BufferQueue := { buffer with
        baseOffset := buffer.messageIndex 1
        nbMessage := buffer.nbMessage - 1 }
      (taken.processQueue.jetMsectionWqNotify false).bind fun r =>
        if r.2 then
          r.1.first.bind fun tAwoken =>
            (taken.putMessage (taken.wq tAwoken).bytes (taken.wq tAwoken).len).map fun put =>
              ({ put with processQueue := r.1.msectionWqDel tAwoken }, some ret, some tAwoken)
        else some ({ taken with processQueue := r.1 }, some ret, none)
  else if timeOut = 0 then some (buffer, some ⟨.notAvailable, 0, dst⟩, none)
  else
    (buffer.processQueue.queueAndWait t buffer.discipline start).map fun r =>
      ({ buffer with
        processQueue := r.1
        wq := Function.update buffer.wq t ⟨dst, (buffer.wq t).len⟩ }, r.2.map (⟨·, 0, dst⟩), none)

/-- `RECEIVE_BUFFER`, after the wait. -/
def receiveBufferEnd (buffer : BufferQueue) (t : Nat) : BufferQueue × MessageReturn :=
  let r := buffer.processQueue.waitReturn t
  ({ buffer with processQueue := r.1 },
    { returnCode := r.2
      length := if r.2 = .noError then (buffer.wq t).len else 0
      bytes := (buffer.wq t).bytes })

/-- `GET_BUFFER_STATUS` -/
def getBufferStatus (buffer : BufferQueue) : Option (BufferQueue × BufferStatus) :=
  buffer.processQueue.jetMsectionWqSize.map fun r =>
    ({ buffer with processQueue := r.1 },
      { nbMessage := buffer.nbMessage
        maxNbMessage := buffer.maxNbMessage
        maxMessageSize := buffer.maxMessageSize
        waitingProcesses := r.2 })

/-- The message that a process sends, or has got, while it waits -/
def wqMessage (buffer : BufferQueue) (t : Nat) : List UInt8 :=
  messageOf (buffer.wq t).bytes (buffer.wq t).len

end BufferQueue

/-- A buffer with the processes that are blocked on it; `receives` says in which service. The other
fields are a record only: sends and receives in the order in which they took effect, and those that
have returned `NO_ERROR`, each with its process and its message. -/
structure BufferSystem where
  buffer : BufferQueue
  blocked : Finset Nat
  receives : Nat → Bool
  sent : List (Nat × List UInt8)
  received : List (Nat × List UInt8)
  sendsReturned : List (Nat × List UInt8)
  receivesReturned : List (Nat × List UInt8)

inductive BufferInput where
  | sendBuffer (process : Nat) (src : Nat → UInt8) (length timeOut : Int) (start : WaitStart)
  | receiveBuffer (process : Nat) (timeOut : Int) (dst : Nat → UInt8) (start : WaitStart)
  | getBufferStatus (process : Nat)
  | resume (process : Nat)
  | process (input : ProcessInput)
  | wqElsewhere (process : Nat) (message : WqMessage)

namespace BufferSystem

def queue (s : BufferSystem) : WaitQueue := s.buffer.processQueue

/-- The process exists and is not blocked on the buffer. -/
def Calls (s : BufferSystem) (t : Nat) : Prop := t ∉ s.blocked ∧ t < s.queue.nthreadsUsed

instance (s : BufferSystem) (t : Nat) : Decidable (s.Calls t) :=
  inferInstanceAs (Decidable (_ ∧ _))

/-- The record of a message, if there is one. -/
def entry (process : Option Nat) (message : Nat → List UInt8) : List (Nat × List UInt8) :=
  process.toList.map fun t => (t, message t)

/-- What `SEND_BUFFER` of process `t` adds to the record. -/
def afterSend (s : BufferSystem) (t : Nat) (message : List UInt8)
    (r : BufferQueue × Option ReturnCode × Option Nat) : BufferSystem :=
  { s with
    buffer := r.1
    blocked := if r.2.1 = none then insert t s.blocked else s.blocked
    receives := Function.update s.receives t false
    sent := s.sent ++ if r.2.1 = some .noError then [(t, message)] else []
    sendsReturned := s.sendsReturned ++ if r.2.1 = some .noError then [(t, message)] else []
    received := s.received ++ entry r.2.2 fun _ => message }

/-- What `RECEIVE_BUFFER` of process `t` adds to the record. -/
def afterReceive (s : BufferSystem) (t : Nat)
    (r : BufferQueue × Option MessageReturn × Option Nat) : BufferSystem :=
  { s with
    buffer := r.1
    blocked := if r.2.1.isNone then insert t s.blocked else s.blocked
    receives := Function.update s.receives t true
    sent := s.sent ++ entry r.2.2 s.buffer.wqMessage
    received := s.received ++ (r.2.1.toList.filter (·.returnCode = .noError)).map fun ret =>
      (t, messageOf ret.bytes ret.length)
    receivesReturned := s.receivesReturned ++
      (r.2.1.toList.filter (·.returnCode = .noError)).map fun ret =>
        (t, messageOf ret.bytes ret.length) }

def step (s : BufferSystem) : BufferInput → Option BufferSystem
  | .sendBuffer t src length timeOut start =>
    if s.Calls t then
      (s.buffer.sendBuffer t src length timeOut start).map (s.afterSend t (messageOf src length))
    else none
  | .receiveBuffer t timeOut dst start =>
    if s.Calls t then (s.buffer.receiveBuffer t timeOut dst start).map (s.afterReceive t) else none
  | .getBufferStatus t =>
    if s.Calls t then s.buffer.getBufferStatus.map fun r => { s with buffer := r.1 } else none
  | .resume t =>
    if t ∈ s.blocked ∧ (s.queue.threads t).state ≠ .waiting then
      if s.receives t then
        let r := s.buffer.receiveBufferEnd t
        some { s with
          buffer := r.1
          blocked := s.blocked.erase t
          receivesReturned := s.receivesReturned ++ if r.2.returnCode = .noError then
            [(t, messageOf r.2.bytes r.2.length)] else [] }
      else
        let r := s.buffer.sendBufferEnd t
        some { s with
          buffer := r.1
          blocked := s.blocked.erase t
          sendsReturned := s.sendsReturned ++ if r.2 = .noError then
            [(t, s.buffer.wqMessage t)] else [] }
    else none
  | .process e =>
    (s.queue.processStep s.blocked e).map fun q =>
      { s with buffer := { s.buffer with processQueue := q } }
  | .wqElsewhere t message =>
    if t ∈ s.blocked then none
    else
      some { s with buffer := { s.buffer with wq := Function.update s.buffer.wq t message } }

end BufferSystem

end Chpok
