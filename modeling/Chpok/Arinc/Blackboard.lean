import Chpok.Arinc.Messages
import Mathlib.Data.Finset.Erase

/-! Blackboards (`libpok/arinc653/blackboard.c`). A call that begins to wait has not returned
yet. -/

namespace Chpok

/-- `struct arinc_blackboard`, without its name and its section; `wq` is what the processes have
in `jet_thread_shared_data`. -/
structure Blackboard where
  maxMessageSize : Int
  message : Nat → UInt8
  messageSize : Int
  processQueue : WaitQueue
  wq : Nat → WqMessage

/-- `BLACKBOARD_STATUS_TYPE` -/
structure BlackboardStatus where
  emptyIndicator : Bool
  maxMessageSize : Int
  waitingProcesses : Nat
  deriving DecidableEq, Repr

namespace Blackboard

/-- What `DISPLAY_BLACKBOARD` does for a process that it has woken up. -/
def deliver (message : Nat → UInt8) (messageSize : Int) (wq : Nat → WqMessage) (t : Nat) :
    Nat → WqMessage :=
  Function.update wq t ⟨copyBytes (wq t).bytes message messageSize, messageSize⟩

/-- `DISPLAY_BLACKBOARD` -/
def displayBlackboard (blackboard : Blackboard) (src : Nat → UInt8) (length : Int) :
    Option (Blackboard × ReturnCode) :=
  if length ≤ 0 ∨ length > blackboard.maxMessageSize then some (blackboard, .invalidParam)
  else
    let message := copyBytes blackboard.message src length
    (blackboard.processQueue.broadcast (deliver message length) blackboard.wq).map fun r =>
      ({ blackboard with
        message := message
        messageSize := length
        processQueue := r.2
        wq := r.1 }, .noError)

/-- `READ_BLACKBOARD`, up to the wait; `dst` is the memory at `MESSAGE_ADDR`. -/
def readBlackboard (blackboard : Blackboard) (t : Nat) (timeOut : Int) (dst : Nat → UInt8)
    (start : WaitStart) : Option (Blackboard × Option MessageReturn) :=
  if 0 < blackboard.messageSize then
    some (blackboard, some ⟨.noError, blackboard.messageSize,
      copyBytes dst blackboard.message blackboard.messageSize⟩)
  else if timeOut = 0 then some (blackboard, some ⟨.notAvailable, 0, dst⟩)
  else
    (blackboard.processQueue.queueAndWait t .priority start).map fun r =>
      ({ blackboard with
        processQueue := r.1
        wq := Function.update blackboard.wq t ⟨dst, (blackboard.wq t).len⟩ },
        r.2.map (⟨·, 0, dst⟩))

/-- `READ_BLACKBOARD`, after the wait. -/
def readBlackboardEnd (blackboard : Blackboard) (t : Nat) : Blackboard × MessageReturn :=
  let r := blackboard.processQueue.waitReturn t
  ({ blackboard with processQueue := r.1 },
    { returnCode := r.2
      length := if r.2 = .noError then (blackboard.wq t).len else 0
      bytes := (blackboard.wq t).bytes })

/-- `CLEAR_BLACKBOARD` -/
def clearBlackboard (blackboard : Blackboard) : Blackboard := { blackboard with messageSize := 0 }

/-- `GET_BLACKBOARD_STATUS` -/
def getBlackboardStatus (blackboard : Blackboard) : Option (Blackboard × BlackboardStatus) :=
  blackboard.processQueue.jetMsectionWqSize.map fun r =>
    ({ blackboard with processQueue := r.1 },
      { emptyIndicator := blackboard.messageSize = 0
        maxMessageSize := blackboard.maxMessageSize
        waitingProcesses := r.2 })

end Blackboard

/-- A blackboard with the processes that are blocked in `READ_BLACKBOARD`. Two fields are a record
only: the message of the last display that has not been cleared, and for each process the message
of the display that ended its wait. -/
structure BlackboardSystem where
  blackboard : Blackboard
  blocked : Finset Nat
  displayed : Option (List UInt8)
  wokenBy : Nat → Option (List UInt8)

inductive BlackboardInput where
  | displayBlackboard (process : Nat) (src : Nat → UInt8) (length : Int)
  | readBlackboard (process : Nat) (timeOut : Int) (dst : Nat → UInt8) (start : WaitStart)
  | clearBlackboard (process : Nat)
  | getBlackboardStatus (process : Nat)
  | resume (process : Nat)
  | process (input : ProcessInput)
  | wqElsewhere (process : Nat) (message : WqMessage)

namespace BlackboardSystem

def queue (s : BlackboardSystem) : WaitQueue := s.blackboard.processQueue

/-- The process exists and is not blocked on the blackboard. -/
def Calls (s : BlackboardSystem) (t : Nat) : Prop := t ∉ s.blocked ∧ t < s.queue.nthreadsUsed

instance (s : BlackboardSystem) (t : Nat) : Decidable (s.Calls t) :=
  inferInstanceAs (Decidable (_ ∧ _))

/-- A display that has not been refused -/
def shown (s : BlackboardSystem) (blackboard : Blackboard) (message : List UInt8) :
    BlackboardSystem :=
  { s with
    blackboard := blackboard
    displayed := some message
    wokenBy := fun u =>
      if (s.queue.threads u).state = .waiting ∧ (blackboard.processQueue.threads u).state ≠ .waiting
      then some message else s.wokenBy u }

def step (s : BlackboardSystem) : BlackboardInput → Option BlackboardSystem
  | .displayBlackboard t src length =>
    if s.Calls t then
      (s.blackboard.displayBlackboard src length).map fun r =>
        if r.2 = .noError then s.shown r.1 (messageOf src length)
        else { s with blackboard := r.1 }
    else none
  | .readBlackboard t timeOut dst start =>
    if s.Calls t then
      (s.blackboard.readBlackboard t timeOut dst start).map fun r =>
        { s with
          blackboard := r.1
          blocked := if r.2.isNone then insert t s.blocked else s.blocked }
    else none
  | .clearBlackboard t =>
    if s.Calls t then some { s with blackboard := s.blackboard.clearBlackboard, displayed := none }
    else none
  | .getBlackboardStatus t =>
    if s.Calls t then s.blackboard.getBlackboardStatus.map fun r => { s with blackboard := r.1 }
    else none
  | .resume t =>
    if t ∈ s.blocked ∧ (s.queue.threads t).state ≠ .waiting then
      some { s with
        blackboard := (s.blackboard.readBlackboardEnd t).1
        blocked := s.blocked.erase t }
    else none
  | .process e =>
    (s.queue.processStep s.blocked e).map fun q =>
      { s with blackboard := { s.blackboard with processQueue := q } }
  | .wqElsewhere t message =>
    if t ∈ s.blocked then none
    else
      some { s with blackboard := { s.blackboard with
        wq := Function.update s.blackboard.wq t message } }

end BlackboardSystem

end Chpok
