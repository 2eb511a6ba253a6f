import Chpok.Arinc.Buffer
import Chpok.Arinc.BufferQueue
import Chpok.Arinc.Blackboard
import Chpok.Arinc.Event
import Chpok.Arinc.Semaphore
import Chpok.Library.Lockstep

/-! All buffers, blackboards, semaphores and events of a partition, from `libjet_arinc_init` on
(`libpok/arinc653/init.c`). Their arrays and messages lie in memory that nobody has cleared. -/

namespace Chpok

inductive ObjectId where
  | buffer (index : Nat)
  | blackboard (index : Nat)
  | semaphore (index : Nat)
  | event (index : Nat)
  deriving DecidableEq, Repr

/-- The services that wait -/
inductive WaitingService where
  | sendBuffer (index : Nat)
  | receiveBuffer (index : Nat)
  | readBlackboard (index : Nat)
  | waitSemaphore (index : Nat)
  | waitEvent (index : Nat)
  deriving DecidableEq, Repr

def WaitingService.object : WaitingService → ObjectId
  | .sendBuffer i => .buffer i
  | .receiveBuffer i => .buffer i
  | .readBlackboard i => .blackboard i
  | .waitSemaphore i => .semaphore i
  | .waitEvent i => .event i

/-- The owner of the section of an object, and the ends of its process queue -/
structure ObjectQueue where
  owner : Option Nat
  first : Option Nat
  last : Option Nat
  deriving DecidableEq, Repr

/-- `msection_init` and `msection_wq_init` -/
def ObjectQueue.init : ObjectQueue := ⟨none, none, none⟩

def ObjectQueue.setEnds (queue : ObjectQueue) (w : WaitQueue) : ObjectQueue :=
  { queue with first := w.first, last := w.last }

/-- `struct arinc_blackboard` -/
structure BlackboardEntry where
  blackboardName : List UInt8
  maxMessageSize : Int
  message : BitVec 32
  messageSize : Int
  queue : ObjectQueue
  deriving DecidableEq, Repr

/-- `struct arinc_semaphore` -/
structure SemaphoreEntry where
  semaphoreName : List UInt8
  currentValue : Int
  maximumValue : Int
  discipline : Int
  queue : ObjectQueue
  deriving DecidableEq, Repr

/-- `struct arinc_event`; `UP` is 0 and `DOWN` is 1. -/
structure EventEntry where
  eventName : List UInt8
  eventState : Int
  queue : ObjectQueue
  deriving DecidableEq, Repr

def QueuingDiscipline.ofInt (discipline : Int) : QueuingDiscipline :=
  if discipline = 1 then .priority else .fifo

/-- An array of `libjet_arinc_init`, and how many of its elements have been created. -/
structure ObjectTable (α : Type) where
  entries : List α
  used : Nat

namespace ObjectTable

variable {α : Type}

/-- `find_blackboard`, `find_semaphore` or `find_event` -/
def find (table : ObjectTable α) (nameOf : α → List UInt8) (name : List UInt8) : Option Nat :=
  (table.entries.take table.used).findIdx? fun entry =>
    sameName maxNameLength (nameOf entry) name

/-- What all creations check first, and the element that is next. -/
def vacant (table : ObjectTable α) (nameOf : α → List UInt8) (normalMode : Bool)
    (name : List UInt8) : Except ReturnCode α :=
  if normalMode then .error .invalidMode
  else if (table.find nameOf name).isSome then .error .noAction
  else
    match table.entries[table.used]? with
    | none => .error .invalidConfig
    | some entry => .ok entry

def setEntry (table : ObjectTable α) (i : Nat) (entry : α) : ObjectTable α :=
  { table with entries := table.entries.set i entry }

def add (table : ObjectTable α) (entry : α) : ObjectTable α :=
  { entries := table.entries.set table.used entry, used := table.used + 1 }

end ObjectTable

/-- The processes of the partition: what they have in `jet_thread_shared_data`, and which of them
are blocked in which service. `entering` of a thread is about one object, so that it is found
from the service. -/
structure SharedData where
  threads : Nat → WqThread
  nthreadsUsed : Nat
  wq : Nat → WqMessage
  blocked : Finset Nat
  service : Nat → WaitingService

namespace SharedData

/-- The threads as the process queue of an object sees them. -/
def waitQueue (kshd : SharedData) (object : ObjectId) (queue : ObjectQueue) : WaitQueue where
  threads t := { kshd.threads t with
    entering := t ∈ kshd.blocked ∧ (kshd.service t).object = object }
  nthreadsUsed := kshd.nthreadsUsed
  first := queue.first
  last := queue.last

/-- The threads as the kernel sees them outside of any queue. -/
def processes (kshd : SharedData) : WaitQueue where
  threads t := { kshd.threads t with entering := t ∈ kshd.blocked }
  nthreadsUsed := kshd.nthreadsUsed
  first := none
  last := none

def setThreads (kshd : SharedData) (w : WaitQueue) : SharedData := { kshd with threads := w.threads }

def block (kshd : SharedData) (t : Nat) (service : WaitingService) : SharedData :=
  { kshd with
    blocked := insert t kshd.blocked
    service := Function.update kshd.service t service }

def unblock (kshd : SharedData) (t : Nat) : SharedData :=
  { kshd with blocked := kshd.blocked.erase t }

/-- The process exists and is in no service that waits. -/
def Calls (kshd : SharedData) (t : Nat) : Prop := t ∉ kshd.blocked ∧ t < kshd.nthreadsUsed

instance (kshd : SharedData) (t : Nat) : Decidable (kshd.Calls t) :=
  inferInstanceAs (Decidable (_ ∧ _))

end SharedData

def BufferQueue.ofArinc (buffer : ArincBuffer) (messages : Nat → Nat → UInt8)
    (messagesSize : Nat → Int) (processQueue : WaitQueue) (wq : Nat → WqMessage) : BufferQueue where
  maxMessageSize := buffer.maxMessageSize
  maxNbMessage := buffer.maxNbMessage
  nbMessage := buffer.nbMessage
  baseOffset := buffer.baseOffset
  discipline := .ofInt buffer.discipline
  messages := messages
  messagesSize := messagesSize
  processQueue := processQueue
  wq := wq

/-- What a call has returned; `silent` is for steps that are not the return of a call. -/
inductive ObjectOutput where
  | waits
  | code (returnCode : ReturnCode)
  | identifier (returnCode : ReturnCode) (id : Option Nat)
  | message (ret : MessageReturn)
  | bufferStatus (status : BufferStatus)
  | blackboardStatus (status : BlackboardStatus)
  | semaphoreStatus (status : SemaphoreStatus)
  | eventStatus (status : EventStatus)
  | silent

namespace ObjectOutput

def ofCode : Option ReturnCode → ObjectOutput
  | none => .waits
  | some returnCode => .code returnCode

def ofMessage : Option MessageReturn → ObjectOutput
  | none => .waits
  | some ret => .message ret

/-- The end of `GET_BUFFER_ID` and its like -/
def ofIndex : Option Nat → ObjectOutput
  | none => .identifier .invalidConfig none
  | some i => .identifier .noError (some (i + 1))

def IsWaits (out : ObjectOutput) : Prop := out = .waits

instance : DecidablePred IsWaits
  | .waits => .isTrue rfl
  | .code _ => .isFalse nofun
  | .identifier _ _ => .isFalse nofun
  | .message _ => .isFalse nofun
  | .bufferStatus _ => .isFalse nofun
  | .blackboardStatus _ => .isFalse nofun
  | .semaphoreStatus _ => .isFalse nofun
  | .eventStatus _ => .isFalse nofun
  | .silent => .isFalse nofun

end ObjectOutput

inductive BufferCall where
  | send (src : Nat → UInt8) (length timeOut : Int) (start : WaitStart)
  | receive (timeOut : Int) (dst : Nat → UInt8) (start : WaitStart)
  | getStatus

def BufferCall.sends : BufferCall → Bool
  | .send _ _ _ _ => true
  | .receive _ _ _ => false
  | .getStatus => false

inductive BlackboardCall where
  | display (src : Nat → UInt8) (length : Int)
  | read (timeOut : Int) (dst : Nat → UInt8) (start : WaitStart)
  | clear
  | getStatus

inductive SemaphoreCall where
  | wait (timeOut : Int) (start : WaitStart)
  | signal
  | getStatus

inductive EventCall where
  | set
  | reset
  | wait (timeOut : Int) (start : WaitStart)
  | getStatus

def BufferQueue.call (buffer : BufferQueue) (t : Nat) :
    BufferCall → Option (BufferQueue × ObjectOutput)
  | .send src length timeOut start =>
    (buffer.sendBuffer t src length timeOut start).map fun r => (r.1, .ofCode r.2.1)
  | .receive timeOut dst start =>
    (buffer.receiveBuffer t timeOut dst start).map fun r => (r.1, .ofMessage r.2.1)
  | .getStatus => buffer.getBufferStatus.map fun r => (r.1, .bufferStatus r.2)

def Blackboard.call (blackboard : Blackboard) (t : Nat) :
    BlackboardCall → Option (Blackboard × ObjectOutput)
  | .display src length => (blackboard.displayBlackboard src length).map fun r => (r.1, .code r.2)
  | .read timeOut dst start =>
    (blackboard.readBlackboard t timeOut dst start).map fun r => (r.1, .ofMessage r.2)
  | .clear => some (blackboard.clearBlackboard, .code .noError)
  | .getStatus => blackboard.getBlackboardStatus.map fun r => (r.1, .blackboardStatus r.2)

def Semaphore.call (semaphore : Semaphore) (t : Nat) :
    SemaphoreCall → Option (Semaphore × ObjectOutput)
  | .wait timeOut start =>
    (semaphore.waitSemaphore t timeOut start).map fun r => (r.1, .ofCode r.2)
  | .signal => semaphore.signalSemaphore.map fun r => (r.1, .code r.2)
  | .getStatus => semaphore.getSemaphoreStatus.map fun r => (r.1, .semaphoreStatus r.2)

def ArincEvent.call (event : ArincEvent) (t : Nat) : EventCall → Option (ArincEvent × ObjectOutput)
  | .set => event.setEvent.map fun r => (r.1, .code r.2)
  | .reset => some (event.resetEvent, .code .noError)
  | .wait timeOut start => (event.waitEvent t timeOut start).map fun r => (r.1, .ofCode r.2)
  | .getStatus => event.getEventStatus.map fun r => (r.1, .eventStatus r.2)

/-- The memory of a partition when `libjet_arinc_init` has allocated the arrays in it: their
elements, and what is read at an address as a character or as a size. -/
structure HeapContents where
  buffers : Nat → ArincBuffer
  bufferQueues : Nat → ObjectQueue
  blackboards : Nat → BlackboardEntry
  semaphores : Nat → SemaphoreEntry
  events : Nat → EventEntry
  bytes : BitVec 32 → UInt8
  sizes : BitVec 32 → Int

/-- `arinc_config.h`, the address of the message memory and the processes of the partition. One
of them creates the objects. -/
structure IntraConfig where
  nbuffers : Nat
  nblackboards : Nat
  nsemaphores : Nat
  nevents : Nat
  messagesMemorySize : BitVec 32
  intraHeap : BitVec 32
  threads : Nat → WqThread
  nthreadsUsed : Nat
  wq : Nat → WqMessage
  main : 0 < nthreadsUsed

/-- Messages are by the object that they belong to and by their index. -/
structure IntraObjects extends BufferTable where
  bufferQueues : Nat → ObjectQueue
  bufferMessages : Nat → Nat → Nat → UInt8
  bufferSizes : Nat → Nat → Int
  blackboards : ObjectTable BlackboardEntry
  blackboardMessages : Nat → Nat → UInt8
  semaphores : ObjectTable SemaphoreEntry
  events : ObjectTable EventEntry
  bytes : BitVec 32 → UInt8
  sizes : BitVec 32 → Int
  kshd : SharedData

inductive ObjectCreate where
  | buffer (name : List UInt8) (maxMessageSize maxNbMessage discipline : Int)
  | blackboard (name : List UInt8) (maxMessageSize : Int)
  | semaphore (name : List UInt8) (currentValue maximumValue discipline : Int)
  | event (name : List UInt8)
  deriving DecidableEq, Repr

inductive ObjectCall where
  | buffer (process : Nat) (id : Int) (call : BufferCall)
  | blackboard (process : Nat) (id : Int) (call : BlackboardCall)
  | semaphore (process : Nat) (id : Int) (call : SemaphoreCall)
  | event (process : Nat) (id : Int) (call : EventCall)
  | getBufferId (name : List UInt8)
  | getBlackboardId (name : List UInt8)
  | getSemaphoreId (name : List UInt8)
  | getEventId (name : List UInt8)
  | setNormalMode
  | resume (process : Nat)
  | process (input : ProcessInput)
  | wqElsewhere (process : Nat) (message : WqMessage)

namespace IntraObjects

/-- `message_at` -/
def messagesIn (bytes : BitVec 32 → UInt8) (buffer : ArincBuffer) (index i : Nat) : UInt8 :=
  bytes (buffer.messages + buffer.messageStride * BitVec.ofNat 32 index + BitVec.ofNat 32 i)

def sizesIn (sizes : BitVec 32 → Int) (buffer : ArincBuffer) (index : Nat) : Int :=
  sizes (buffer.messagesSize + 4 * BitVec.ofNat 32 index)

/-- `libjet_arinc_init` -/
def libjetArincInit (config : IntraConfig) (heap : HeapContents) : IntraObjects where
  normalMode := false
  buffers := (List.range config.nbuffers).map heap.buffers
  nbuffersUsed := 0
  heap := ⟨config.intraHeap, config.messagesMemorySize, 0⟩
  bufferQueues := heap.bufferQueues
  bufferMessages i := messagesIn heap.bytes (heap.buffers i)
  bufferSizes i := sizesIn heap.sizes (heap.buffers i)
  blackboards := ⟨(List.range config.nblackboards).map heap.blackboards, 0⟩
  blackboardMessages i k := heap.bytes ((heap.blackboards i).message + BitVec.ofNat 32 k)
  semaphores := ⟨(List.range config.nsemaphores).map heap.semaphores, 0⟩
  events := ⟨(List.range config.nevents).map heap.events, 0⟩
  bytes := heap.bytes
  sizes := heap.sizes
  kshd := ⟨config.threads, config.nthreadsUsed, config.wq, ∅, fun _ => .waitEvent 0⟩

/-- `CREATE_BUFFER`, with its section, its process queue and the memory of its messages -/
def createBuffer (s : IntraObjects) (name : List UInt8)
    (maxMessageSize maxNbMessage discipline : Int) : IntraObjects × ReturnCode × Option Nat :=
  let r := s.toBufferTable.createBuffer name maxMessageSize maxNbMessage discipline
  match r.2.2, r.1.buffers[s.nbuffersUsed]? with
  | some _, some buffer =>
    ({ s with
      toBufferTable := r.1
      bufferQueues := Function.update s.bufferQueues s.nbuffersUsed .init
      bufferMessages :=
        Function.update s.bufferMessages s.nbuffersUsed (messagesIn s.bytes buffer)
      bufferSizes := Function.update s.bufferSizes s.nbuffersUsed (sizesIn s.sizes buffer) }, r.2)
  | _, _ => ({ s with toBufferTable := r.1 }, r.2)

/-- `CREATE_BLACKBOARD` -/
def createBlackboard (s : IntraObjects) (name : List UInt8) (maxMessageSize : Int) :
    IntraObjects × ReturnCode × Option Nat :=
  match s.blackboards.vacant BlackboardEntry.blackboardName s.normalMode name with
  | .error returnCode => (s, returnCode, none)
  | .ok blackboard =>
    if maxMessageSize ≤ 0 ∨ maxMessageSize > BufferTable.systemLimitMessageSize then
      (s, .invalidParam, none)
    else
      let (heap, message) := s.heap.arincAlloc (BitVec.ofInt 32 maxMessageSize) 4
      let blackboard := { blackboard with maxMessageSize := maxMessageSize, message := message }
      if message = 0 then
        ({ s with
          heap := heap
          blackboards := s.blackboards.setEntry s.blackboards.used blackboard },
          .invalidConfig, none)
      else
        ({ s with
          heap := heap
          blackboards := s.blackboards.add { blackboard with
            blackboardName := name.take maxNameLength
            messageSize := 0
            queue := .init }
          blackboardMessages := Function.update s.blackboardMessages s.blackboards.used
            fun k => s.bytes (message + BitVec.ofNat 32 k) },
          .noError, some (s.blackboards.used + 1))

/-- `MAX_SEMAPHORE_VALUE` -/
def maxSemaphoreValue : Int := 32767

/-- `CREATE_SEMAPHORE` -/
def createSemaphore (s : IntraObjects) (name : List UInt8)
    (currentValue maximumValue discipline : Int) : IntraObjects × ReturnCode × Option Nat :=
  match s.semaphores.vacant SemaphoreEntry.semaphoreName s.normalMode name with
  | .error returnCode => (s, returnCode, none)
  | .ok _ =>
    if maximumValue < 0 ∨ maximumValue > maxSemaphoreValue then (s, .invalidParam, none)
    else if currentValue < 0 ∨ currentValue > maximumValue then (s, .invalidParam, none)
    else if discipline ≠ 0 ∧ discipline ≠ 1 then (s, .invalidParam, none)
    else
      ({ s with semaphores := s.semaphores.add {
          semaphoreName := name.take maxNameLength
          maximumValue := maximumValue
          currentValue := currentValue
          discipline := discipline
          queue := .init } },
        .noError, some (s.semaphores.used + 1))

/-- `CREATE_EVENT` -/
def createEvent (s : IntraObjects) (name : List UInt8) : IntraObjects × ReturnCode × Option Nat :=
  match s.events.vacant EventEntry.eventName s.normalMode name with
  | .error returnCode => (s, returnCode, none)
  | .ok _ =>
    ({ s with events := s.events.add {
        eventName := name.take maxNameLength
        queue := .init
        eventState := 1 } },
      .noError, some (s.events.used + 1))

def create (s : IntraObjects) : ObjectCreate → IntraObjects × ReturnCode × Option Nat
  | .buffer name maxMessageSize maxNbMessage discipline =>
    s.createBuffer name maxMessageSize maxNbMessage discipline
  | .blackboard name maxMessageSize => s.createBlackboard name maxMessageSize
  | .semaphore name currentValue maximumValue discipline =>
    s.createSemaphore name currentValue maximumValue discipline
  | .event name => s.createEvent name

/-- The state and the returns of creations one after the other -/
def creations (s : IntraObjects) : List ObjectCreate → IntraObjects × List (ReturnCode × Option Nat)
  | [] => (s, [])
  | c :: cs => (((s.create c).1.creations cs).1, (s.create c).2 :: ((s.create c).1.creations cs).2)

/-- A buffer whose section is free, with the processes -/
def bufferAt (s : IntraObjects) (i : Nat) : Option BufferQueue :=
  if (s.bufferQueues i).owner = none then
    s.buffers[i]?.map fun buffer =>
      .ofArinc buffer (s.bufferMessages i) (s.bufferSizes i)
        (s.kshd.waitQueue (.buffer i) (s.bufferQueues i)) s.kshd.wq
  else none

def setBuffer (s : IntraObjects) (i : Nat) (b : BufferQueue) : IntraObjects :=
  { s with
    buffers := s.buffers.modify i fun buffer => { buffer with
      maxNbMessage := b.maxNbMessage
      nbMessage := b.nbMessage
      baseOffset := b.baseOffset }
    bufferQueues := Function.update s.bufferQueues i ((s.bufferQueues i).setEnds b.processQueue)
    bufferMessages := Function.update s.bufferMessages i b.messages
    bufferSizes := Function.update s.bufferSizes i b.messagesSize
    kshd := { s.kshd.setThreads b.processQueue with wq := b.wq } }

def blackboardAt (s : IntraObjects) (i : Nat) : Option Blackboard :=
  s.blackboards.entries[i]?.bind fun entry =>
    if entry.queue.owner = none then
      some {
        maxMessageSize := entry.maxMessageSize
        message := s.blackboardMessages i
        messageSize := entry.messageSize
        processQueue := s.kshd.waitQueue (.blackboard i) entry.queue
        wq := s.kshd.wq }
    else none

def setBlackboard (s : IntraObjects) (i : Nat) (b : Blackboard) : IntraObjects :=
  { s with
    blackboards := { s.blackboards with
      entries := s.blackboards.entries.modify i fun entry => { entry with
        messageSize := b.messageSize
        queue := entry.queue.setEnds b.processQueue } }
    blackboardMessages := Function.update s.blackboardMessages i b.message
    kshd := { s.kshd.setThreads b.processQueue with wq := b.wq } }

def semaphoreAt (s : IntraObjects) (i : Nat) : Option Semaphore :=
  s.semaphores.entries[i]?.bind fun entry =>
    if entry.queue.owner = none then
      some {
        maximumValue := entry.maximumValue.toNat
        currentValue := entry.currentValue.toNat
        discipline := .ofInt entry.discipline
        processQueue := s.kshd.waitQueue (.semaphore i) entry.queue }
    else none

def setSemaphore (s : IntraObjects) (i : Nat) (b : Semaphore) : IntraObjects :=
  { s with
    semaphores := { s.semaphores with
      entries := s.semaphores.entries.modify i fun entry => { entry with
        currentValue := b.currentValue
        queue := entry.queue.setEnds b.processQueue } }
    kshd := s.kshd.setThreads b.processQueue }

def eventAt (s : IntraObjects) (i : Nat) : Option ArincEvent :=
  s.events.entries[i]?.bind fun entry =>
    if entry.queue.owner = none then
      some {
        eventState := entry.eventState = 0
        processQueue := s.kshd.waitQueue (.event i) entry.queue }
    else none

def setEvent (s : IntraObjects) (i : Nat) (b : ArincEvent) : IntraObjects :=
  { s with
    events := { s.events with
      entries := s.events.entries.modify i fun entry => { entry with
        eventState := if b.eventState then 0 else 1
        queue := entry.queue.setEnds b.processQueue } }
    kshd := s.kshd.setThreads b.processQueue }

/-- The process waits now if the call has not returned. -/
def afterCall (s : IntraObjects) (t : Nat) (service : WaitingService) (out : ObjectOutput) :
    IntraObjects × ObjectOutput :=
  (if out.IsWaits then { s with kshd := s.kshd.block t service } else s, out)

/-- An identifier is the index plus one; the first `used` objects have been created. -/
def withObject (s : IntraObjects) (used : Nat) (id : Int)
    (call : Nat → Option (IntraObjects × ObjectOutput)) : Option (IntraObjects × ObjectOutput) :=
  if id ≤ 0 ∨ id > used then some (s, .code .invalidParam) else call (id - 1).toNat

def callBuffer (s : IntraObjects) (t i : Nat) (call : BufferCall) :
    Option (IntraObjects × ObjectOutput) :=
  (s.bufferAt i).bind fun b =>
    (b.call t call).map fun r =>
      (s.setBuffer i r.1).afterCall t (if call.sends then .sendBuffer i else .receiveBuffer i) r.2

def callBlackboard (s : IntraObjects) (t i : Nat) (call : BlackboardCall) :
    Option (IntraObjects × ObjectOutput) :=
  (s.blackboardAt i).bind fun b =>
    (b.call t call).map fun r => (s.setBlackboard i r.1).afterCall t (.readBlackboard i) r.2

def callSemaphore (s : IntraObjects) (t i : Nat) (call : SemaphoreCall) :
    Option (IntraObjects × ObjectOutput) :=
  (s.semaphoreAt i).bind fun b =>
    (b.call t call).map fun r => (s.setSemaphore i r.1).afterCall t (.waitSemaphore i) r.2

def callEvent (s : IntraObjects) (t i : Nat) (call : EventCall) :
    Option (IntraObjects × ObjectOutput) :=
  (s.eventAt i).bind fun b =>
    (b.call t call).map fun r => (s.setEvent i r.1).afterCall t (.waitEvent i) r.2

/-- The rest of a service, after its wait -/
def endService (s : IntraObjects) (t : Nat) : WaitingService → Option (IntraObjects × ObjectOutput)
  | .sendBuffer i =>
    (s.bufferAt i).map fun b => (s.setBuffer i (b.sendBufferEnd t).1, .code (b.sendBufferEnd t).2)
  | .receiveBuffer i =>
    (s.bufferAt i).map fun b =>
      (s.setBuffer i (b.receiveBufferEnd t).1, .message (b.receiveBufferEnd t).2)
  | .readBlackboard i =>
    (s.blackboardAt i).map fun b =>
      (s.setBlackboard i (b.readBlackboardEnd t).1, .message (b.readBlackboardEnd t).2)
  | .waitSemaphore i =>
    (s.semaphoreAt i).map fun b =>
      (s.setSemaphore i (b.waitSemaphoreEnd t).1, .code (b.waitSemaphoreEnd t).2)
  | .waitEvent i =>
    (s.eventAt i).map fun b => (s.setEvent i (b.waitEventEnd t).1, .code (b.waitEventEnd t).2)

def step (s : IntraObjects) : ObjectCall → Option (IntraObjects × ObjectOutput)
  | .buffer t id call =>
    if s.kshd.Calls t then s.withObject s.nbuffersUsed id fun i => s.callBuffer t i call else none
  | .blackboard t id call =>
    if s.kshd.Calls t then
      s.withObject s.blackboards.used id fun i => s.callBlackboard t i call
    else none
  | .semaphore t id call =>
    if s.kshd.Calls t then
      s.withObject s.semaphores.used id fun i => s.callSemaphore t i call
    else none
  | .event t id call =>
    if s.kshd.Calls t then s.withObject s.events.used id fun i => s.callEvent t i call else none
  | .getBufferId name =>
    some (s, .ofIndex ((s.buffers.take s.nbuffersUsed).findIdx? fun buffer =>
      sameName maxNameLength buffer.bufferName name))
  | .getBlackboardId name =>
    some (s, .ofIndex (s.blackboards.find BlackboardEntry.blackboardName name))
  | .getSemaphoreId name =>
    some (s, .ofIndex (s.semaphores.find SemaphoreEntry.semaphoreName name))
  | .getEventId name => some (s, .ofIndex (s.events.find EventEntry.eventName name))
  | .setNormalMode => some ({ s with normalMode := true }, .silent)
  | .resume t =>
    if t ∈ s.kshd.blocked ∧ (s.kshd.threads t).state ≠ .waiting then
      (s.endService t (s.kshd.service t)).map fun r =>
        ({ r.1 with kshd := r.1.kshd.unblock t }, r.2)
    else none
  | .process e =>
    (s.kshd.processes.processStep s.kshd.blocked e).map fun w =>
      ({ s with kshd := s.kshd.setThreads w }, .silent)
  | .wqElsewhere t message =>
    if t ∈ s.kshd.blocked then none
    else
      some ({ s with kshd := { s.kshd with wq := Function.update s.kshd.wq t message } }, .silent)

/-- What the creations return in the memory of a partition, and what the calls behind them do. -/
def results (config : IntraConfig) (heap : HeapContents) (creates : List ObjectCreate)
    (calls : List ObjectCall) : List (ReturnCode × Option Nat) × List (Option ObjectOutput) :=
  let r := (libjetArincInit config heap).creations creates
  (r.2, Lockstep.outputs step r.1 calls)

/-- How many of the creations create a buffer. -/
def createdBuffers (config : IntraConfig) (heap : HeapContents) (creates : List ObjectCreate) : Nat :=
  ((libjetArincInit config heap).creations creates).1.nbuffersUsed

end IntraObjects

/-- In each buffer that is created, `nb_message` has been 0 before. -/
def HeapContents.CountsNone (heap : HeapContents) (config : IntraConfig)
    (creates : List ObjectCreate) : Prop :=
  ∀ i < IntraObjects.createdBuffers config heap creates, (heap.buffers i).nbMessage = 0

instance (heap : HeapContents) (config : IntraConfig) (creates : List ObjectCreate) :
    Decidable (heap.CountsNone config creates) :=
  inferInstanceAs (Decidable (∀ i < _, _))

end Chpok
