import Chpok.Kernel.ArincSystem
import Chpok.Library.NarrowName
import Chpok.Arinc.ProcessQueue

/-! The services on processes (`libpok/arinc653/process.c`). A process is known to the application
by the number of its thread plus one, which is passed to the kernel in 8 bits. -/

namespace Chpok

/-- `DEADLINE_TYPE` -/
inductive Deadline where
  | soft
  | hard
  deriving DecidableEq, Repr

/-- `PROCESS_ATTRIBUTE_TYPE`. A deadline that is neither soft nor hard is none. -/
structure ProcessAttribute where
  name : List UInt8
  basePriority : Int
  period : Int
  timeCapacity : Int
  deadline : Option Deadline
  deriving DecidableEq, Repr

/-- `pok_thread_status_t`. The time of a deadline that is not pending is not known here. -/
structure ThreadStatus where
  name : List UInt8
  basePriority : Nat
  period : Int
  timeCapacity : Int
  currentPriority : Nat
  state : ThreadState
  running : Bool
  deadlineTime : Option Int
  deriving DecidableEq, Repr

/-- The thread identifier that the kernel gets from the library. -/
def coreThreadId (id : Int) : Nat := NarrowName.entry 256 id

namespace ArincPartition

variable (p : ArincPartition) (c : Nat)

/-- What `pok_thread_get_status` tells of a thread. A suspended thread is told to wait. -/
def threadStatus (t : Nat) : ThreadStatus where
  name := (p.sched t).name
  basePriority := (p.sched t).basePriority
  period := (p.sched t).period
  timeCapacity := (p.sched t).timeCapacity
  currentPriority := (p.sched t).priority
  state :=
    if (p.threads t).state = .runnable ∧ (p.sched t).suspended then .waiting
    else (p.threads t).state
  running := (p.threads t).state = .runnable ∧ ¬ (p.sched t).suspended ∧ p.threadCurrent = some t
  deadlineTime :=
    if timeIsInfinity (p.sched t).timeCapacity then some (-1)
    else (p.delayedEvents.find? fun e => e.thread = t ∧ e.kind = .deadline).map (·.timepoint)

/-- `pok_thread_get_status` -/
def pokThreadGetStatus (id : Nat) : PokErrno × Option ThreadStatus :=
  if p.HasThread id then (.ok, some (p.threadStatus id)) else (.param, none)

/-- `MAP_ERROR` -/
def mapError (r : Except PartitionExit (ArincPartition × PokErrno)) (code : PokErrno → ReturnCode) :
    Except PartitionExit (ArincPartition × ReturnCode) :=
  r.map fun r => (r.1, code r.2)

/-- `CHECK_PROCESS_ID` -/
def checkProcessId (id : Int) (r : Except PartitionExit (ArincPartition × ReturnCode)) :
    Except PartitionExit (ArincPartition × ReturnCode) :=
  if id = 0 then .ok (p, .invalidParam) else r

/-- `GET_PROCESS_STATUS` -/
def getProcessStatus (id : Int) : ReturnCode × Option ThreadStatus :=
  match p.pokThreadGetStatus (coreThreadId id) with
  | (.ok, status) => (.noError, status)
  | _ => (.invalidParam, none)

/-- `SET_PRIORITY`. The priority is passed in 32 bits. -/
def setPriority (id priority : Int) : Except PartitionExit (ArincPartition × ReturnCode) :=
  p.checkProcessId id
    (if priority < minPriorityValue ∨ maxPriorityValue < priority then .ok (p, .invalidParam)
    else mapError (p.pokThreadSetPriority (coreThreadId id) priority.toNat) fun
      | .ok => .noError
      | .unavailable => .invalidMode
      | _ => .invalidParam)

/-- `SUSPEND` -/
def suspend (id : Int) : Except PartitionExit (ArincPartition × ReturnCode) :=
  p.checkProcessId id (mapError (p.pokThreadSuspendTarget c (coreThreadId id)) fun
    | .ok => .noError
    | .mode => .invalidMode
    | .unavailable => .noAction
    | _ => .invalidParam)

/-- `RESUME` -/
def resume (id : Int) : Except PartitionExit (ArincPartition × ReturnCode) :=
  p.checkProcessId id (mapError (p.pokThreadResume c (coreThreadId id)) fun
    | .ok => .noError
    | .unavailable => .noAction
    | .mode => .invalidMode
    | _ => .invalidParam)

/-- `STOP` -/
def stop (id : Int) : Except PartitionExit (ArincPartition × ReturnCode) :=
  p.checkProcessId id (mapError (p.pokThreadStopTarget c (coreThreadId id)) fun
    | .ok => .noError
    | .unavailable => .noAction
    | _ => .invalidParam)

/-- `DELAYED_START` -/
def delayedStart (id delay now processingStart : Int) :
    Except PartitionExit (ArincPartition × ReturnCode) :=
  p.checkProcessId id
    (mapError (p.pokThreadDelayedStart (coreThreadId id) delay now processingStart) fun
      | .ok => .noError
      | .unavailable => .noAction
      | _ => .invalidParam)

/-- `START` -/
def start (id now processingStart : Int) : Except PartitionExit (ArincPartition × ReturnCode) :=
  p.delayedStart id 0 now processingStart

/-- What `CREATE_PROCESS` passes to the kernel: the base priority in 8 bits. -/
def coreAttr (attributes : ProcessAttribute) : ThreadAttr where
  name := attributes.name
  priority := (attributes.basePriority % 256).toNat
  period := attributes.period
  timeCapacity := attributes.timeCapacity

/-- `CREATE_PROCESS`, with the checks of memory that the kernel makes. The identifier of the
kernel has 8 bits. -/
def createProcess (attributes : ProcessAttribute) (entryOk stackOk : Bool) :
    Except PartitionExit (ArincPartition × ReturnCode × Option Int) :=
  if attributes.name.headD 0 = 0 then .ok (p, .invalidParam, none)
  else if attributes.deadline = none then .ok (p, .invalidParam, none)
  else
    (p.pokThreadCreate (coreAttr attributes) entryOk stackOk).map fun r =>
      match r.2 with
      | .ok => (r.1, .noError, some (NarrowName.ofEntry 256 p.nthreadsUsed))
      | .exists => (r.1, .noAction, none)
      | .param => (r.1, .invalidParam, none)
      | .einval => (r.1, .invalidConfig, none)
      | .unavailable => (r.1, .invalidConfig, none)
      | .toomany => (r.1, .invalidConfig, none)
      | .partitionMode => (r.1, .invalidMode, none)
      | _ => (r.1, .invalidParam, none)

end ArincPartition

/-- The services that take the identifier of a process. -/
inductive ProcessService where
  | suspend
  | resume
  | stop
  | start (now processingStart : Int)
  | delayedStart (delay now processingStart : Int)
  | setPriority (priority : Int)
  | getProcessStatus
  deriving DecidableEq, Repr

/-- A service called by thread `c`. The status that is asked for is not part of the result. -/
def ProcessService.call (p : ArincPartition) (c : Nat) (id : Int) :
    ProcessService → Except PartitionExit (ArincPartition × ReturnCode)
  | .suspend => p.suspend c id
  | .resume => p.resume c id
  | .stop => p.stop c id
  | .start now processingStart => p.start id now processingStart
  | .delayedStart delay now processingStart => p.delayedStart id delay now processingStart
  | .setPriority priority => p.setPriority id priority
  | .getProcessStatus => .ok (p, (p.getProcessStatus id).1)

/-- A partition with the identifiers that its `CREATE_PROCESS` has returned since its start, each
with the thread that has been created. -/
structure ProcessHistory where
  partition : ArincPartition
  created : List (Int × Nat)

namespace ProcessHistory

/-- The process that an input creates. -/
def newProcess (p : ArincPartition) : ArincInput → List (Int × Nat)
  | .call (.create attr entryOk stackOk) _ =>
    match p.pokThreadCreate attr entryOk stackOk with
    | .ok (_, .ok) => [(NarrowName.ofEntry 256 p.nthreadsUsed, p.nthreadsUsed)]
    | _ => []
  | _ => []

/-- One step of the partition. With a reset the processes are gone. -/
def step (hm : PartitionHm) (h : ProcessHistory) (e : ArincInput) : Option ProcessHistory :=
  match h.partition.run hm e with
  | .ok q => some ⟨q, h.created ++ newProcess h.partition e⟩
  | .error (.reset q) => some ⟨q.partitionArincStart, []⟩
  | .error (.idle q) => some ⟨q, h.created⟩
  | .error (.forever q) => some ⟨q, h.created⟩
  | .error (.failed _) => none
  | .error .refused => none

def boot (nthreads : Nat) : ProcessHistory := ⟨ArincPartition.boot nthreads, []⟩

end ProcessHistory

end Chpok
