import Chpok.Kernel.ArincSystem
import Chpok.Kernel.PortCalls

/-! An ARINC partition over its incarnations: with the timer of `pok_partition_t`, with the
creation of its processes and ports, and with all the ways in which it is restarted. -/

namespace Chpok

/-- A call that the main thread makes to create a process, the error handler or a port.
`argsOk` is what a port is checked for against its configuration. -/
inductive StartupCall where
  | process (attr : ThreadAttr) (entryOk stackOk : Bool)
  | errorHandler (entryOk stackOk : Bool)
  | port (table : PortTable) (id : Nat) (argsOk : Bool)
  deriving DecidableEq, Repr

/-- `pok_partition_arinc_t` with the timer of its `base_part`, and whether its ports are
created. -/
structure BasePartition extends ArincPartition where
  timer : Int
  isCreated : PortTable → Nat → Bool

/-- `drained` is how many events of a step have been drained when the timer is set for the last
time before the step ends early. `restartN` is the command of the monitor. -/
inductive BaseInput where
  | arinc (e : ArincInput) (drained : Option Nat)
  | startup (call : StartupCall)
  | timerExpired
  | restartN
  deriving DecidableEq, Repr

def ArincInput.takeEvents (n : Nat) : ArincInput → ArincInput
  | .onEvent events => .onEvent (events.take n)
  | .recheck events => .recheck (events.take n)
  | .user e => .user e
  | .fault errorId failedAddr events => .fault errorId failedAddr (events.take n)
  | .deadlineOor t events => .deadlineOor t (events.take n)
  | .call c events => .call c (events.take n)
  | .restart => .restart

/-- `delayed_event_queue_get_check_time` -/
def ArincPartition.checkTime (p : ArincPartition) : Int :=
  match p.delayedEvents with
  | [] => 0
  | event :: _ => event.timepoint

namespace BasePartition

/-- `partition_arinc_start`, ports included -/
def start (p : BasePartition) : BasePartition :=
  { p with toArincPartition := p.partitionArincStart, isCreated := fun _ _ => false }

/-- The checks of `pok_port_queuing_create` or `pok_port_sampling_create`, in their order -/
def portErrno (p : BasePartition) (table : PortTable) (id : Nat) (argsOk : Bool) : PokErrno :=
  match table with
  | .queuing =>
    if p.isCreated .queuing id then .exists
    else if ¬ argsOk then .einval
    else if p.mode = .normal then .mode
    else .ok
  | .sampling =>
    if p.mode = .normal then .mode
    else if p.isCreated .sampling id then .exists
    else if ¬ argsOk then .einval
    else .ok

/-- A port is created. Nothing else of the partition is touched. -/
def portCreate (p : BasePartition) (table : PortTable) (id : Nat) (argsOk : Bool) :
    BasePartition × PokErrno :=
  if p.portErrno table id argsOk = .ok then
    ({ p with
        isCreated := Function.update p.isCreated table
          (Function.update (p.isCreated table) id true) }, .ok)
  else (p, p.portErrno table id argsOk)

def startupCall (p : BasePartition) : StartupCall → Except PartitionExit (BasePartition × PokErrno)
  | .process attr entryOk stackOk =>
    (p.pokThreadCreate attr entryOk stackOk).map fun r =>
      ({ p with toArincPartition := r.1 }, r.2)
  | .errorHandler entryOk stackOk =>
    (p.errorThreadCreate entryOk stackOk).map fun r => ({ p with toArincPartition := r.1 }, r.2)
  | .port table id argsOk => .ok (p.portCreate table id argsOk)

/-- The main thread creates its processes and ports, and is told of each whether it has been. -/
def startup : List StartupCall → BasePartition → Except PartitionExit (BasePartition × List PokErrno)
  | [], p => .ok (p, [])
  | call :: calls, p => (p.startupCall call).bind fun r =>
      (startup calls r.1).map fun s => (s.1, r.2 :: s.2)

/-- `sched_arinc` sets the timer each time when it has drained the events. -/
def timerAt (hm : PartitionHm) (p : BasePartition) (e : ArincInput) : Option Nat → Int
  | none => p.timer
  | some n =>
    match p.beforeRecheck hm (e.takeEvents n) with
    | .ok q => q.checkTime
    | .error _ => p.timer

/-- The timer after a step that comes back. User code does not set it. -/
def timerAfter (p : BasePartition) (e : ArincInput) (q : ArincPartition) : Int :=
  match e with
  | .user _ => p.timer
  | _ => q.checkTime

/-- What an incarnation leaves when it is restarted by an input. The monitor does not touch the
mode. -/
def restarts (hm : PartitionHm) (p : BasePartition) : BaseInput → Option BasePartition
  | .arinc e drained =>
    match p.run hm e with
    | .error (.reset q) => some { p with toArincPartition := q, timer := p.timerAt hm e drained }
    | _ => none
  | .restartN => some p
  | .startup _ | .timerExpired => none

/-- A step of an incarnation. A halted one creates nothing. -/
def goesOn (hm : PartitionHm) (p : BasePartition) : BaseInput → Option BasePartition
  | .arinc e drained =>
    match p.run hm e with
    | .ok q => some { p with toArincPartition := q, timer := p.timerAfter e q }
    | .error (.idle q) | .error (.forever q) =>
      some { p with toArincPartition := q, timer := p.timerAt hm e drained }
    | .error (.reset _) | .error (.failed _) | .error .refused => none
  | .startup call => if p.halted then none else (p.startupCall call).toOption.map Prod.fst
  | .timerExpired => some { p with timer := 0 }
  | .restartN => none

/-- One step. A partition that is restarted starts again. -/
def step (hm : PartitionHm) (p : BasePartition) (e : BaseInput) : Option BasePartition :=
  match p.restarts hm e with
  | some q => some q.start
  | none => p.goesOn hm e

/-- The first start. -/
def boot (nthreads : Nat) : BasePartition :=
  BasePartition.start ⟨ArincPartition.unstarted nthreads, 0, fun _ _ => false⟩

/-- The state of the kernel that the scheduler and error handling read is the same. -/
structure SameScheduling (p q : BasePartition) : Prop where
  selected : p.threadSelected = q.threadSelected
  lockLevel : p.lockLevel = q.lockLevel
  locked : p.threadLocked = q.threadLocked
  waiting : p.waitingSection = q.waitingSection
  errorList : p.errorList = q.errorList
  errors : ∀ t < q.nthreads, p.errors t = q.errors t
  count : p.nthreadsUnrecoverable = q.nthreadsUnrecoverable
  error : p.threadError = q.threadError
  handler : p.isErrorHandler = q.isErrorHandler
  recheck : p.recheckNeeded = q.recheckNeeded
  events : p.delayedEvents = q.delayedEvents
  timer : p.timer = q.timer
  eligible : p.eligibleThreads = q.eligibleThreads

/-- Nothing is left that a restart does not reset: no thread is chosen or about to be, no timer
is set, and no error has been left to a thread. -/
structure NothingLeft (p : BasePartition) : Prop where
  selected : p.threadSelected = none
  recheck : p.recheckNeeded = false
  timer : p.timer = 0
  errors : ∀ t < p.nthreads, p.errors t = ⟨∅, false⟩
  count : p.nthreadsUnrecoverable = 0

instance (p : BasePartition) : Decidable p.NothingLeft :=
  decidable_of_iff (p.threadSelected = none ∧ p.recheckNeeded = false ∧ p.timer = 0 ∧
      (∀ t < p.nthreads, p.errors t = ⟨∅, false⟩) ∧ p.nthreadsUnrecoverable = 0)
    ⟨fun ⟨hselected, hrecheck, htimer, herrors, hcount⟩ =>
      ⟨hselected, hrecheck, htimer, herrors, hcount⟩,
      fun h => ⟨h.selected, h.recheck, h.timer, h.errors, h.count⟩⟩

end BasePartition

end Chpok
