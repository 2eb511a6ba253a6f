import Chpok.Kernel.ArincCalls

/-! Runs of an ARINC partition: its start (`kernel/core/partition_arinc.c`), the calls of its
threads, the interrupts, and the restarts that it asks for or that come from outside. -/

namespace Chpok

/-- `onEvent` is `pok_sched_arinc_on_event`; `recheck` is one more pass of the loop of
`pok_preemption_local_enable`; `user` is a step of the current thread inside the code of
sections; `deadlineOor` is an error that the kernel may raise for any thread. -/
inductive ArincInput where
  | onEvent (events : List DrainedEvent)
  | recheck (events : List DrainedEvent)
  | user (e : SectionInput)
  | fault (errorId : ErrorId) (failedAddr : Nat) (events : List DrainedEvent)
  | deadlineOor (t : Nat) (events : List DrainedEvent)
  | call (call : ArincCall) (events : List DrainedEvent)
  | restart
  deriving DecidableEq, Repr

namespace ArincPartition

/-- `thread_reset` for all threads -/
def threadsReset (p : ArincPartition) : ArincPartition :=
  { p with sched := fun t => if t < p.nthreads then { p.sched t with name := [] } else p.sched t }

/-- `sched_arinc_start` -/
def schedArincStart (p : ArincPartition) : ArincPartition :=
  { p.updateThread 0 (fun th => { th with state := .runnable, hasContext := true }) with
    lockLevel := 1
    threadLocked := 0
    threadCurrent := some 0 }

/-- `main_thread_name`, which is "main" -/
def mainThreadName : List UInt8 := [109, 97, 105, 110]

/-- `partition_arinc_start`. The memory of the sections belongs to the image that is loaded;
the lists of waiters are initialised with the ports. -/
def partitionArincStart (p : ArincPartition) : ArincPartition :=
  let emptied := { p.threadsReset with
    sections := fun _ => ⟨none, false⟩
    waiters := fun _ => []
    eligibleThreads := []
    delayedEvents := []
    threadError := none
    errorList := []
    halted := false }
  let main := (emptied.updateSched 0 fun th => { th with
    name := mainThreadName, basePriority := 0, period := -1, timeCapacity := -1 }).threadCreate 0
  { main with nthreadsUsed := 1 }.schedArincStart

/-- The steps of `msection_enter` and `msection_leave` in user space -/
def userStep (p : ArincPartition) (c : Nat) (e : SectionInput) : Option SectionSystem :=
  match e with
  | .enter _ | .announce | .readOwner | .storeOwner | .finish | .leave _ | .discount
  | .waitReturn => p.threadStep c (p.threads c) e
  | .checkFlags _ =>
    match (p.threads c).point with
    | .discounted sec =>
      if p.MustResched c sec then none
      else some (p.toSectionSystem.updateThread c fun th => { th with point := .running })
    | _ => none
  | _ => none

def withCurrent (p : ArincPartition) (f : Nat → Except PartitionExit ArincPartition) :
    Except PartitionExit ArincPartition :=
  match p.threadCurrent with
  | none => .error .refused
  | some c => f c

/-- What happens before `sched_arinc` comes to `sched_local_recheck_needed`. -/
def beforeRecheck (hm : PartitionHm) (p : ArincPartition) :
    ArincInput → Except PartitionExit ArincPartition
  | .onEvent events => drain hm events (p.onSections (·.recordEntering))
  | .recheck events => drain hm events p
  | .fault errorId failedAddr events =>
    p.withCurrent fun c => (p.processError hm c errorId failedAddr).bind (drain hm events)
  | .deadlineOor t events => (p.emitDeadlineOor hm t).bind (drain hm events)
  | .call call events =>
    p.withCurrent fun c => (p.call hm c call).bind fun r => drain hm events r.1
  | .user _ | .restart => .error .refused

/-- One step up to its end or its exit. -/
def run (hm : PartitionHm) (p : ArincPartition) : ArincInput → Except PartitionExit ArincPartition
  | .restart => .error (.reset { p with mode := .initCold })
  | e =>
    if p.halted then .error .refused
    else
      match e with
      | .user e => p.withCurrent fun c => p.liftSections .msectionWait (p.userStep c e)
      | e => (p.beforeRecheck hm e).bind reschedule

/-- One step. A partition that is reset starts again, an idle one waits for that. -/
def step (hm : PartitionHm) (p : ArincPartition) (e : ArincInput) : Option ArincPartition :=
  match p.run hm e with
  | .ok q => some q
  | .error (.reset q) => some q.partitionArincStart
  | .error (.idle q) => some q
  | .error (.forever q) => some q
  | .error (.failed _) => none
  | .error .refused => none

def failure {α : Type} : Except PartitionExit α → Option Assertion
  | .error (.failed assertion) => some assertion
  | _ => none

/-- The static variables of the kernel, before the first start. -/
def unstarted (nthreads : Nat) : ArincPartition where
  threads _ := ⟨.stopped, false, .ok, none, none, none, none, 0, none, false, .running, []⟩
  nthreadsUsed := 0
  sections _ := ⟨none, false⟩
  threadCurrent := none
  threadSelected := none
  waitingSection := none
  recheckNeeded := false
  threadError := none
  mode := .initCold
  nthreads := nthreads
  sched _ := ⟨[], 0, 0, 0, 0, 0, 0, false, .wakeUp, none, 0⟩
  errors _ := ⟨∅, false⟩
  eligibleThreads := []
  delayedEvents := []
  waiters _ := []
  lockLevel := 0
  threadLocked := 0
  errorList := []
  syncError := .modpostproceventElist
  syncErrorFailedAddr := 0
  isErrorHandler := false
  nthreadsUnrecoverable := 0
  halted := false
  arrivals := 0
  arrivedAt _ := 0
  errorLog := ⟨[], [], []⟩

/-- The first start. -/
def boot (nthreads : Nat) : ArincPartition := (unstarted nthreads).partitionArincStart

/-- All errors of processes are left to the error handler. -/
def lenientHm : PartitionHm := ⟨fun _ => true, fun _ _ => .ignore⟩

/-- Two processes of equal priority, the second of which starts later. -/
def startupRun : List ArincInput :=
  [.call (.create ⟨[65], 5, -1, -1⟩ true true) [], .call (.create ⟨[66], 5, -1, -1⟩ true true) [],
    .call (.delayedStart 1 0 0 0) [], .call (.delayedStart 2 10 0 0) [],
    .call (.setMode .normal 0 0) []]

/-- Process 1 enters and leaves section 7, and is recorded as a thread that enters it by an
event that returns early. Process 2 then waits for the section, of which process 1 has become
the owner, so that process 1 is run in its place. -/
def staleOwnerRun : List ArincInput :=
  [.call (.create ⟨[65], 1, -1, -1⟩ true true) [], .call (.create ⟨[66], 2, -1, -1⟩ true true) [],
    .call (.delayedStart 1 0 0 0) [], .call (.delayedStart 2 10 0 0) [],
    .call (.setMode .normal 0 0) [],
    .user (.enter 7), .user .announce, .onEvent [], .user .readOwner, .user .storeOwner,
    .user .finish, .user (.leave 7), .user .discount, .user (.checkFlags ⟨[], false, .idle⟩),
    .call .yield [], .onEvent [.timer 10],
    .user (.enter 7), .user .announce, .user .readOwner, .call .enterHelper []]

end ArincPartition

end Chpok
