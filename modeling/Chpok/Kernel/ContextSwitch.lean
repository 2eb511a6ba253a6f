import Chpok.Kernel.Sched
import Chpok.Library.Run
import Mathlib.Logic.Function.Basic

/-! Switching of contexts between partitions (`kernel/core/sched.c`) and between the threads of a
partition (`kernel/core/sched_arinc.c`). A context is what the processor needs to go on with some
code, and is not looked into. -/

namespace Chpok

/-- The functions and stacks with which `jet_context_init` and `jet_context_restart_and_save` begin
a context. -/
inductive KernelContext where
  | idle
  | start (p : Nat)
  | doNothing (p : Nat)
  | thread (p t : Nat)
  deriving DecidableEq, Repr

/-- What is executed in a partition: `thread_current`, where `NULL` stands for `do_nothing_func`.
From the request of a restart up to `sched_arinc_start` it is `start_partition`. -/
inductive KernelRunner where
  | start
  | doNothing
  | thread (t : Nat)
  deriving DecidableEq, Repr

/-- The fields of a partition that serve for switching; `started` are the threads that are not
stopped. -/
structure SwitchPartition (C : Type) where
  sp : Option C
  isPaused : Bool
  current : KernelRunner
  threadSp : Nat → Option C
  idleSp : Option C
  started : Nat → Bool

/-- The context in the processor, and the variables of the scheduler. -/
structure Processor (C : Type) where
  context : C
  sched : Sched
  currentIsPaused : Bool
  idleSp : Option C
  partitions : Nat → SwitchPartition C

inductive SwitchInput (C : Type) where
  /-- The code that is executed goes on. -/
  | run (f : C → C)
  /-- `pok_sched_on_time_changed` -/
  | tick (now : Int)
  /-- `pok_preemption_enable` -/
  | enable (now : Int)
  /-- `pok_partition_restart` -/
  | restart (now : Int)
  /-- `monitor_start_func` changes the flag of a partition. -/
  | pause (p : Nat) (isPaused : Bool)
  /-- `restart_N` of the monitor -/
  | restartN (p : Nat)
  /-- `pok_sched_restart` -/
  | moduleReset (now : Int)
  /-- `partition_arinc_start` up to the jump into the main thread -/
  | arincStart (main : Nat)
  /-- `thread_delayed_start_internal` -/
  | startThread (t : Nat)
  /-- `thread_stop` -/
  | stopThread (t : Nat)
  /-- `sched_arinc` from the place where the thread has been chosen; `reset` is the error handler
  when it is started. -/
  | schedArinc (reset : Option Nat) (new : Option Nat)

namespace Processor

variable {C : Type} (entry : KernelContext → C)

/-- The place in which a context is kept; `none` stands for the static `idle_sp`. -/
def spAt (s : Processor C) : Option Nat → Option C
  | none => s.idleSp
  | some p => (s.partitions p).sp

def setPartition (s : Processor C) (p : Nat) (part : SwitchPartition C) : Processor C :=
  { s with partitions := Function.update s.partitions p part }

def setSp (s : Processor C) (place : Option Nat) (sp : Option C) : Processor C :=
  match place with
  | none => { s with idleSp := sp }
  | some p => s.setPartition p { s.partitions p with sp := sp }

/-- `jet_context_jump` -/
def contextJump (s : Processor C) (new : C) : Processor C := { s with context := new }

/-- `jet_context_switch` -/
def contextSwitch (s : Processor C) (old : Option Nat) (new : C) : Processor C :=
  { s.setSp old (some s.context) with context := new }

/-- The places of the context that is executed and of the one that is to be. -/
def oldPlace (s : Processor C) : Option Nat :=
  if s.currentIsPaused then none else some s.sched.currentPartition

def newPlace (s : Processor C) (p : Nat) : Option Nat :=
  if (s.partitions p).isPaused then none else some p

/-- `intra_partition_switch`. A jump to `NULL` has no result. -/
def intraPartitionSwitch (s : Processor C) : Option (Processor C) :=
  let p := s.sched.currentPartition
  let old := s.oldPlace
  let new := s.newPlace p
  if old ≠ new then
    let s := { s with currentIsPaused := (s.partitions p).isPaused }
    if s.spAt old = none then (s.spAt new).map s.contextJump
    else if s.spAt new = none then
      some ((s.setSp new (some (entry (.start p)))).contextSwitch old (entry (.start p)))
    else (s.spAt new).map (s.contextSwitch old)
  else if s.spAt old = none then
    some ((s.setSp old (some (entry (.start p)))).contextJump (entry (.start p)))
  else some s

/-- `inter_partition_switch`, where `sched` has the new partition. -/
def interPartitionSwitch (s : Processor C) (sched : Sched) : Option (Processor C) :=
  let p := sched.currentPartition
  let old := s.oldPlace
  let new := s.newPlace p
  let s := { s with sched := sched }
  if (s.partitions p).isPaused ∧ s.idleSp = none then none
  else if old = new then some s
  else
    let s := { s with currentIsPaused := (s.partitions p).isPaused }
    let s := if s.spAt new = none then s.setSp new (some (entry (.start p))) else s
    (s.spAt new).map fun sp =>
      if s.spAt old = none then s.contextJump sp else s.contextSwitch old sp

/-- `pok_sched`, but for the timer of the partition that is left. -/
def pokSched (c : ModuleSched) (s : Processor C) (now : Int) : Option (Processor C) :=
  (c.pokSched s.sched now).bind fun r =>
    if ¬ s.sched.needRecheck then some s
    else if r.2 ∧ r.1.currentPartition ≠ s.sched.currentPartition then
      s.interPartitionSwitch entry r.1
    else intraPartitionSwitch entry { s with sched := r.1 }

/-- A restart is asked for by an empty `sp`. -/
def requestRestart (s : Processor C) (p : Nat) : Processor C :=
  s.setPartition p { s.partitions p with sp := none, current := .start }

/-- `pok_sched_restart` -/
def schedRestart (c : ModuleSched) (s : Processor C) (now : Int) : Option (Processor C) :=
  (c.pokSchedRestart now).bind fun sched =>
    let p := sched.currentPartition
    let s : Processor C :=
      { s with
        sched := sched
        idleSp := some (entry .idle)
        partitions := fun p => { s.partitions p with sp := none, current := .start }
        currentIsPaused := (s.partitions p).isPaused }
    let s := if s.spAt (s.newPlace p) = none then
        s.setSp (s.newPlace p) (some (entry (.start p))) else s
    (s.spAt (s.newPlace p)).map s.contextJump

/-- The place in which the context of a thread, or of `do_nothing_func`, is kept. -/
def runnerSp (part : SwitchPartition C) : KernelRunner → Option C
  | .start => none
  | .doNothing => part.idleSp
  | .thread t => part.threadSp t

def setRunnerSp (part : SwitchPartition C) (runner : KernelRunner) (sp : Option C) :
    SwitchPartition C :=
  match runner with
  | .start => part
  | .doNothing => { part with idleSp := sp }
  | .thread t => { part with threadSp := Function.update part.threadSp t sp }

def runnerEntry (p : Nat) : KernelRunner → KernelContext
  | .start => .start p
  | .doNothing => .doNothing p
  | .thread t => .thread p t

/-- The thread that has been chosen, or `do_nothing_func`. -/
def chosen : Option Nat → KernelRunner
  | none => .doNothing
  | some t => .thread t

/-- The end of `sched_arinc`. Only the error handler restarts itself. -/
def switchRunner (s : Processor C) (p : Nat) (new : KernelRunner) : Processor C :=
  let part := s.partitions p
  let old := part.current
  let begin := entry (runnerEntry p new)
  if new = old then
    if new = .doNothing ∨ runnerSp part new ≠ none then s
    else (s.setPartition p (setRunnerSp part new (some begin))).contextJump begin
  else
    let newSp := (runnerSp part new).getD begin
    let part := setRunnerSp { part with current := new } new (some newSp)
    if runnerSp part old = none then (s.setPartition p part).contextJump newSp
    else (s.setPartition p (setRunnerSp part old (some s.context))).contextJump newSp

/-- The error handler is given no context when it is started. -/
def startError (part : SwitchPartition C) : Option Nat → SwitchPartition C
  | none => part
  | some t =>
    { part with
      threadSp := Function.update part.threadSp t none
      started := Function.update part.started t true }

/-- `sched_arinc` in the context of the current partition. That a thread other than the error
handler restarts itself is an assertion that fails. -/
def schedArinc (s : Processor C) (p : Nat) (reset new : Option Nat) : Option (Processor C) :=
  if (s.partitions p).current ≠ .start ∧ ∀ t ∈ new, (s.partitions p).current = .thread t →
      (s.partitions p).threadSp t = none → reset = some t then
    some (switchRunner entry (s.setPartition p (startError (s.partitions p) reset)) p (chosen new))
  else none

/-- `partition_arinc_start` with `sched_arinc_start`, where `thread_reset` leaves no thread a
context. The context it is called in is lost. -/
def arincStart (s : Processor C) (p main : Nat) : Option (Processor C) :=
  if (s.partitions p).current = .start then
    some ((s.setPartition p
      { s.partitions p with
        current := .thread main
        threadSp := fun t => if t = main then some (entry (.thread p main)) else none
        idleSp := none
        started := fun t => t = main }).contextJump (entry (.thread p main)))
  else none

/-- A thread is started while it is stopped. -/
def startThread (s : Processor C) (p t : Nat) : Option (Processor C) :=
  if (s.partitions p).started t = false ∧ (s.partitions p).current ≠ .start then
    some (s.setPartition p
      { s.partitions p with
        threadSp := Function.update (s.partitions p).threadSp t none
        started := Function.update (s.partitions p).started t true })
  else none

def stopThread (s : Processor C) (p t : Nat) : Processor C :=
  s.setPartition p
    { s.partitions p with started := Function.update (s.partitions p).started t false }

/-- Code of a partition is executed, and does what only such code does. -/
def asPartition (s : Processor C) (f : Nat → Option (Processor C)) : Option (Processor C) :=
  s.oldPlace.bind f

def step (c : ModuleSched) (s : Processor C) : SwitchInput C → Option (Processor C)
  | .run f => some { s with context := f s.context }
  | .tick now => pokSched entry c { s with sched := { s.sched with needRecheck := true } } now
  | .enable now => pokSched entry c s now
  | .restart now => s.asPartition fun p =>
    pokSched entry c { s.requestRestart p with
      sched := { s.sched with needRecheck := true } } now
  | .pause p isPaused => some (s.setPartition p { s.partitions p with isPaused := isPaused })
  | .restartN p => if s.oldPlace = some p then none else some (s.requestRestart p)
  | .moduleReset now => schedRestart entry c s now
  | .arincStart main => s.asPartition fun p => arincStart entry s p main
  | .startThread t => s.asPartition fun p => s.startThread p t
  | .stopThread t => s.asPartition fun p => some (s.stopThread p t)
  | .schedArinc reset new => s.asPartition fun p => schedArinc entry s p reset new

end Processor

end Chpok
