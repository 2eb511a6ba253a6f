import Chpok.Arinc.ProcessQueue
import Mathlib.Data.Finset.Erase
import Mathlib.Data.Finset.Filter

/-! Semaphores (`libpok/arinc653/semaphore.c`). A call that begins to wait has no return code
yet. -/

namespace Chpok

/-- `struct arinc_semaphore` -/
structure Semaphore where
  maximumValue : Nat
  currentValue : Nat
  discipline : QueuingDiscipline
  processQueue : WaitQueue

/-- `SEMAPHORE_STATUS_TYPE` -/
structure SemaphoreStatus where
  currentValue : Nat
  maximumValue : Nat
  waitingProcesses : Nat
  deriving DecidableEq, Repr

namespace Semaphore

/-- `WAIT_SEMAPHORE`, up to the wait. -/
def waitSemaphore (semaphore : Semaphore) (t : Nat) (timeOut : Int) (start : WaitStart) :
    Option (Semaphore × Option ReturnCode) :=
  if 0 < semaphore.currentValue then
    some ({ semaphore with currentValue := semaphore.currentValue - 1 }, some .noError)
  else if timeOut = 0 then some (semaphore, some .notAvailable)
  else
    (semaphore.processQueue.queueAndWait t semaphore.discipline start).map fun r =>
      ({ semaphore with processQueue := r.1 }, r.2)

/-- `WAIT_SEMAPHORE`, after the wait. -/
def waitSemaphoreEnd (semaphore : Semaphore) (t : Nat) : Semaphore × ReturnCode :=
  ({ semaphore with processQueue := (semaphore.processQueue.waitReturn t).1 },
    (semaphore.processQueue.waitReturn t).2)

/-- `SIGNAL_SEMAPHORE` -/
def signalSemaphore (semaphore : Semaphore) : Option (Semaphore × ReturnCode) :=
  (semaphore.processQueue.jetMsectionWqNotify false).bind fun r =>
    if r.2 then
      r.1.first.map fun tAwoken =>
        ({ semaphore with processQueue := r.1.msectionWqDel tAwoken }, .noError)
    else if semaphore.currentValue = semaphore.maximumValue then
      some ({ semaphore with processQueue := r.1 }, .noAction)
    else
      some ({ semaphore with
        processQueue := r.1, currentValue := semaphore.currentValue + 1 }, .noError)

/-- `GET_SEMAPHORE_STATUS` -/
def getSemaphoreStatus (semaphore : Semaphore) : Option (Semaphore × SemaphoreStatus) :=
  semaphore.processQueue.jetMsectionWqSize.map fun r =>
    ({ semaphore with processQueue := r.1 },
      { currentValue := semaphore.currentValue, maximumValue := semaphore.maximumValue,
        waitingProcesses := r.2 })

end Semaphore

/-- A semaphore with the processes that are blocked in `WAIT_SEMAPHORE`, and the numbers of
signals and of waits that have returned `NO_ERROR`. -/
structure SemaphoreSystem where
  semaphore : Semaphore
  blocked : Finset Nat
  signals : Nat
  waits : Nat

inductive SemaphoreInput where
  | waitSemaphore (process : Nat) (timeOut : Int) (start : WaitStart)
  | signalSemaphore (process : Nat)
  | getSemaphoreStatus (process : Nat)
  | resume (process : Nat)
  | process (input : ProcessInput)
  deriving DecidableEq, Repr

namespace SemaphoreSystem

def queue (s : SemaphoreSystem) : WaitQueue := s.semaphore.processQueue

/-- The process exists and is not blocked on the semaphore. -/
def Calls (s : SemaphoreSystem) (t : Nat) : Prop := t ∉ s.blocked ∧ t < s.queue.nthreadsUsed

instance (s : SemaphoreSystem) (t : Nat) : Decidable (s.Calls t) :=
  inferInstanceAs (Decidable (_ ∧ _))

def step (s : SemaphoreSystem) : SemaphoreInput → Option SemaphoreSystem
  | .waitSemaphore t timeOut start =>
    if s.Calls t then
      (s.semaphore.waitSemaphore t timeOut start).map fun r =>
        { s with
          semaphore := r.1
          blocked := if r.2 = none then insert t s.blocked else s.blocked
          waits := if r.2 = some .noError then s.waits + 1 else s.waits }
    else none
  | .signalSemaphore t =>
    if s.Calls t then
      s.semaphore.signalSemaphore.map fun r =>
        { s with
          semaphore := r.1
          signals := if r.2 = .noError then s.signals + 1 else s.signals }
    else none
  | .getSemaphoreStatus t =>
    if s.Calls t then s.semaphore.getSemaphoreStatus.map fun r => { s with semaphore := r.1 }
    else none
  | .resume t =>
    if t ∈ s.blocked ∧ (s.queue.threads t).state ≠ .waiting then
      some { s with
        semaphore := (s.semaphore.waitSemaphoreEnd t).1
        blocked := s.blocked.erase t
        waits := if (s.semaphore.waitSemaphoreEnd t).2 = .noError then s.waits + 1 else s.waits }
    else none
  | .process e =>
    (s.queue.processStep s.blocked e).map fun q =>
      { s with semaphore := { s.semaphore with processQueue := q } }

end SemaphoreSystem

end Chpok
