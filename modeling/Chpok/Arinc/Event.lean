import Chpok.Arinc.ProcessQueue
import Mathlib.Data.Finset.Erase

/-! Events (`libpok/arinc653/event.c`). A call that begins to wait has no return code yet. -/

namespace Chpok

/-- `struct arinc_event`, without its name and its section; `eventState` stands for `UP`. -/
structure ArincEvent where
  eventState : Bool
  processQueue : WaitQueue

/-- `EVENT_STATUS_TYPE` -/
structure EventStatus where
  eventState : Bool
  waitingProcesses : Nat
  deriving DecidableEq, Repr

namespace ArincEvent

/-- `SET_EVENT` -/
def setEvent (event : ArincEvent) : Option (ArincEvent × ReturnCode) :=
  (event.processQueue.broadcast (fun _ _ => ()) ()).map fun r =>
    ({ event with eventState := true, processQueue := r.2 }, .noError)

/-- `RESET_EVENT` -/
def resetEvent (event : ArincEvent) : ArincEvent := { event with eventState := false }

/-- `WAIT_EVENT`, up to the wait. -/
def waitEvent (event : ArincEvent) (t : Nat) (timeOut : Int) (start : WaitStart) :
    Option (ArincEvent × Option ReturnCode) :=
  if event.eventState then some (event, some .noError)
  else if timeOut = 0 then some (event, some .notAvailable)
  else
    (event.processQueue.queueAndWait t .priority start).map fun r =>
      ({ event with processQueue := r.1 }, r.2)

/-- `WAIT_EVENT`, after the wait. -/
def waitEventEnd (event : ArincEvent) (t : Nat) : ArincEvent × ReturnCode :=
  ({ event with processQueue := (event.processQueue.waitReturn t).1 },
    (event.processQueue.waitReturn t).2)

/-- `GET_EVENT_STATUS` -/
def getEventStatus (event : ArincEvent) : Option (ArincEvent × EventStatus) :=
  event.processQueue.jetMsectionWqSize.map fun r =>
    ({ event with processQueue := r.1 }, ⟨event.eventState, r.2⟩)

end ArincEvent

/-- An event with the processes that are blocked in `WAIT_EVENT`. -/
structure EventSystem where
  event : ArincEvent
  blocked : Finset Nat

inductive EventInput where
  | setEvent (process : Nat)
  | resetEvent (process : Nat)
  | waitEvent (process : Nat) (timeOut : Int) (start : WaitStart)
  | getEventStatus (process : Nat)
  | resume (process : Nat)
  | process (input : ProcessInput)
  deriving DecidableEq, Repr

namespace EventSystem

def queue (s : EventSystem) : WaitQueue := s.event.processQueue

/-- The process exists and is not blocked on the event. -/
def Calls (s : EventSystem) (t : Nat) : Prop := t ∉ s.blocked ∧ t < s.queue.nthreadsUsed

instance (s : EventSystem) (t : Nat) : Decidable (s.Calls t) :=
  inferInstanceAs (Decidable (_ ∧ _))

def step (s : EventSystem) : EventInput → Option EventSystem
  | .setEvent t =>
    if s.Calls t then s.event.setEvent.map fun r => { s with event := r.1 } else none
  | .resetEvent t => if s.Calls t then some { s with event := s.event.resetEvent } else none
  | .waitEvent t timeOut start =>
    if s.Calls t then
      (s.event.waitEvent t timeOut start).map fun r =>
        { s with
          event := r.1
          blocked := if r.2 = none then insert t s.blocked else s.blocked }
    else none
  | .getEventStatus t =>
    if s.Calls t then s.event.getEventStatus.map fun r => { s with event := r.1 } else none
  | .resume t =>
    if t ∈ s.blocked ∧ (s.queue.threads t).state ≠ .waiting then
      some { s with event := (s.event.waitEventEnd t).1, blocked := s.blocked.erase t }
    else none
  | .process e =>
    (s.queue.processStep s.blocked e).map fun q => { s with event := { s.event with processQueue := q } }

end EventSystem

end Chpok
