import Chpok.Library.Run

/-! The queue of delayed events (`kernel/core/delayed_event.c`). A pointer to a link is the
place it is at: `none` stands for the field `first_event` of the queue itself, an event for
its own `next_event`. -/

namespace Chpok

variable {E P : Type}

/-- `struct delayed_event`. There is no `pprev_event` when the event is not in the queue. -/
structure EventCell (E P : Type) where
  nextEvent : Option E
  pprevEvent : Option (Option E)
  timepoint : Int
  handlerId : UInt16
  processEvent : P

/-- `struct delayed_event_queue`, with the events of the partition -/
structure DelayedEventQueue (E P : Type) where
  firstEvent : Option E
  events : E → EventCell E P

/-- A call of `process_event`, and the events that it has removed. -/
structure Firing (E P : Type) where
  event : E
  handlerId : UInt16
  processEvent : P
  removed : List E
  deriving DecidableEq

namespace DelayedEventQueue

variable [DecidableEq E]

/-- `delayed_event_queue_init`, and `delayed_event_init` of every event -/
def init (events : E → EventCell E P) : DelayedEventQueue E P :=
  { firstEvent := none, events := fun e => { events e with pprevEvent := none } }

def updateEvent (q : DelayedEventQueue E P) (e : E) (f : EventCell E P → EventCell E P) :
    DelayedEventQueue E P :=
  { q with events := Function.update q.events e (f (q.events e)) }

def nextOf (q : DelayedEventQueue E P) : Option E → Option E
  | none => q.firstEvent
  | some e => (q.events e).nextEvent

def setNext (q : DelayedEventQueue E P) (place value : Option E) : DelayedEventQueue E P :=
  match place with
  | none => { q with firstEvent := value }
  | some e => q.updateEvent e fun cell => { cell with nextEvent := value }

def setPprev (q : DelayedEventQueue E P) (e : E) (place : Option (Option E)) :
    DelayedEventQueue E P :=
  q.updateEvent e fun cell => { cell with pprevEvent := place }

/-- `if(next_event) next_event->pprev_event = place` -/
def backLink (q : DelayedEventQueue E P) (next : Option E) (place : Option E) :
    DelayedEventQueue E P :=
  match next with
  | none => q
  | some n => q.setPprev n (some place)

/-- `delayed_event_remove` -/
def delayedEventRemove (q : DelayedEventQueue E P) (event : E) : DelayedEventQueue E P :=
  match (q.events event).pprevEvent with
  | none => q
  | some place =>
    let next := (q.events event).nextEvent
    ((q.setNext place next).backLink next place).setPprev event none

/-- The loop of `delayed_event_add`, which finds the place of insertion. -/
def insertionPoint (q : DelayedEventQueue E P) (timepoint : Int) : Nat → Option E → Option (Option E)
  | 0, _ => none
  | fuel + 1, place =>
    match q.nextOf place with
    | none => some place
    | some next =>
      if (q.events next).timepoint > timepoint then some place
      else q.insertionPoint timepoint fuel (some next)

/-- `delayed_event_add` -/
def delayedEventAdd (fuel : Nat) (q : DelayedEventQueue E P) (event : E) (timepoint : Int)
    (handlerId : UInt16) (processEvent : P) : Option (DelayedEventQueue E P) :=
  let q := (q.delayedEventRemove event).updateEvent event fun cell =>
    { cell with timepoint, handlerId, processEvent }
  (q.insertionPoint timepoint fuel none).map fun place =>
    let next := q.nextOf place
    ((q.updateEvent event fun cell =>
      { cell with nextEvent := next, pprevEvent := some place }).setNext place
        (some event)).backLink next (some event)

/-- The loop of `delayed_event_queue_check`. What a callback removes may depend on all the
calls before it. -/
def delayedEventQueueCheck (callback : List (Firing E P) → P → UInt16 → List E) (time : Int) :
    Nat → DelayedEventQueue E P → List (Firing E P) →
      Option (DelayedEventQueue E P × List (Firing E P))
  | 0, _, _ => none
  | fuel + 1, q, fired =>
    match q.firstEvent with
    | none => some (q, fired)
    | some event =>
      let cell := q.events event
      if cell.timepoint > time then some (q, fired)
      else
        let q := ((q.setNext none cell.nextEvent).backLink cell.nextEvent none).setPprev event none
        let removed := callback fired cell.processEvent cell.handlerId
        delayedEventQueueCheck callback time fuel (removed.foldl delayedEventRemove q)
          (fired ++ [⟨event, cell.handlerId, cell.processEvent, removed⟩])

/-- `delayed_event_queue_get_check_time` -/
def getCheckTime (q : DelayedEventQueue E P) : Int :=
  match q.firstEvent with
  | none => 0
  | some event => (q.events event).timepoint

end DelayedEventQueue

inductive QueueCall (E P : Type) where
  | add (event : E) (timepoint : Int) (handlerId : UInt16) (processEvent : P)
  | remove (event : E)
  | check (callback : List (Firing E P) → P → UInt16 → List E) (time : Int)

/-- What an event was added with, and as the how-many-th. -/
structure Added (P : Type) where
  timepoint : Int
  stamp : Nat
  handlerId : UInt16
  processEvent : P

/-- The queue with what was added last and neither removed nor fired, the number of calls
that add an event, and the firings so far. -/
structure QueueHistory (E P : Type) where
  queue : DelayedEventQueue E P
  latest : E → Option (Added P)
  adds : Nat
  fired : List (Firing E P)

namespace QueueHistory

variable [DecidableEq E]

def start (events : E → EventCell E P) : QueueHistory E P :=
  { queue := .init events, latest := fun _ => none, adds := 0, fired := [] }

/-- The event is fired, or removed by the callback of one that is. -/
def Ended (fired : List (Firing E P)) (e : E) : Prop :=
  ∃ f ∈ fired, e = f.event ∨ e ∈ f.removed

instance (fired : List (Firing E P)) (e : E) : Decidable (Ended fired e) :=
  inferInstanceAs (Decidable (∃ f ∈ fired, e = f.event ∨ e ∈ f.removed))

def step (fuel : Nat) (s : QueueHistory E P) : QueueCall E P → Option (QueueHistory E P)
  | .add event timepoint handlerId processEvent =>
    (s.queue.delayedEventAdd fuel event timepoint handlerId processEvent).map fun queue =>
      { s with
        queue
        latest := Function.update s.latest event (some ⟨timepoint, s.adds, handlerId, processEvent⟩)
        adds := s.adds + 1 }
  | .remove event => some { s with
      queue := s.queue.delayedEventRemove event
      latest := Function.update s.latest event none }
  | .check callback time =>
    (s.queue.delayedEventQueueCheck callback time fuel []).map fun r =>
      { s with
        queue := r.1
        latest := fun e => if Ended r.2 e then none else s.latest e
        fired := s.fired ++ r.2 }

end QueueHistory

end Chpok
