import Chpok.Kernel.ArincCalls
import Chpok.Kernel.ChannelSampling

/-! The calls that add times (`kernel/core/thread.c`, `kernel/core/thread_internal.[ch]`,
`kernel/core/partition_arinc.c` and `kernel/core/port.c`), and the reads of sampling ports. -/

namespace Chpok

/-- `POK_PORT_DIRECTION_*` -/
inductive PortDirection where
  | incoming
  | outgoing
  deriving DecidableEq, Repr

/-- What `pok_port_sampling_create` and `pok_port_sampling_read` return. -/
inductive SamplingErrno where
  | ok
  | exists
  | einval
  | port
  | direction
  | empty
  deriving DecidableEq, Repr

/-- `pok_port_sampling_t`, with the size of the messages of its channel -/
structure SamplingPort where
  channel : ChannelSampling
  maxMessageSize : Nat
  direction : PortDirection
  isCreated : Bool
  refreshPeriod : Int
  lastMessageValidity : Bool

/-- The times of a thread are values of their types. A delay is one that START accepts. -/
structure SchedThread.Words (th : SchedThread) : Prop where
  period : SignedWord.InRange th.period
  timeCapacity : SignedWord.InRange th.timeCapacity
  nextActivation : 0 ≤ th.nextActivation ∧ th.nextActivation < 2 ^ 64
  delayedTime : SignedWord.InRange th.delayedTime
  delayed : 0 ≤ th.delayedTime

/-- The code that adds times: the system calls about them, with the current time and what
`get_next_periodic_processing_start` returns, and one pass of the loop of
`partition_set_mode_normal`. -/
inductive TimedCall where
  | sleep (time now : Int)
  | suspend (time now : Int)
  | portWait (port : Nat) (sending : Bool) (timeout now : Int) (byPriority : Bool)
  | msectionWait (sec : Nat) (timeout now : Int)
  | delayedStart (id : Nat) (delay now processingStart : Int)
  | endPeriod
  | replenish (budget now : Int)
  | release (t : Nat) (now processingStart : Int)
  deriving DecidableEq, Repr

/-- All times of a call are values of `pok_time_t`. -/
def TimedCall.Words : TimedCall → Prop
  | .sleep time now | .suspend time now | .portWait _ _ time now _ | .msectionWait _ time now
  | .replenish time now | .release _ time now =>
    SignedWord.InRange time ∧ SignedWord.InRange now
  | .delayedStart _ delay now processingStart =>
    SignedWord.InRange delay ∧ SignedWord.InRange now ∧ SignedWord.InRange processingStart
  | .endPeriod => True

/-- What the call of thread `c` does with the given arithmetic of times. -/
def TimedCall.result (arith : TimeArith) (p : ArincPartition) (c : Nat) :
    TimedCall → Except PartitionExit (ArincPartition × PokErrno)
  | .sleep time now => p.pokThreadSleep c time now arith
  | .suspend time now => p.pokThreadSuspend c time now arith
  | .portWait port sending timeout now byPriority =>
    p.pokPortWait c port sending timeout now byPriority arith
  | .msectionWait sec timeout now => p.msectionWait c sec timeout now arith
  | .delayedStart id delay now start => p.pokThreadDelayedStart id delay now start arith
  | .endPeriod => p.pokSchedEndPeriod c arith
  | .replenish budget now => p.pokSchedReplenish c budget now arith
  | .release t now start => ArincPartition.returning .ok (p.releaseThread now start t arith)

/-- What the calls compute. -/
abbrev TimedCall.kernel (p : ArincPartition) (c : Nat) (call : TimedCall) :
    Except PartitionExit (ArincPartition × PokErrno) :=
  call.result .kernel p c

namespace SamplingPort

/-- The checks of `pok_port_sampling_create` on a port that is configured, and what it sets.
The message of the channel is cleared. -/
def create (port : SamplingPort) (size : Nat) (direction : PortDirection) (refresh : Int) :
    SamplingPort × SamplingErrno :=
  if port.isCreated then (port, .exists)
  else if size ≠ port.maxMessageSize then (port, .einval)
  else if direction ≠ port.direction then (port, .einval)
  else if timeIsInfinity refresh ∨ refresh = 0 then (port, .einval)
  else
    ({ port with
      isCreated := true
      refreshPeriod := refresh
      lastMessageValidity := false
      channel := if port.direction = .outgoing then port.channel.sClearMessage
        else port.channel.rClearMessage }, .ok)

/-- `pok_port_sampling_read`. The message is read in one step here; its validity is what
counts. -/
def read (port : SamplingPort) (now : Int) (arith : TimeArith := .kernel) :
    SamplingPort × SamplingErrno :=
  if ¬ port.isCreated then (port, .port)
  else if port.direction ≠ .incoming then (port, .direction)
  else
    let (channel, slot) := port.channel.rGetMessage
    if channel.messageSizes slot = 0 then
      ({ port with channel, lastMessageValidity := false }, .empty)
    else
      ({ port with
        channel
        lastMessageValidity := decide (now ≤ arith.add (channel.timestamps slot) port.refreshPeriod) }, .ok)

end SamplingPort

end Chpok
