import Chpok.Config.Deployment
import Chpok.Kernel.PortCalls

/-! The calls that create ports go by the checks that the tables are held against. -/

namespace Chpok

namespace Config

def CreateErrno.portErrno : CreateErrno → PortErrno
  | .ok => .ok
  | .einval => .einval

/-- The direction of a queuing port of the tables -/
def side (directionOut : Bool) : Side := if directionOut then .send else .recv

/-- The direction of a sampling port of the tables -/
def samplingDirection (directionOut : Bool) : PortDirection :=
  if directionOut then .outgoing else .incoming

end Config

namespace PartitionPorts

open Config

variable {s : PartitionPorts} {id : Nat}

/-- A port that is not created yet, in an `INIT` mode, with the channel of the tables -/
theorem portQueuingCreate_eq {entry : QueuingEntry} {directionOut : Bool}
    (hport : (s.portsQueuing id).isCreated = false) (hinit : s.normal = false)
    (hdirection : (s.portsQueuing id).direction = side directionOut)
    (hsize : ((s.channels (s.portsQueuing id).channel).maxMessageSize : Int) = entry.maxMessageSize)
    (hrecv : ((s.channels (s.portsQueuing id).channel).recv.maxNbMessage : Int) =
      entry.recvMaxNbMessage)
    (hsend : ((s.channels (s.portsQueuing id).channel).send.maxNbMessage : Int) =
      entry.sendMaxNbMessage)
    (messageSize maxNbMessage : Nat) (direction : Bool) (discipline : QueuingDiscipline) :
    (s.portQueuingCreate (some id) messageSize maxNbMessage (side direction) discipline).2.1 =
      (queuingCreate entry directionOut messageSize maxNbMessage direction).portErrno := by
  have hsides : side direction = side directionOut ↔ direction = directionOut := by
    cases direction <;> cases directionOut <;> decide
  unfold portQueuingCreate queuingCreate
  simp only [hport, hinit, hdirection, ← hsize, ← hrecv, ← hsend, ne_eq, hsides, Nat.cast_inj,
    Bool.false_eq_true, if_false]
  split_ifs <;> simp_all [side, CreateErrno.portErrno]

theorem portSamplingCreate_eq {maxMessageSize : Int} {directionOut : Bool}
    (hport : (s.portsSampling id).isCreated = false) (hinit : s.normal = false)
    (hdirection : (s.portsSampling id).direction = samplingDirection directionOut)
    (hsize : ((s.portsSampling id).maxMessageSize : Int) = maxMessageSize) (size : Nat)
    (direction : Bool) (refresh : Int) :
    (s.portSamplingCreate (some id) size (samplingDirection direction) refresh).2.1 =
      (samplingCreate maxMessageSize directionOut size direction refresh).portErrno := by
  have hdirections : samplingDirection direction = samplingDirection directionOut ↔
      direction = directionOut := by
    cases direction <;> cases directionOut <;> decide
  have hrefresh : (timeIsInfinity refresh = true ∨ refresh = 0) ↔ refresh ≤ 0 := by
    unfold timeIsInfinity
    rw [decide_eq_true_eq]
    omega
  unfold portSamplingCreate samplingCreate SamplingPort.create
  simp only [hport, hinit, hdirection, ← hsize, ne_eq, hdirections, hrefresh, Nat.cast_inj,
    Bool.false_eq_true, if_false]
  split_ifs <;> rfl

end PartitionPorts

end Chpok
