import Chpok.Arinc.Ports
import Chpok.Kernel.PortFrame
import Chpok.Kernel.PpcSpace
import Chpok.Kernel.SamplingFreshness

/-! New data of a sampling port: the answer of `SYS_SAMPLING_PORT_CHECK_IS_NEW_DATA`
(`libpok/arinc653/sampling.c`), and the component that polls with it
(`syspart/components/arinc/ARINC_send.c`). -/

namespace Chpok

/-- What the activity of the component passes on: nothing, or a message, unless a pointer of it
leads nowhere. -/
inductive Forwarding where
  | nothing
  | fault
  | message (m : Sample)
  deriving DecidableEq, Repr

/-- Whether the input is neither a read or a check that begins nor one that sends or withdraws. -/
def SamplingInput.isMiddle : SamplingInput → Bool
  | .sSend _ | .sClear | .rGet | .rCheck | .rClear => false
  | _ => true

namespace SamplingSystem

variable {s t : SamplingSystem}

/-- Whether a message has been sent since the last read or check and has not been withdrawn. -/
def sentSince (sent : Bool) : SamplingInput → Bool
  | .sSend _ => true
  | .rGet | .rCheck | .sClear => false
  | _ => sent

/-- The steps of others that cannot come in the middle of a read. -/
def interrupts : SamplingInput → Bool
  | .rGet | .rCheck | .rClear => true
  | _ => false

/-- `SYS_SAMPLING_PORT_CHECK_IS_NEW_DATA` on the receiving port of the channel -/
def checkIsNewData (s : SamplingSystem) : Nat :=
  (if s.channel.rCheckNewMessage.2 then PortErrno.ok else PortErrno.empty).code

/-- Whether a partition may write at the address `NULL`: its memory begins at
`POK_PARTITION_MEMORY_BASE`. -/
def nullWritable (partitionMemoryBase : BitVec 64) : Bool := partitionMemoryBase = 0

/-- The validity of a message that has been read is stored first. -/
def forward (validityWritable : Bool) : Option Sample → Forwarding
  | none => .nothing
  | some m => if validityWritable then .message m else .fault

/-- `READ_SAMPLING_MESSAGE` in `reading`, among steps of the sender. The validity of a message is
stored where the caller says. -/
def readSamplingMessage (validityWritable : Bool) (reading : List SamplingInput)
    (s : SamplingSystem) : Option (SamplingSystem × Forwarding) :=
  if reading.any interrupts then none
  else (Run.exec step s (.rGet :: reading)).bind fun t =>
    match t.receiver with
    | .returned result => some (t, forward validityWritable result)
    | _ => none

/-- `receive_msg_samping`, with what is done by others between the check and the read. It has no
variable for the validity and gives `NULL`. -/
def receiveMsgSamping (partitionMemoryBase : BitVec 64) (meanwhile reading : List SamplingInput)
    (s : SamplingSystem) : Option (SamplingSystem × Forwarding) :=
  (s.step .rCheck).bind fun t =>
    if s.checkIsNewData = 0 then some (t, .nothing)
    else (Run.exec step t meanwhile).bind
      (readSamplingMessage (nullWritable partitionMemoryBase) reading)

/-- `arinc_sender_activity` for a sampling port -/
def arincSenderActivity (partitionMemoryBase : BitVec 64) (meanwhile reading : List SamplingInput)
    (s : SamplingSystem) : Option (SamplingSystem × Forwarding) :=
  receiveMsgSamping partitionMemoryBase meanwhile reading s

theorem Stored.new_iff {channel : ChannelSampling} {a : Archive} (h : Stored channel a) :
    channel.readPos ≠ channel.readPosNext ↔ a.untaken ≠ [] := by
  constructor
  · intro hne hempty
    exact hne (h.taken hempty).symm
  · intro hne
    have hlast := List.getLast?_eq_some_getLast hne
    exact (h.untaken _ hlast).1.symm

/-- Such a step leaves alone what has been sent and what is due. -/
theorem step_frame {e : SamplingInput} (h : s.step e = some t) (hmiddle : e.isMiddle = true) :
    t.archive = s.archive ∧ t.due = s.due := by
  cases e with
  | sSend | sClear | rGet | rCheck | rClear => cases hmiddle
  | sGet message =>
    obtain ⟨slot, -, rfl⟩ := Option.map_eq_some_iff.mp h
    exact ⟨rfl, rfl⟩
  | sFill =>
    simp only [step, senderStep] at h
    split at h
    · obtain ⟨byte, -, rfl⟩ := Option.map_eq_some_iff.mp h
      exact ⟨rfl, rfl⟩
    · cases h
  | rSize =>
    simp only [step, receiverStep] at h
    split at h
    · split_ifs at h <;> obtain rfl := Option.some.inj h <;> exact ⟨rfl, rfl⟩
    · cases h
  | rTimestamp =>
    simp only [step, receiverStep] at h
    split at h
    · obtain ⟨slot, -, rfl⟩ := Option.map_eq_some_iff.mp h
      exact ⟨rfl, rfl⟩
    · cases h
  | rCopy | rReturn =>
    simp only [step, receiverStep] at h
    split at h
    · split_ifs at h
      obtain rfl := Option.some.inj h
      exact ⟨rfl, rfl⟩
    · cases h

theorem step_sent {now : Int} (h : s.step (.sSend now) = some t) :
    ∃ m, t.archive = s.archive.send m ∧ t.due = s.due := by
  simp only [step, senderStep] at h
  split at h
  · split_ifs at h
    obtain ⟨channel, -, rfl⟩ := Option.map_eq_some_iff.mp h
    exact ⟨_, rfl, rfl⟩
  · cases h

theorem step_untaken {e : SamplingInput} (h : s.step e = some t) :
    decide (t.archive.untaken ≠ []) = sentSince (decide (s.archive.untaken ≠ [])) e := by
  cases e with
  | sGet | sFill | rSize | rTimestamp | rCopy | rReturn =>
    rw [(step_frame h rfl).1]
    rfl
  | sSend now =>
    obtain ⟨m, harchive, -⟩ := step_sent h
    simp [harchive, Archive.send, sentSince]
  | sClear =>
    obtain rfl := Option.some.inj h
    simp [Archive.sClear, sentSince]
  | rGet | rCheck =>
    obtain rfl := Option.some.inj h
    simp [Archive.take_untaken, sentSince]
  | rClear =>
    obtain rfl := Option.some.inj h
    rfl

theorem exec_untaken {es : List SamplingInput} (h : Run.exec step s es = some t) :
    decide (t.archive.untaken ≠ []) = es.foldl sentSince (decide (s.archive.untaken ≠ [])) := by
  induction es generalizing s with
  | nil =>
    obtain rfl := Option.some.inj h
    rfl
  | cons e es ih =>
    obtain ⟨m, hm, ht⟩ := Run.exec_cons.mp h
    rw [ih ht, step_untaken hm, List.foldl_cons]

theorem rCheckNewMessage_iff {channel : ChannelSampling} {es : List SamplingInput}
    (h : Run.exec step (boot channel) es = some s) :
    s.channel.rCheckNewMessage.2 = es.foldl sentSince false := by
  have hs : s.Inv := Run.invariant (fun _ _ _ hs h => step_inv hs h) (boot_inv channel) h
  have huntaken := exec_untaken h
  have hboot : decide ((boot channel).archive.untaken ≠ []) = false := rfl
  rw [hboot] at huntaken
  rw [← huntaken, ChannelSampling.rCheckNewMessage]
  by_cases hnew : s.channel.readPos ≠ s.channel.readPosNext
  · rw [if_pos hnew]
    exact (decide_eq_true (hs.stored.new_iff.mp hnew)).symm
  · rw [if_neg hnew]
    exact (decide_eq_false fun hne => hnew (hs.stored.new_iff.mpr hne)).symm

theorem checkIsNewData_eq_zero_iff :
    s.checkIsNewData = 0 ↔ s.channel.rCheckNewMessage.2 = true := by
  unfold checkIsNewData
  cases s.channel.rCheckNewMessage.2 <;> simp [PortErrno.code]

/-- Whether nothing is sent or withdrawn -/
def keepsMessages : SamplingInput → Bool
  | .sSend _ | .sClear | .rClear => false
  | _ => true

theorem take_of_taken {a : Archive} (h : a.untaken = []) : a.take = a := by
  rw [Archive.take, h]
  rfl

theorem latest_of_taken {a : Archive} (h : a.untaken = []) : a.latest = a.current := by
  rw [Archive.latest, h, List.append_nil]
  cases a.current <;> rfl

theorem step_keeps {e : SamplingInput} (h : s.step e = some t) (hkeeps : keepsMessages e = true)
    (htaken : s.archive.untaken = []) : t.archive = s.archive := by
  cases e with
  | sSend | sClear | rClear => cases hkeeps
  | sGet | sFill | rSize | rTimestamp | rCopy | rReturn => exact (step_frame h rfl).1
  | rGet | rCheck =>
    obtain rfl := Option.some.inj h
    exact take_of_taken htaken

theorem exec_keeps {es : List SamplingInput} (h : Run.exec step s es = some t)
    (hkeeps : es.all keepsMessages = true) (htaken : s.archive.untaken = []) :
    t.archive = s.archive := by
  induction es generalizing s with
  | nil =>
    obtain rfl := Option.some.inj h
    rfl
  | cons e es ih =>
    obtain ⟨m, hm, ht⟩ := Run.exec_cons.mp h
    rw [List.all_cons, Bool.and_eq_true] at hkeeps
    have hstep := step_keeps hm hkeeps.1 htaken
    rw [ih ht hkeeps.2 (hstep ▸ htaken), hstep]

/-- The rest of a read does not change what is due to it. -/
theorem step_due {e : SamplingInput} (h : s.step e = some t) (hrest : interrupts e = false) :
    t.due = s.due := by
  cases e with
  | rGet | rCheck | rClear => cases hrest
  | sGet | sFill | rSize | rTimestamp | rCopy | rReturn => exact (step_frame h rfl).2
  | sSend =>
    obtain ⟨-, -, hdue⟩ := step_sent h
    exact hdue
  | sClear =>
    obtain rfl := Option.some.inj h
    rfl

theorem exec_due {es : List SamplingInput} (h : Run.exec step s es = some t)
    (hrest : es.any interrupts = false) : t.due = s.due := by
  induction es generalizing s with
  | nil =>
    obtain rfl := Option.some.inj h
    rfl
  | cons e es ih =>
    obtain ⟨m, hm, ht⟩ := Run.exec_cons.mp h
    rw [List.any_cons, Bool.or_eq_false_iff] at hrest
    rw [ih ht hrest.2, step_due hm hrest.1]

/-- A read passes on what was there when it began. -/
theorem readSamplingMessage_latest {writable : Bool} {reading : List SamplingInput}
    {forwarding : Forwarding} (hs : s.Inv)
    (h : s.readSamplingMessage writable reading = some (t, forwarding)) :
    forwarding = forward writable s.archive.latest := by
  unfold readSamplingMessage at h
  split_ifs at h with hrest
  obtain ⟨u, hu, h⟩ := Option.bind_eq_some_iff.mp h
  have hinv : u.Inv := Run.invariant (fun _ _ _ hs h => step_inv hs h) hs hu
  obtain ⟨got, hgot, hrun⟩ := Run.exec_cons.mp hu
  have hdue : u.due = s.archive := by
    rw [exec_due hrun (Bool.eq_false_of_not_eq_true hrest)]
    obtain rfl := Option.some.inj hgot
    rfl
  have hreceiver := hinv.receiver
  split at h
  · next result hreturned =>
    rw [hreturned] at hreceiver
    obtain rfl := (Prod.mk.inj (Option.some.inj h)).2
    rw [show result = u.due.latest from hreceiver, hdue]
  · cases h

/-- Without news the component passes on the message that the last read or check has taken, if it
can store the validity at `NULL`. -/
theorem arincSenderActivity_stale {base : BitVec 64} {meanwhile reading : List SamplingInput}
    {forwarding : Forwarding} (hs : s.Inv) (htaken : s.archive.untaken = [])
    (hkeeps : meanwhile.all keepsMessages = true)
    (h : s.arincSenderActivity base meanwhile reading = some (t, forwarding)) :
    forwarding = forward (nullWritable base) s.archive.current := by
  unfold arincSenderActivity receiveMsgSamping at h
  obtain ⟨checked, hchecked, h⟩ := Option.bind_eq_some_iff.mp h
  have hnone : ¬ s.checkIsNewData = 0 := by
    rw [checkIsNewData_eq_zero_iff, ChannelSampling.rCheckNewMessage,
      if_neg fun hne => hs.stored.new_iff.mp hne htaken]
    exact Bool.false_ne_true
  rw [if_neg hnone] at h
  obtain ⟨before, hbefore, h⟩ := Option.bind_eq_some_iff.mp h
  have harchive : checked.archive = s.archive := step_keeps hchecked rfl htaken
  have hinv : before.Inv :=
    Run.invariant (fun _ _ _ hs h => step_inv hs h) (step_inv hs hchecked) hbefore
  have hkept : before.archive = s.archive := by
    rw [exec_keeps hbefore hkeeps (harchive ▸ htaken), harchive]
  rw [readSamplingMessage_latest hinv h, hkept, latest_of_taken htaken]

end SamplingSystem

namespace PartitionPorts

/-- The identifier is that of a port which has been created to receive from the channel. -/
structure Receives (ports : PartitionPorts) (id : Int) (channel : ChannelSampling) : Prop where
  live : ports.Live .sampling (corePortId id)
  direction : (ports.portsSampling (corePortId id)).direction = .incoming
  channel : (ports.portsSampling (corePortId id)).channel = channel

theorem Receives.check {ports : PartitionPorts} {id : Int} {s : SamplingSystem}
    (h : ports.Receives id s.channel) : ∃ t,
      (ports.samplingPortCheckIsNewData id).outcome = some (t, some (.flag s.checkIsNewData)) ∧
        t.Receives id s.channel.rCheckNewMessage.1 := by
  obtain ⟨⟨hlt, hcreated⟩, hdirection, hchannel⟩ := h
  have hcall : (ports.samplingPortCheckIsNewData id).outcome =
      some (ports.setSampling (corePortId id) { ports.portsSampling (corePortId id) with
        channel := s.channel.rCheckNewMessage.1 }, some (.flag s.checkIsNewData)) := by
    have hle : ¬ ports.nportsSampling < corePortId id := Nat.not_lt.mpr (Nat.le_of_lt hlt)
    have hcreated : (ports.portsSampling (corePortId id)).isCreated = true := hcreated
    rw [samplingPortCheckIsNewData, portSamplingCheck, withPort, if_neg hle, if_pos hcreated]
    simp [PortCall.reply, hdirection, hchannel, SamplingSystem.checkIsNewData]
  refine ⟨_, hcall, ⟨hlt, ?_⟩, ?_, ?_⟩
  all_goals simp [isCreated, setSampling]
  · exact hcreated
  · exact hdirection

end PartitionPorts

namespace SamplingSystem

/-- In whatever order messages are sent and read and the port is checked, the check says the
opposite of whether there is something new. The component passes on nothing if there is, and
otherwise, as soon as there has been a message, that one again; where it may not write at `NULL`
it fails there. -/
theorem new_data_check {channel : ChannelSampling} {es : List SamplingInput} {s : SamplingSystem}
    (hrun : Run.exec step (boot channel) es = some s) {ports : PartitionPorts} {id : Int}
    (hport : ports.Receives id s.channel) :
    (∃ t answer, (ports.samplingPortCheckIsNewData id).outcome = some (t, some (.flag answer)) ∧
      ¬ (answer ≠ 0 ↔ es.foldl sentSince false = true)) ∧
    ∀ base meanwhile reading t forwarding,
      s.arincSenderActivity base meanwhile reading = some (t, forwarding) →
        (es.foldl sentSince false = true → forwarding = .nothing) ∧
        (es.foldl sentSince false = false → meanwhile.all keepsMessages = true →
          forwarding = forward (nullWritable base) s.archive.current) := by
  have hright := rCheckNewMessage_iff hrun
  refine ⟨?_, fun base meanwhile reading t forwarding h => ⟨fun hsent => ?_, fun hquiet hkeeps => ?_⟩⟩
  · obtain ⟨t, ht, -⟩ := hport.check
    refine ⟨t, s.checkIsNewData, ht, ?_⟩
    rw [← hright, Ne, checkIsNewData_eq_zero_iff]
    exact not_iff_self
  · unfold arincSenderActivity receiveMsgSamping at h
    obtain ⟨u, -, hend⟩ := Option.bind_eq_some_iff.mp h
    rw [if_pos (checkIsNewData_eq_zero_iff.mpr (hright.trans hsent))] at hend
    exact (Prod.mk.inj (Option.some.inj hend)).2.symm
  · have hs : s.Inv := Run.invariant (fun _ _ _ hs h => step_inv hs h) (boot_inv channel) hrun
    have htaken : s.archive.untaken = [] := by
      have huntaken := exec_untaken hrun
      rw [show decide ((boot channel).archive.untaken ≠ []) = false from rfl, hquiet] at huntaken
      exact not_not.mp (of_decide_eq_false huntaken)
    exact arincSenderActivity_stale hs htaken hkeeps h

/-- A partition that receives from the channel at its first port. -/
def receivingPorts (channel : ChannelSampling) : PartitionPorts where
  portsQueuing _ := ⟨[], 0, .recv, .fifo, false⟩
  nportsQueuing := 0
  channels _ := ⟨8, ⟨1, 0, 0, false, 0⟩, ⟨1, 0, 0, false, 0⟩, 2, fun _ _ => 0, fun _ => 0, 0,
    .senderBlock, false⟩
  peerGeneration _ := 1
  raised := []
  portsSampling _ := ⟨channel, 8, .incoming, true, 1, false⟩
  nportsSampling := 1
  generation := 1
  normal := true
  threads _ := ⟨1, 0, .ok, none⟩
  currentThread := 1
  waitingAllowed := true

theorem new_data_check_sent : ∃ s,
    Run.exec step (boot blankChannel) (sendByte 1 10) = some s ∧
      ∃ t answer, ((receivingPorts s.channel).samplingPortCheckIsNewData 1).outcome =
        some (t, some (.flag answer)) ∧ ¬ (answer ≠ 0 ↔ True) := by
  have hran : (Run.exec step (boot blankChannel) (sendByte 1 10)).isSome = true := rfl
  obtain ⟨s, hs⟩ := Option.isSome_iff_exists.mp hran
  have hport : (receivingPorts s.channel).Receives 1 s.channel :=
    ⟨⟨by simp [PartitionPorts.nports, receivingPorts, corePortId, NarrowName.entry], rfl⟩, rfl, rfl⟩
  obtain ⟨⟨t, answer, houtcome, hwrong⟩, -⟩ := new_data_check hs hport
  exact ⟨s, hs, t, answer, houtcome, fun h => hwrong ⟨fun _ => rfl, fun _ => h.mpr trivial⟩⟩

/-- A message has been sent and the check denies it; nothing more is sent and it says yes. On x86
the component does not pass the message on when it is new, and then again and again. -/
theorem new_data_check_denies :
    (∃ s, Run.exec step (boot blankChannel) (sendByte 1 10) = some s ∧
      (((receivingPorts s.channel).samplingPortCheckIsNewData 1).outcome.map Prod.snd =
        some (some (.flag 0)) ∧ (sendByte 1 10).foldl sentSince false = true)) ∧
    ∃ s, Run.exec step (boot blankChannel) (sendByte 1 10 ++ [.rCheck]) = some s ∧
      (((receivingPorts s.channel).samplingPortCheckIsNewData 1).outcome.map Prod.snd =
        some (some (.flag 308)) ∧
          (sendByte 1 10 ++ [SamplingInput.rCheck]).foldl sentSince false = false ∧
          (s.arincSenderActivity partitionMemoryBase [] [.rSize, .rTimestamp, .rCopy, .rReturn]).map
            Prod.snd = some (.message ⟨[1], 10⟩) ∧
          (s.arincSenderActivity PpcSpace.partitionMemoryBase []
            [.rSize, .rTimestamp, .rCopy, .rReturn]).map Prod.snd = some .fault) :=
  ⟨⟨_, rfl, rfl, rfl⟩, _, rfl, rfl, rfl, rfl, rfl⟩

end SamplingSystem

end Chpok
