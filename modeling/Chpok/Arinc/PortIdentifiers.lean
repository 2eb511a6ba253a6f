import Chpok.Arinc.Ports
import Chpok.Kernel.PortFrame
import Chpok.Library.Run

/-! Identifiers of ports. Every service looks the 8 bits of the identifier up in one table, and
whatever it does, it does to the entry it has found. -/

namespace Chpok

namespace PortService

variable {s : PartitionPorts} {service : PortService} {id : Int}

/-- The library itself refuses the arguments. -/
def Refuses (id : Int) : PortService → Prop
  | .clearQueuing | .checkSampling => False
  | .writeSampling _ length _ => length ≤ 0 ∨ id ≤ 0
  | _ => id ≤ 0

instance (id : Int) : DecidablePred (Refuses id) := by
  intro service
  cases service <;> unfold Refuses <;> infer_instance

/-- The error for an identifier of no port. The check can return no error but that of the
kernel. -/
def invalidPort : PortService → PortReply
  | .checkSampling => .flag PortErrno.port.code
  | _ => .returned .invalidParam .nothing

/-- An error of the kernel about the port becomes that error. -/
def ReportsPort : PortService → Prop
  | .sendQueuing .. | .receiveQueuing .. | .readSampling .. => False
  | _ => True

instance : DecidablePred ReportsPort := by
  intro service
  cases service <;> unfold ReportsPort <;> infer_instance

theorem call_refused (h : service.Refuses id) :
    service.call s id = ⟨[], none, some (s, some (.returned .invalidParam .nothing))⟩ ∧
      service.invalidPort = .returned .invalidParam .nothing := by
  cases service with
  | clearQueuing => exact h.elim
  | checkSampling => exact h.elim
  | writeSampling data length now =>
    refine ⟨?_, rfl⟩
    rw [call, PartitionPorts.writeSamplingMessage]
    obtain hlength | hid := h
    · rw [if_pos hlength, PartitionPorts.refused]
    · rw [if_pos hid, ite_self, PartitionPorts.refused]
  | _ => exact ⟨if_pos h, rfl⟩

theorem call_passed (h : ¬ service.Refuses id) :
    service.call s id = (service.core s (corePortId id)).reply service.reply := by
  cases service with
  | clearQueuing => rfl
  | checkSampling => rfl
  | writeSampling data length now =>
    obtain ⟨hlength, hid⟩ := not_or.mp h
    exact (if_neg hlength).trans (if_neg hid)
  | _ => exact if_neg h

theorem core_eq (s : PartitionPorts) (id : Nat) (service : PortService) :
    ∃ rest, PartitionPorts.Local service.table s rest ∧ service.core s id =
      s.withPort (s.nports service.table) (s.isCreated service.table) id rest := by
  cases service with
  | sendQueuing => exact s.portQueuingSendCall_eq ..
  | receiveQueuing timeout dataAccess lenAccess =>
    exact s.portQueuingReceiveCall_eq id dataAccess lenAccess (some timeout)
  | queuingStatus => exact s.portQueuingStatus_eq ..
  | clearQueuing => exact s.portQueuingClear_eq ..
  | writeSampling => exact s.portSamplingWrite_eq ..
  | readSampling => exact s.portSamplingRead_eq ..
  | samplingStatus => exact s.portSamplingStatus_eq ..
  | checkSampling => exact s.portSamplingCheck_eq ..

theorem reply_port : service.reply (.port, .nothing) = service.invalidPort ↔
    service.ReportsPort := by
  cases service <;> simp [reply, invalidPort, ReportsPort, PortErrno.sendCode,
    PortErrno.receiveCode, PortErrno.statusCode, PortErrno.clearCode, PortErrno.writeCode,
    PortErrno.readCode]

/-- The identifier means what the creations have said it does: the table is not left, the port
with this identifier is the one operated on, and without such a port the call is refused with
the error for it. Arguments that are refused before the identifier is read do not count. -/
structure Respects (h : PortHistory) (service : PortService) (id : Int) : Prop where
  inTable : ∀ i ∈ (service.call h.ports id).touched, i < h.ports.nports service.table
  finds : ¬ service.Refuses id → ∀ port, (service.table, id, port) ∈ h.returned →
    (service.call h.ports id).port = some port ∧
      ∀ t reply, (service.call h.ports id).outcome = some (t, reply) →
        h.ports.OnlyPort service.table port t
  refuses : (∀ port, (service.table, id, port) ∉ h.returned) →
    (service.call h.ports id).port = none ∧
      (service.call h.ports id).outcome = some (h.ports, some service.invalidPort)

/-- The library refuses the call, or the identifier that reaches the kernel is not the size of
the table and no other name of a port, and the service knows the error about it if it is the
name of none. -/
def Sound (s : PartitionPorts) (service : PortService) (id : Int) : Prop :=
  service.Refuses id ∨
    corePortId id ≠ s.nports service.table ∧ NarrowName.Unshared 256 (s.Live service.table) id ∧
      (s.Live service.table (corePortId id) ∨ service.ReportsPort)

end PortService

namespace PartitionPorts

variable {s : PartitionPorts} {table : PortTable} {id : Nat}
  {rest : Nat → Option (PartitionPorts × Option (PortErrno × PortData))}

instance (s : PartitionPorts) (table : PortTable) : DecidablePred (s.Live table) := by
  intro id
  unfold Live
  infer_instance

theorem withPort_port (rest : Nat → Option (PartitionPorts × Option (PortErrno × PortData)))
    (hid : id ≠ s.nports table) :
    (s.withPort (s.nports table) (s.isCreated table) id rest).port =
      if s.Live table id then some id else none := by
  unfold withPort
  by_cases hlive : s.Live table id
  · have hlt := hlive.1
    rw [if_pos hlive, if_neg (by omega), if_pos hlive.2]
  · rw [if_neg hlive]
    by_cases hlt : s.nports table < id
    · rw [if_pos hlt]
    · rw [if_neg hlt, if_neg (fun hcreated => hlive ⟨by omega, hcreated⟩)]

theorem withPort_touched (s : PartitionPorts) (table : PortTable) (id : Nat)
    (rest : Nat → Option (PartitionPorts × Option (PortErrno × PortData))) :
    (∀ i ∈ (s.withPort (s.nports table) (s.isCreated table) id rest).touched,
      i < s.nports table) ↔ id ≠ s.nports table := by
  unfold withPort
  split_ifs <;> simp <;> omega

theorem withPort_outcome {c : Nat}
    (h : (s.withPort (s.nports table) (s.isCreated table) id rest).port = some c) :
    (s.withPort (s.nports table) (s.isCreated table) id rest).outcome = rest c := by
  unfold withPort at h ⊢
  split_ifs at h ⊢
  cases h
  rfl

theorem withPort_absent
    (h : (s.withPort (s.nports table) (s.isCreated table) id rest).port = none) :
    (s.withPort (s.nports table) (s.isCreated table) id rest).outcome =
      some (s, some (.port, .nothing)) := by
  unfold withPort at h ⊢
  split_ifs at h ⊢ <;> rfl

end PartitionPorts

namespace PortHistory

/-- The identifiers that have been returned are those of the ports that exist. -/
def Noted (h : PortHistory) : Prop :=
  ∀ table id port, (table, id, port) ∈ h.returned ↔
    h.ports.Live table port ∧ NarrowName.ofEntry 256 port = id

end PortHistory

namespace PortService

variable {h : PortHistory} {service : PortService} {id : Int}

theorem respects_refused (hrefuses : service.Refuses id) : service.Respects h id := by
  obtain ⟨hcall, hinvalid⟩ := call_refused (s := h.ports) hrefuses
  refine ⟨?_, fun hpassed => absurd hrefuses hpassed, fun _ => ?_⟩
  · rw [hcall]
    simp
  · rw [hcall, hinvalid]
    exact ⟨rfl, rfl⟩

theorem not_returned_iff (hnoted : h.Noted) (table : PortTable) :
    (∀ port, (table, id, port) ∉ h.returned) ↔
      ∀ port, h.ports.Live table port → NarrowName.ofEntry 256 port ≠ id := by
  constructor
  · intro hno port hlive hname
    exact hno port ((hnoted table id port).mpr ⟨hlive, hname⟩)
  · intro hno port hmem
    obtain ⟨hlive, hname⟩ := (hnoted table id port).mp hmem
    exact hno port hlive hname

theorem respects_iff (hnoted : h.Noted) : service.Respects h id ↔ service.Sound h.ports id := by
  by_cases hrefuses : service.Refuses id
  · exact iff_of_true (respects_refused hrefuses) (.inl hrefuses)
  obtain ⟨rest, hlocal, hcore⟩ := core_eq h.ports (corePortId id) service
  have hcall := call_passed (s := h.ports) hrefuses
  rw [hcore] at hcall
  have htouched := h.ports.withPort_touched service.table (corePortId id) rest
  have hright := NarrowName.right_iff 256 (h.ports.Live service.table) id (by decide)
  constructor
  · intro hr
    have hin := hr.inTable
    rw [hcall] at hin
    have hid := htouched.mp hin
    have hport := PartitionPorts.withPort_port rest hid
    have hfound : NarrowName.Right 256 (h.ports.Live service.table) id
        (if h.ports.Live service.table (corePortId id) then some (corePortId id) else none) := by
      refine ⟨fun e hlive hname => ?_, fun hno => ?_⟩
      · have hfinds := (hr.finds hrefuses e ((hnoted ..).mpr ⟨hlive, hname⟩)).1
        rw [hcall] at hfinds
        exact hport.symm.trans hfinds
      · have hrefused := (hr.refuses ((not_returned_iff hnoted _).mpr hno)).1
        rw [hcall] at hrefused
        exact hport.symm.trans hrefused
    refine .inr ⟨hid, hright.mp hfound, ?_⟩
    by_cases hlive : h.ports.Live service.table (corePortId id)
    · exact .inl hlive
    rw [if_neg hlive] at hport hfound
    have hno (e : Nat) (he : h.ports.Live service.table e) : NarrowName.ofEntry 256 e ≠ id := by
      intro hname
      cases hfound.finds e he hname
    have hrefused := (hr.refuses ((not_returned_iff hnoted _).mpr hno)).2
    rw [hcall, PortCall.reply, PartitionPorts.withPort_absent hport] at hrefused
    exact .inr (reply_port.mp (by simpa using hrefused))
  · rintro (hrefused | ⟨hid, hunshared, hreports⟩)
    · exact absurd hrefused hrefuses
    have hport := PartitionPorts.withPort_port rest hid
    have hfound := hright.mpr hunshared
    refine ⟨?_, fun _ port hmem => ?_, fun hno => ?_⟩
    · rw [hcall]
      exact htouched.mpr hid
    · obtain ⟨hlive, hname⟩ := (hnoted ..).mp hmem
      have hfinds := hport.trans (hfound.finds port hlive hname)
      rw [hcall]
      refine ⟨hfinds, fun t reply houtcome => ?_⟩
      obtain ⟨r, hr, hreply⟩ := Option.map_eq_some_iff.mp houtcome
      rw [PartitionPorts.withPort_outcome hfinds] at hr
      obtain ⟨rfl, -⟩ := Prod.mk.inj hreply
      exact hlocal port r hr
    · have hnone := (not_returned_iff hnoted _).mp hno
      have habsent := hport.trans (hfound.refuses hnone)
      rw [hcall]
      refine ⟨habsent, ?_⟩
      have hdead : ¬ h.ports.Live service.table (corePortId id) := by
        intro hlive
        rw [hport, if_pos hlive] at habsent
        cases habsent
      rw [PortCall.reply, PartitionPorts.withPort_absent habsent,
        ← reply_port.mpr (hreports.resolve_left hdead)]
      rfl

end PortService

namespace PartitionPorts

variable {s : PartitionPorts}

/-- What a creation does: it refuses, or a port that did not exist does now, under the
identifier which is returned. -/
def Creates (s : PartitionPorts) (table : PortTable) (found : Option Nat)
    (r : PartitionPorts × ReturnCode × Option Int) : Prop :=
  r.1 = s ∧ r.2.2 = none ∨
    ∃ port, found = some port ∧ r.2.2 = some (NarrowName.ofEntry 256 port) ∧
      r.1.nports = s.nports ∧
      ∀ other i, r.1.isCreated other i = true ↔
        s.isCreated other i = true ∨ other = table ∧ i = port

theorem creates_setQueuing (s : PartitionPorts) (id ch : Nat) {port : QueuingPort}
    (channel : ChannelQueuing) (code : ReturnCode) (hport : port.isCreated = true) :
    s.Creates .queuing (some id) ((s.setQueuing id port).setChannel ch channel, code,
      some (NarrowName.ofEntry 256 id)) := by
  refine .inr ⟨id, rfl, rfl, ?_, fun other i => ?_⟩
  · funext other
    cases other <;> rfl
  cases other with
  | queuing =>
    by_cases hi : i = id
    · subst hi
      simp [isCreated, setChannel, setQueuing, hport]
    · simp [isCreated, setChannel, setQueuing, hi]
  | sampling => simp [isCreated, setChannel, setQueuing]

theorem creates_setSampling (s : PartitionPorts) (id : Nat) {port : SamplingPort}
    (code : ReturnCode) (hport : port.isCreated = true) :
    s.Creates .sampling (some id) (s.setSampling id port, code,
      some (NarrowName.ofEntry 256 id)) := by
  refine .inr ⟨id, rfl, rfl, ?_, fun other i => ?_⟩
  · funext other
    cases other <;> rfl
  cases other with
  | queuing => simp [isCreated, setSampling]
  | sampling =>
    by_cases hi : i = id
    · subst hi
      simp [isCreated, setSampling, hport]
    · simp [isCreated, setSampling, hi]

theorem createQueuingPort_creates (s : PartitionPorts) (found : Option Nat)
    (maxMessageSize maxNbMessage : Int) (direction : Side) (discipline : QueuingDiscipline) :
    s.Creates .queuing found
      (s.createQueuingPort found maxMessageSize maxNbMessage direction discipline) := by
  unfold createQueuingPort portQueuingCreate
  cases found with
  | none => exact .inl ⟨rfl, rfl⟩
  | some id =>
    dsimp only
    split_ifs
    case neg => exact s.creates_setQueuing _ _ _ _ rfl
    all_goals exact .inl ⟨rfl, rfl⟩

theorem isCreated_create {port : SamplingPort} {size : Nat} {direction : PortDirection}
    {refresh : Int} (h : (port.create size direction refresh).2 = .ok) :
    (port.create size direction refresh).1.isCreated = true := by
  unfold SamplingPort.create at h ⊢
  split_ifs at h ⊢ <;> rfl

theorem createSamplingPort_creates (s : PartitionPorts) (found : Option Nat)
    (maxMessageSize : Int) (direction : PortDirection) (refreshPeriod : Int) :
    s.Creates .sampling found
      (s.createSamplingPort found maxMessageSize direction refreshPeriod) := by
  unfold createSamplingPort portSamplingCreate
  split_ifs
  · exact .inl ⟨rfl, rfl⟩
  · exact .inl ⟨rfl, rfl⟩
  · exact .inl ⟨rfl, rfl⟩
  cases found with
  | none => exact .inl ⟨rfl, rfl⟩
  | some id =>
    dsimp only
    split
    next hok => exact s.creates_setSampling id _ (isCreated_create hok)
    all_goals exact .inl ⟨rfl, rfl⟩

end PartitionPorts

namespace PortHistory

variable {h h' : PortHistory}

theorem noted_start (s : PartitionPorts) : (start s).Noted := by
  intro table id port
  refine ⟨fun hmem => (List.not_mem_nil hmem).elim, ?_⟩
  rintro ⟨⟨hlt, hcreated⟩, -⟩
  cases table with
  | queuing =>
    have hlt : port < s.nportsQueuing := hlt
    simp [start, PartitionPorts.isCreated, PartitionPorts.portsInit, QueuingPort.init, hlt]
      at hcreated
  | sampling =>
    have hlt : port < s.nportsSampling := hlt
    simp [start, PartitionPorts.isCreated, PartitionPorts.portsInit, hlt] at hcreated

theorem Noted.note {table : PortTable} {found : Option Nat}
    {r : PartitionPorts × ReturnCode × Option Int} (hn : h.Noted)
    (hfound : ∀ id ∈ found, id < h.ports.nports table)
    (hcreates : h.ports.Creates table found r) : (h.note table found r).Noted := by
  obtain ⟨hports, hnone⟩ | ⟨new, rfl, hreturned, hnports, hcreated⟩ := hcreates
  · intro other id port
    rw [PortHistory.note, hports, hnone]
    cases found <;> simpa using hn other id port
  · intro other id port
    have hmem : (other, id, port) ∈ (h.note table (some new) r).returned ↔
        (other, id, port) ∈ h.returned ∨
          other = table ∧ id = NarrowName.ofEntry 256 new ∧ port = new := by
      simp [PortHistory.note, hreturned]
    have hlive : (h.note table (some new) r).ports.Live other port ↔
        h.ports.Live other port ∨ other = table ∧ port = new := by
      have hnew := hfound new rfl
      rw [PartitionPorts.Live, PartitionPorts.Live]
      change port < r.1.nports other ∧ r.1.isCreated other port = true ↔ _
      rw [hnports, hcreated]
      constructor
      · rintro ⟨hlt, hold | hport⟩
        · exact .inl ⟨hlt, hold⟩
        · exact .inr hport
      · rintro (⟨hlt, hold⟩ | ⟨rfl, rfl⟩)
        · exact ⟨hlt, .inl hold⟩
        · exact ⟨hnew, .inr ⟨rfl, rfl⟩⟩
    rw [hmem, hlive, hn other id port]
    constructor
    · rintro (⟨hold, hname⟩ | ⟨rfl, rfl, rfl⟩)
      · exact ⟨.inl hold, hname⟩
      · exact ⟨.inr ⟨rfl, rfl⟩, rfl⟩
    · rintro ⟨hold | ⟨rfl, rfl⟩, hname⟩
      · exact .inl ⟨hold, hname⟩
      · exact .inr ⟨rfl, hname.symm, rfl⟩

theorem Noted.of_same {t : PartitionPorts} (hn : h.Noted) (ht : h.ports.SamePorts t) :
    ({ h with ports := t } : PortHistory).Noted := by
  intro table id port
  rw [hn table id port, PartitionPorts.Live, PartitionPorts.Live, ht.nports, ht.isCreated]

theorem samePorts_service {s t : PartitionPorts} {service : PortService} {id : Int}
    {reply : Option PortReply} (h : (service.call s id).outcome = some (t, reply)) :
    s.SamePorts t := by
  by_cases hrefuses : service.Refuses id
  · rw [(PortService.call_refused hrefuses).1] at h
    cases h
    exact ⟨rfl, rfl⟩
  obtain ⟨rest, hlocal, hcore⟩ := PortService.core_eq s (corePortId id) service
  rw [PortService.call_passed hrefuses, hcore] at h
  obtain ⟨r, hr, hreply⟩ := Option.map_eq_some_iff.mp h
  obtain ⟨rfl, -⟩ := Prod.mk.inj hreply
  unfold PartitionPorts.withPort at hr
  split_ifs at hr
  · cases hr
    exact ⟨rfl, rfl⟩
  · exact (hlocal _ r hr).toSamePorts
  · cases hr
    exact ⟨rfl, rfl⟩

theorem Noted.step {e : PortEvent} (hn : h.Noted) (hstep : h.step e = some h') : h'.Noted := by
  cases e with
  | createQueuing found maxMessageSize maxNbMessage direction discipline =>
    simp only [PortHistory.step] at hstep
    split_ifs at hstep with hfound
    obtain rfl := Option.some.inj hstep
    exact hn.note hfound (h.ports.createQueuingPort_creates ..)
  | createSampling found maxMessageSize direction refreshPeriod =>
    simp only [PortHistory.step] at hstep
    split_ifs at hstep with hfound
    obtain rfl := Option.some.inj hstep
    exact hn.note hfound (h.ports.createSamplingPort_creates ..)
  | service service id =>
    obtain ⟨r, hr, rfl⟩ := Option.map_eq_some_iff.mp hstep
    exact hn.of_same (samePorts_service hr)
  | restart =>
    obtain rfl := Option.some.inj hstep
    exact noted_start h.ports
  | elsewhere =>
    obtain rfl := Option.some.inj hstep
    exact hn.of_same ⟨rfl, rfl⟩

end PortHistory

/-- In every history of a partition, with any number of ports, a service respects an identifier
exactly when it is sound for it. -/
theorem port_identifiers {s : PartitionPorts} {events : List PortEvent} {h : PortHistory}
    (hrun : Run.exec PortHistory.step (PortHistory.start s) events = some h)
    (service : PortService) (id : Int) :
    service.Respects h id ↔ service.Sound h.ports id :=
  PortService.respects_iff
    (Run.invariant (fun _ _ _ hn hstep => hn.step hstep) (PortHistory.noted_start s) hrun)

/-- A partition with one queuing port, to which messages of up to 8 bytes are sent. The memory
behind the table looks like a port that has not been created. -/
def onePort : PartitionPorts where
  portsQueuing _ := ⟨[], 0, .recv, .fifo, false⟩
  nportsQueuing := 1
  channels _ := ⟨8, ⟨1, 0, 0, false, 0⟩, ⟨1, 0, 0, false, 0⟩, 2, fun _ _ => 0, fun _ => 0, 0,
    .senderBlock, false⟩
  peerGeneration _ := 1
  raised := []
  portsSampling _ := ⟨⟨fun _ _ => 0, fun _ => 0, fun _ => 0, 0, 0, 1⟩, 8, .incoming, false, 0, false⟩
  nportsSampling := 0
  generation := 1
  normal := false
  threads _ := ⟨1, 0, .ok, none⟩
  currentThread := 0
  waitingAllowed := false

/-- Its port is created. -/
def onePortRun : List PortEvent := [.createQueuing (some 0) 8 1 .recv .fifo]

def onePortHistory : PortHistory :=
  (PortHistory.start onePort).note .queuing (some 0)
    ((PortHistory.start onePort).ports.createQueuingPort (some 0) 8 1 .recv .fifo)

theorem onePortHistory_returned : onePortHistory.returned = [(.queuing, 1, 0)] := rfl

theorem port_identifiers_one :
    Run.exec PortHistory.step (PortHistory.start onePort) onePortRun = some onePortHistory ∧
      PortService.queuingStatus.Respects onePortHistory 1 := by
  have hrun : Run.exec PortHistory.step (PortHistory.start onePort) onePortRun =
    some onePortHistory := rfl
  refine ⟨hrun, (port_identifiers hrun .queuingStatus 1).mpr (.inr ⟨by decide, ?_, .inl ?_⟩)⟩
  · rw [NarrowName.Unshared, if_pos (by decide)]
    intro e he _
    have hlt : e < 1 := he.1
    have hzero : e = 0 := by omega
    rw [hzero]
    decide
  · exact ⟨by decide, by decide⟩

/-- The identifier 2 is looked up behind the table, 257 is taken for 1, and for 3 the receiver is
told that its configuration is wrong. -/
theorem port_identifiers_mistaken :
    Run.exec PortHistory.step (PortHistory.start onePort) onePortRun = some onePortHistory ∧
      ¬ PortService.queuingStatus.Respects onePortHistory 2 ∧
      ¬ PortService.clearQueuing.Respects onePortHistory 257 ∧
      ¬ (PortService.receiveQueuing 0 true true).Respects onePortHistory 3 := by
  have hreturned (service : PortService) (id : Int) (hid : id ≠ 1) :
      ∀ port, (service.table, id, port) ∉ onePortHistory.returned := by
    intro port hmem
    rw [onePortHistory_returned] at hmem
    simp [hid] at hmem
  refine ⟨rfl, fun hr => ?_, fun hr => ?_, fun hr => ?_⟩
  · exact absurd (hr.inTable 1 (List.mem_singleton_self 1)) (by decide)
  · cases (hr.refuses (hreturned _ 257 (by decide))).1
  · have hreply := congrArg (Option.map Prod.snd) (hr.refuses (hreturned _ 3 (by decide))).2
    cases hreply

end Chpok
