import Chpok.Kernel.PortCalls

/-! What a call leaves alone: all ports but the one that its identifier has led it to, and all
channels and processes but those of that port and of the caller. -/

namespace Chpok

namespace PartitionPorts

variable {s t u : PartitionPorts} {table : PortTable} {id : Nat}

def nports (s : PartitionPorts) : PortTable → Nat
  | .queuing => s.nportsQueuing
  | .sampling => s.nportsSampling

def isCreated (s : PartitionPorts) : PortTable → Nat → Bool
  | .queuing => fun i => (s.portsQueuing i).isCreated
  | .sampling => fun i => (s.portsSampling i).isCreated

/-- The entry is a port of the partition and has been created. -/
def Live (s : PartitionPorts) (table : PortTable) (id : Nat) : Prop :=
  id < s.nports table ∧ s.isCreated table id = true

/-- The same ports exist. -/
structure SamePorts (s t : PartitionPorts) : Prop where
  nports : t.nports = s.nports
  isCreated : t.isCreated = s.isCreated

/-- Nothing is changed but a port, its channel and the calling process. -/
structure OnlyPort (table : PortTable) (id : Nat) (s t : PartitionPorts) : Prop extends
    SamePorts s t where
  queuing : ∀ i, (table = .queuing → i ≠ id) → t.portsQueuing i = s.portsQueuing i
  sampling : ∀ i, (table = .sampling → i ≠ id) → t.portsSampling i = s.portsSampling i
  channels : ∀ ch, (table = .queuing → ch ≠ (s.portsQueuing id).channel) →
    t.channels ch = s.channels ch
  threads : ∀ th, th ≠ s.currentThread → t.threads th = s.threads th

theorem OnlyPort.refl (table : PortTable) (id : Nat) (s : PartitionPorts) :
    s.OnlyPort table id s :=
  ⟨⟨rfl, rfl⟩, fun _ _ => rfl, fun _ _ => rfl, fun _ _ => rfl, fun _ _ => rfl⟩

theorem OnlyPort.setChannel (h : s.OnlyPort .queuing id t) (channel : ChannelQueuing) :
    s.OnlyPort .queuing id (t.setChannel (s.portsQueuing id).channel channel) := by
  refine ⟨⟨h.nports, h.isCreated⟩, h.queuing, h.sampling, fun ch hch => ?_, h.threads⟩
  have hne : ch ≠ (s.portsQueuing id).channel := hch rfl
  exact (Function.update_of_ne hne ..).trans (h.channels ch hch)

theorem OnlyPort.raise (h : s.OnlyPort table id t) (ch : Nat) (event : Option PartitionEvent) :
    s.OnlyPort table id (t.raise ch event) :=
  ⟨⟨h.nports, h.isCreated⟩, h.queuing, h.sampling, h.channels, h.threads⟩

theorem OnlyPort.setThread (h : s.OnlyPort table id t) (thread : PortThread) :
    s.OnlyPort table id (t.setThread s.currentThread thread) := by
  refine ⟨⟨h.nports, h.isCreated⟩, h.queuing, h.sampling, h.channels, fun th hth => ?_⟩
  exact (Function.update_of_ne hth ..).trans (h.threads th hth)

theorem OnlyPort.setQueuing (h : s.OnlyPort .queuing id t) {port : QueuingPort}
    (hport : port.isCreated = (t.portsQueuing id).isCreated) :
    s.OnlyPort .queuing id (t.setQueuing id port) := by
  refine ⟨⟨h.nports, ?_⟩, fun i hi => ?_, h.sampling, h.channels, h.threads⟩
  · rw [← h.isCreated]
    funext table i
    cases table with
    | queuing =>
      by_cases hi : i = id
      · subst hi
        simp [PartitionPorts.isCreated, PartitionPorts.setQueuing, hport]
      · simp [PartitionPorts.isCreated, PartitionPorts.setQueuing, hi]
    | sampling => rfl
  · exact (Function.update_of_ne (hi rfl) ..).trans (h.queuing i hi)

theorem OnlyPort.setSampling (h : s.OnlyPort .sampling id t) {port : SamplingPort}
    (hport : port.isCreated = (t.portsSampling id).isCreated) :
    s.OnlyPort .sampling id (t.setSampling id port) := by
  refine ⟨⟨h.nports, ?_⟩, h.queuing, fun i hi => ?_, h.channels, h.threads⟩
  · rw [← h.isCreated]
    funext table i
    cases table with
    | queuing => rfl
    | sampling =>
      by_cases hi : i = id
      · subst hi
        simp [PartitionPorts.isCreated, PartitionPorts.setSampling, hport]
      · simp [PartitionPorts.isCreated, PartitionPorts.setSampling, hi]
  · exact (Function.update_of_ne (hi rfl) ..).trans (h.sampling i hi)

/-- What the rest of a call does, once the port has been found. -/
def Local (table : PortTable) (s : PartitionPorts)
    (rest : Nat → Option (PartitionPorts × Option (PortErrno × PortData))) : Prop :=
  ∀ id r, rest id = some r → s.OnlyPort table id r.1

theorem onlyPort_portQueuingReceive (h : s.OnlyPort .queuing id t)
    (hthread : t.currentThread = s.currentThread) {r : PartitionPorts × Option (PortErrno × PortData)}
    (hr : t.portQueuingReceive (s.portsQueuing id).channel = some r) :
    s.OnlyPort .queuing id r.1 := by
  unfold portQueuingReceive at hr
  obtain ⟨c, -, hr⟩ := Option.bind_eq_some_iff.mp hr
  obtain ⟨message, -, hr⟩ := Option.bind_eq_some_iff.mp hr
  obtain ⟨k, -, rfl⟩ := Option.map_eq_some_iff.mp hr
  rw [hthread]
  exact ((h.setChannel _).raise _ _).setThread _

theorem onlyPort_portQueuingSend {bytes : List UInt8} (h : s.OnlyPort .queuing id t)
    (hthread : t.currentThread = s.currentThread) {r : PartitionPorts × Option (PortErrno × PortData)}
    (hr : t.portQueuingSend (s.portsQueuing id).channel bytes = some r) :
    s.OnlyPort .queuing id r.1 := by
  unfold portQueuingSend at hr
  obtain ⟨c, -, hr⟩ := Option.bind_eq_some_iff.mp hr
  obtain ⟨pos, -, hr⟩ := Option.bind_eq_some_iff.mp hr
  obtain ⟨k, -, rfl⟩ := Option.map_eq_some_iff.mp hr
  rw [hthread]
  exact ((h.setChannel _).raise _ _).setThread _

theorem onlyPort_portWaitOrRefuse {waitLen : Nat} {timeout : Int} {refusal : PortErrno}
    {data : PortData} (h : s.OnlyPort .queuing id t)
    (hthread : t.currentThread = s.currentThread) {r : PartitionPorts × Option (PortErrno × PortData)}
    (hr : t.portWaitOrRefuse id waitLen timeout refusal data = some r) :
    s.OnlyPort .queuing id r.1 := by
  unfold portWaitOrRefuse at hr
  split_ifs at hr
  · obtain rfl := Option.some.inj hr
    rw [portWait, hthread]
    refine OnlyPort.setThread (h.setQueuing ?_) _
    rfl
  · obtain rfl := Option.some.inj hr
    exact h

theorem portQueuingReceiveCall_eq (s : PartitionPorts) (id : Nat) (dataAccess lenAccess : Bool)
    (timeout : Option Int) : ∃ rest, Local .queuing s rest ∧
      s.portQueuingReceiveCall id dataAccess lenAccess timeout =
        s.withPort (s.nports .queuing) (s.isCreated .queuing) id rest := by
  refine ⟨_, fun id r hr => ?_, rfl⟩
  cases timeout with
  | none =>
    dsimp only at hr
    split_ifs at hr <;> exact (Option.some.inj hr) ▸ OnlyPort.refl ..
  | some timeout =>
    dsimp only at hr
    split_ifs at hr
    · exact (Option.some.inj hr) ▸ OnlyPort.refl ..
    · exact onlyPort_portWaitOrRefuse (OnlyPort.refl ..) rfl hr
    · obtain ⟨c, -, hr⟩ := Option.bind_eq_some_iff.mp hr
      have hchannel := (OnlyPort.refl .queuing id s).setChannel c.1
      cases hc : c.2 with
      | none =>
        rw [hc] at hr
        exact onlyPort_portWaitOrRefuse hchannel rfl hr
      | some message =>
        rw [hc] at hr
        exact onlyPort_portQueuingReceive hchannel rfl hr
    · exact (Option.some.inj hr) ▸ OnlyPort.refl ..
    · exact (Option.some.inj hr) ▸ OnlyPort.refl ..

theorem portQueuingSendCall_eq (s : PartitionPorts) (id : Nat) (data : Option (Nat → UInt8))
    (len : Nat) (timeout : Option Int) : ∃ rest, Local .queuing s rest ∧
      s.portQueuingSendCall id data len timeout =
        s.withPort (s.nports .queuing) (s.isCreated .queuing) id rest := by
  refine ⟨_, fun id r hr => ?_, rfl⟩
  cases data with
  | none =>
    dsimp only at hr
    split_ifs at hr <;> exact (Option.some.inj hr) ▸ OnlyPort.refl ..
  | some data =>
    cases timeout with
    | none =>
      dsimp only at hr
      split_ifs at hr <;> exact (Option.some.inj hr) ▸ OnlyPort.refl ..
    | some timeout =>
      dsimp only at hr
      split_ifs at hr
      · exact (Option.some.inj hr) ▸ OnlyPort.refl ..
      · exact (Option.some.inj hr) ▸ OnlyPort.refl ..
      · exact (Option.some.inj hr) ▸ OnlyPort.refl ..
      · exact onlyPort_portWaitOrRefuse (OnlyPort.refl ..) rfl hr
      · obtain ⟨c, -, hr⟩ := Option.bind_eq_some_iff.mp hr
        have hchannel := (OnlyPort.refl .queuing id s).setChannel c.1
        cases hc : c.2 with
        | none =>
          rw [hc] at hr
          exact onlyPort_portWaitOrRefuse hchannel rfl hr
        | some pos =>
          rw [hc] at hr
          exact onlyPort_portQueuingSend hchannel rfl hr

theorem portQueuingStatus_eq (s : PartitionPorts) (id : Nat) : ∃ rest, Local .queuing s rest ∧
    s.portQueuingStatus id true = s.withPort (s.nports .queuing) (s.isCreated .queuing) id rest :=
  ⟨_, fun _ _ hr => (Option.some.inj hr) ▸ OnlyPort.refl .., rfl⟩

theorem portQueuingClear_eq (s : PartitionPorts) (id : Nat) : ∃ rest, Local .queuing s rest ∧
    s.portQueuingClear id = s.withPort (s.nports .queuing) (s.isCreated .queuing) id rest := by
  refine ⟨_, fun id r hr => ?_, rfl⟩
  simp only at hr
  split_ifs at hr
  · exact (Option.some.inj hr) ▸ OnlyPort.refl ..
  · exact (Option.some.inj hr) ▸ (OnlyPort.refl ..).setChannel _

theorem portSamplingWrite_eq (s : PartitionPorts) (id : Nat) (data : Option (Nat → UInt8))
    (len : Nat) (now : Int) : ∃ rest, Local .sampling s rest ∧
      s.portSamplingWrite id data len now =
        s.withPort (s.nports .sampling) (s.isCreated .sampling) id rest := by
  refine ⟨_, fun id r hr => ?_, rfl⟩
  simp only at hr
  split_ifs at hr
  · exact (Option.some.inj hr) ▸ OnlyPort.refl ..
  · exact (Option.some.inj hr) ▸ OnlyPort.refl ..
  cases data with
  | none => exact (Option.some.inj hr) ▸ OnlyPort.refl ..
  | some data =>
    obtain ⟨slot, -, hr⟩ := Option.bind_eq_some_iff.mp hr
    obtain ⟨channel, -, rfl⟩ := Option.map_eq_some_iff.mp hr
    exact (OnlyPort.refl ..).setSampling rfl

theorem isCreated_read (port : SamplingPort) (now : Int) :
    (port.read now).1.isCreated = port.isCreated := by
  unfold SamplingPort.read
  dsimp only
  split_ifs <;> rfl

theorem portSamplingRead_eq (s : PartitionPorts) (id : Nat) (dataAccess lenAccess : Bool)
    (now : Int) : ∃ rest, Local .sampling s rest ∧
      s.portSamplingRead id dataAccess lenAccess now =
        s.withPort (s.nports .sampling) (s.isCreated .sampling) id rest := by
  refine ⟨_, fun id r hr => ?_, rfl⟩
  simp only at hr
  split_ifs at hr
  · exact (Option.some.inj hr) ▸ OnlyPort.refl ..
  · exact (Option.some.inj hr) ▸ (OnlyPort.refl ..).setSampling (isCreated_read ..)
  · exact (Option.some.inj hr) ▸ OnlyPort.refl ..
  · exact (Option.some.inj hr) ▸ OnlyPort.refl ..

theorem portSamplingStatus_eq (s : PartitionPorts) (id : Nat) : ∃ rest, Local .sampling s rest ∧
    s.portSamplingStatus id true =
      s.withPort (s.nports .sampling) (s.isCreated .sampling) id rest :=
  ⟨_, fun _ _ hr => (Option.some.inj hr) ▸ OnlyPort.refl .., rfl⟩

theorem portSamplingCheck_eq (s : PartitionPorts) (id : Nat) : ∃ rest, Local .sampling s rest ∧
    s.portSamplingCheck id =
      s.withPort (s.nports .sampling) (s.isCreated .sampling) id rest := by
  refine ⟨_, fun id r hr => ?_, rfl⟩
  dsimp only at hr
  by_cases hdirection : (s.portsSampling id).direction ≠ .incoming
  · rw [if_pos hdirection] at hr
    exact (Option.some.inj hr) ▸ OnlyPort.refl ..
  · rw [if_neg hdirection] at hr
    exact (Option.some.inj hr) ▸ (OnlyPort.refl ..).setSampling rfl

end PartitionPorts

end Chpok
