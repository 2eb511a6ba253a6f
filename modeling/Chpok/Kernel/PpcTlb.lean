import Chpok.Kernel.PpcSpace

/-! The second level of the TLB on PowerPC (`kernel/arch/ppc/space.c`, `kernel/arch/ppc/mmu.c`).
`pok_fatal` and a failed assertion have no result. -/

namespace Chpok

/-- `struct tlb_entry`, which has the arguments of `pok_insert_tlb1` -/
structure TlbMapping where
  virtAddr : Word
  physAddr : BitVec 64
  size : Word
  permissions : Word
  cachePolicy : Word
  pid : Word
  deriving DecidableEq, Repr

/-- What `tlbwe` writes into an entry. -/
structure TlbEntry where
  mas1 : Word
  mas2 : Word
  mas3 : Word
  mas7 : Word
  deriving DecidableEq, Repr

/-- TLB1 with its configuration register, and the counters of `space.c` -/
structure Tlb1 where
  tlb1cfg : Word
  nextResident : Nat
  nextNonResident : Nat
  entries : Nat → TlbEntry

/-- `struct ja_ppc_space`, without the sum of the sizes -/
structure PpcMappedSpace extends PpcSpace where
  physBase : Word
  deriving DecidableEq, Repr

/-- The fields of `pok_bsp` for the device registers -/
structure Ccsrbar where
  base : BitVec 64
  basePhys : BitVec 64
  deriving DecidableEq, Repr

/-- `pf_type_t` -/
inductive PageFaultType where
  | dataTlbMiss
  | instTlbMiss
  | dataStorage
  | instStorage
  deriving DecidableEq, Repr

/-- The arguments of `pok_arch_handle_page_fault`, and the space that is current -/
structure PageFault where
  type : PageFaultType
  pid : Nat
  faultingAddress : Word
  deriving DecidableEq, Repr

namespace Tlb1

/-- The state before `pok_arch_space_init` -/
def boot (tlb1cfg : Word) (entries : Nat → TlbEntry) : Tlb1 := ⟨tlb1cfg, 0, 0, entries⟩

/-- `pok_ppc_tlb_get_nentry` -/
def nentry (s : Tlb1) : Nat := (s.tlb1cfg &&& 0xfff).toNat

/-- `MAS0_ESEL`, and the entry that is selected -/
def esel (entry : Nat) : Nat := (((BitVec.ofNat 32 entry <<< 16) &&& 0x0fff0000) >>> 16).toNat

/-- `pok_ppc_tlb_write` with `valid` -/
def pokPpcTlbWrite (s : Tlb1) (mapping : TlbMapping) (entry : Nat) : Tlb1 :=
  { s with
    entries := Function.update s.entries (esel entry)
      { mas1 := 0x80000000 ||| (mapping.pid <<< 16 &&& 0x3fff0000) |||
          (mapping.size <<< 7 &&& 0xf80)
        mas2 := (mapping.virtAddr &&& 0xfffff000) ||| mapping.cachePolicy
        mas3 := (mapping.physAddr.setWidth 32 &&& 0xfffff000) ||| mapping.permissions
        mas7 := (mapping.physAddr >>> 32).setWidth 32 } }

/-- `pok_ppc_tlb_clear_entry` -/
def pokPpcTlbClearEntry (s : Tlb1) (entry : Nat) : Tlb1 :=
  { s with entries := Function.update s.entries (esel entry) ⟨0, 0, 0, 0⟩ }

/-- `pok_get_next_tlb1_index` -/
def pokGetNextTlb1Index (s : Tlb1) (isResident : Bool) : Option (Tlb1 × Nat) :=
  if isResident then
    if s.nextResident ≥ s.nentry then none
    else
      some ({ s with
        nextResident := s.nextResident + 1
        nextNonResident := s.nextResident + 1 }, s.nextResident)
  else
    let next := if s.nextNonResident ≥ s.nentry then s.nextResident else s.nextNonResident
    if next ≥ s.nentry then none
    else some ({ s with nextNonResident := next + 1 }, next)

/-- `pok_insert_tlb1`, and the index that it got. -/
def pokInsertTlb1 (s : Tlb1) (mapping : TlbMapping) (isResident : Bool) : Option (Tlb1 × Nat) :=
  (s.pokGetNextTlb1Index isResident).map fun r => (r.1.pokPpcTlbWrite mapping r.2, r.2)

/-- `E500MC_PGSIZE_256M`, with `MAS3_SW | MAS3_SR | MAS3_SX` -/
def kernelMapping : TlbMapping := ⟨0, 0, 0b10010, 0x15, 0, 0⟩

/-- `E500MC_PGSIZE_16M`, with `MAS3_SW | MAS3_SR | MAS3_SX | MAS3_UW | MAS3_UR` and
`MAS2_W | MAS2_I | MAS2_M | MAS2_G` -/
def ccsrbarMapping (ccsrbar : Ccsrbar) : TlbMapping :=
  ⟨ccsrbar.base.setWidth 32, ccsrbar.basePhys, 0b01110, 0x1f, 0x1e, 0⟩

/-- `E500MC_PGSIZE_16M`, with `MAS3_SW | MAS3_SR | MAS3_UW | MAS3_UR | MAS3_UX` -/
def partitionMapping (space : PpcMappedSpace) (pid : Nat) : TlbMapping :=
  ⟨PpcSpace.partitionMemoryBase.setWidth 32, space.physBase.setWidth 64, 0b01110, 0x2f, 0,
    BitVec.ofNat 32 pid⟩

/-- The loop over `jet_tlb_entries` -/
def insertEntries : Tlb1 → List TlbMapping → Option (Tlb1 × List Nat)
  | s, [] => some (s, [])
  | s, mapping :: rest =>
    (s.pokInsertTlb1 mapping true).bind fun r =>
      (insertEntries r.1 rest).map fun q => (q.1, r.2 :: q.2)

/-- `size_total`, which has to be less than the size of a chunk. -/
def sizeTotal (space : PpcMappedSpace) : Word :=
  if 0 < space.sizeHeap then alignVal space.sizeNormal 16 + space.sizeHeap else space.sizeNormal

/-- `pok_arch_space_init`, and the indices of the resident requests. -/
def pokArchSpaceInit (s : Tlb1) (ccsrbar : Ccsrbar) (tlbEntries : List TlbMapping)
    (spaces : List PpcMappedSpace) : Option (Tlb1 × List Nat) :=
  (s.pokInsertTlb1 kernelMapping true).bind fun r =>
    let limit := r.1.nentry
    let cleared := (List.range' 1 (limit - 1)).foldl pokPpcTlbClearEntry r.1
    let mapped := cleared.pokPpcTlbWrite (ccsrbarMapping ccsrbar) (limit - 1)
    (insertEntries { mapped with nextResident := 2, nextNonResident := 2 } tlbEntries).bind fun q =>
      if spaces.all fun space => (sizeTotal space).setWidth 64 < PpcSpace.partitionMemorySize then
        some (q.1, r.2 :: q.2)
      else none

/-- A fault that `pok_arch_handle_page_fault` answers with a mapping. -/
def IsPartitionMiss (fault : PageFault) : Prop :=
  (fault.type = .instTlbMiss ∨ fault.type = .dataTlbMiss) ∧ fault.pid ≠ 0 ∧
    PpcSpace.partitionMemoryBase ≤ fault.faultingAddress.setWidth 64 ∧
    fault.faultingAddress.setWidth 64 < PpcSpace.partitionMemoryBase + PpcSpace.partitionMemorySize

instance : DecidablePred IsPartitionMiss := fun _ => inferInstanceAs (Decidable (_ ∧ _))

/-- `pok_arch_handle_page_fault`, and the index of the entry if there is one. Otherwise an error
is raised, which leaves the TLB alone. -/
def pokArchHandlePageFault (spaces : List PpcMappedSpace) (s : Tlb1) (fault : PageFault) :
    Option (Tlb1 × Option Nat) :=
  if IsPartitionMiss fault then
    spaces[fault.pid - 1]?.bind fun space =>
      (s.pokInsertTlb1 (partitionMapping space fault.pid) false).map fun r => (r.1, some r.2)
  else some (s, none)

end Tlb1

end Chpok
