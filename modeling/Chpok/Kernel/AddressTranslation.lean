import Chpok.Kernel.PpcSpace

/-! Addresses for the direct memory access of devices (`kernel/arch/x86/space.c`,
`kernel/arch/ppc/space.c`). A fatal error has no result. -/

namespace Chpok

/-- What a translation between a range of virtual and one of physical addresses does with one
address of each -/
structure TranslatesAt (base size physBase : Nat) (virtToPhys physToVirt : Word → Option Word)
    (virt phys : Word) : Prop where
  acceptsVirt : (virtToPhys virt).isSome ↔ base ≤ virt.toNat ∧ virt.toNat < base + size
  acceptsPhys : (physToVirt phys).isSome ↔ physBase ≤ phys.toNat ∧ phys.toNat < physBase + size
  inverse : virtToPhys virt = some phys ↔ physToVirt phys = some virt
  inside : ∀ result, virtToPhys virt = some result →
    physBase ≤ result.toNat ∧ result.toNat < physBase + size

namespace X86Space

/-- `pok_virt_to_phys`, of the current space -/
def pokVirtToPhys (space : X86Space) (virt : Word) : Option Word :=
  if virt.setWidth 64 < partitionMemoryBase ∨
      virt.setWidth 64 > partitionMemoryBase + space.sizeTotal.setWidth 64 then none
  else some ((virt.setWidth 64 - partitionMemoryBase + space.physBase.setWidth 64).setWidth 32)

/-- `pok_phys_to_virt` -/
def pokPhysToVirt (space : X86Space) (phys : Word) : Option Word :=
  if phys < space.physBase ∨ phys ≥ space.physBase + space.sizeTotal then none
  else some (((phys - space.physBase).setWidth 64 + partitionMemoryBase).setWidth 32)

theorem pokVirtToPhys_eq (space : X86Space) (virt : Word) : space.pokVirtToPhys virt =
    if virt.toNat ≤ space.sizeTotal.toNat then some (virt + space.physBase) else none := by
  have hvirt := virt.isLt
  have hsize := space.sizeTotal.isLt
  have hbase : partitionMemoryBase.toNat = 0 := rfl
  have hcheck : (virt.setWidth 64 < partitionMemoryBase ∨
      virt.setWidth 64 > partitionMemoryBase + space.sizeTotal.setWidth 64) ↔
        ¬ virt.toNat ≤ space.sizeTotal.toNat := by
    simp only [gt_iff_lt, BitVec.lt_def, BitVec.toNat_add, BitVec.toNat_setWidth, hbase]
    omega
  have hresult : (virt.setWidth 64 - partitionMemoryBase + space.physBase.setWidth 64).setWidth 32 =
      virt + space.physBase := by
    have hphys := space.physBase.isLt
    apply BitVec.eq_of_toNat_eq
    simp only [BitVec.toNat_add, BitVec.toNat_sub, BitVec.toNat_setWidth, hbase]
    omega
  rw [pokVirtToPhys, hresult]
  simp only [hcheck, ite_not]

theorem pokPhysToVirt_eq (space : X86Space) (phys : Word) : space.pokPhysToVirt phys =
    if space.physBase.toNat ≤ phys.toNat ∧
        phys.toNat < (space.physBase.toNat + space.sizeTotal.toNat) % 2 ^ 32 then
      some (phys - space.physBase) else none := by
  have hbase : partitionMemoryBase.toNat = 0 := rfl
  have hcheck : (phys < space.physBase ∨ phys ≥ space.physBase + space.sizeTotal) ↔
      ¬ (space.physBase.toNat ≤ phys.toNat ∧
        phys.toNat < (space.physBase.toNat + space.sizeTotal.toNat) % 2 ^ 32) := by
    simp only [ge_iff_le, BitVec.lt_def, BitVec.le_def, BitVec.toNat_add]
    omega
  have hresult : ((phys - space.physBase).setWidth 64 + partitionMemoryBase).setWidth 32 =
      phys - space.physBase := by
    have hlt := (phys - space.physBase).isLt
    apply BitVec.eq_of_toNat_eq
    simp only [BitVec.toNat_add, BitVec.toNat_setWidth, hbase]
    omega
  rw [pokPhysToVirt, hresult]
  simp only [hcheck, ite_not]

theorem pokVirtToPhys_eq_some {space : X86Space} {virt phys : Word} :
    space.pokVirtToPhys virt = some phys ↔ virt.toNat ≤ space.sizeTotal.toNat ∧
      phys.toNat = (virt.toNat + space.physBase.toNat) % 2 ^ 32 := by
  rw [pokVirtToPhys_eq, ← BitVec.toNat_add, BitVec.toNat_inj]
  split_ifs with hle <;> simp [hle, eq_comm]

theorem pokPhysToVirt_eq_some {space : X86Space} {virt phys : Word} :
    space.pokPhysToVirt phys = some virt ↔ space.physBase.toNat ≤ phys.toNat ∧
      phys.toNat < (space.physBase.toNat + space.sizeTotal.toNat) % 2 ^ 32 ∧
        phys.toNat = virt.toNat + space.physBase.toNat := by
  have hphys := phys.isLt
  rw [pokPhysToVirt_eq]
  split_ifs with hin
  · have hsub : (phys - space.physBase).toNat = phys.toNat - space.physBase.toNat := by
      have hbase := space.physBase.isLt
      rw [BitVec.toNat_sub]
      omega
    rw [Option.some.injEq, ← BitVec.toNat_inj, hsub]
    omega
  · simp only [false_iff]
    omega

/-- The first address after the range is accepted. A region that reaches the end of the memory
accepts no physical address. -/
theorem translatesAt_iff (space : X86Space) (virt phys : Word) :
    TranslatesAt 0 space.sizeTotal.toNat space.physBase.toNat space.pokVirtToPhys
        space.pokPhysToVirt virt phys ↔
      virt ≠ space.sizeTotal ∧ (2 ^ 32 ≤ space.physBase.toNat + space.sizeTotal.toNat →
        phys < space.physBase ∧
          (virt < space.sizeTotal → virt.toNat + space.physBase.toNat < 2 ^ 32)) := by
  have hvirt := virt.isLt
  have hphys := phys.isLt
  have hsize := space.sizeTotal.isLt
  have hbase := space.physBase.isLt
  have hsome : (space.pokVirtToPhys virt).isSome ↔ virt.toNat ≤ space.sizeTotal.toNat := by
    rw [pokVirtToPhys_eq]
    split_ifs with hle
    · exact iff_of_true rfl hle
    · exact iff_of_false Bool.false_ne_true hle
  have hsome' : (space.pokPhysToVirt phys).isSome ↔ space.physBase.toNat ≤ phys.toNat ∧
      phys.toNat < (space.physBase.toNat + space.sizeTotal.toNat) % 2 ^ 32 := by
    rw [pokPhysToVirt_eq]
    split_ifs with hin
    · exact iff_of_true rfl hin
    · exact iff_of_false Bool.false_ne_true hin
  rw [ne_eq, ← BitVec.toNat_inj, BitVec.lt_def, BitVec.lt_def]
  constructor
  · rintro ⟨hv, hp, -, hin⟩
    rw [hsome] at hv
    rw [hsome'] at hp
    refine ⟨by omega, fun hend => ⟨by omega, fun hlt => ?_⟩⟩
    have hsum : (virt + space.physBase).toNat = (virt.toNat + space.physBase.toNat) % 2 ^ 32 :=
      BitVec.toNat_add virt space.physBase
    have hresult := hin _ (pokVirtToPhys_eq_some.mpr ⟨by omega, hsum⟩)
    omega
  · rintro ⟨hne, hend⟩
    refine ⟨?_, ?_, ?_, ?_⟩
    · rw [hsome]
      omega
    · rw [hsome']
      omega
    · rw [pokVirtToPhys_eq_some, pokPhysToVirt_eq_some]
      omega
    · intro result hresult
      rw [pokVirtToPhys_eq_some] at hresult
      omega

end X86Space

namespace PpcSpace

/-- `pok_virt_to_phys`, with the physical base of the current space -/
def pokVirtToPhys (physBase virt : Word) : Option Word :=
  if virt.setWidth 64 < partitionMemoryBase ∨
      virt.setWidth 64 > partitionMemoryBase + partitionMemorySize then none
  else some ((virt.setWidth 64 - partitionMemoryBase + physBase.setWidth 64).setWidth 32)

/-- `pok_phys_to_virt` -/
def pokPhysToVirt (physBase phys : Word) : Option Word :=
  if phys < physBase ∨ phys.setWidth 64 ≥ physBase.setWidth 64 + partitionMemorySize then none
  else some (((phys - physBase).setWidth 64 + partitionMemoryBase).setWidth 32)

theorem partitionMemoryBase_toNat : partitionMemoryBase.toNat = 2 ^ 31 := rfl

theorem partitionMemorySize_toNat : partitionMemorySize.toNat = 2 ^ 24 := rfl

theorem pokVirtToPhys_eq_some {physBase virt phys : Word} :
    pokVirtToPhys physBase virt = some phys ↔
      2 ^ 31 ≤ virt.toNat ∧ virt.toNat ≤ 2 ^ 31 + 2 ^ 24 ∧
        phys.toNat = (virt.toNat - 2 ^ 31 + physBase.toNat) % 2 ^ 32 := by
  have hvirt := virt.isLt
  have hbase := physBase.isLt
  have hcheck : (virt.setWidth 64 < partitionMemoryBase ∨
      virt.setWidth 64 > partitionMemoryBase + partitionMemorySize) ↔
        ¬ (2 ^ 31 ≤ virt.toNat ∧ virt.toNat ≤ 2 ^ 31 + 2 ^ 24) := by
    simp only [gt_iff_lt, BitVec.lt_def, BitVec.toNat_add, BitVec.toNat_setWidth,
      partitionMemoryBase_toNat, partitionMemorySize_toNat]
    omega
  simp only [pokVirtToPhys, hcheck, ite_not]
  split_ifs with hin
  · have hresult : ((virt.setWidth 64 - partitionMemoryBase + physBase.setWidth 64).setWidth
        32).toNat = (virt.toNat - 2 ^ 31 + physBase.toNat) % 2 ^ 32 := by
      simp only [BitVec.toNat_add, BitVec.toNat_sub, BitVec.toNat_setWidth,
        partitionMemoryBase_toNat]
      omega
    rw [Option.some.injEq, ← BitVec.toNat_inj, hresult]
    omega
  · simp only [false_iff]
    omega

theorem pokPhysToVirt_eq_some {physBase virt phys : Word} :
    pokPhysToVirt physBase phys = some virt ↔
      physBase.toNat ≤ phys.toNat ∧ phys.toNat < physBase.toNat + 2 ^ 24 ∧
        virt.toNat + physBase.toNat = phys.toNat + 2 ^ 31 := by
  have hphys := phys.isLt
  have hbase := physBase.isLt
  have hcheck : (phys < physBase ∨
      phys.setWidth 64 ≥ physBase.setWidth 64 + partitionMemorySize) ↔
        ¬ (physBase.toNat ≤ phys.toNat ∧ phys.toNat < physBase.toNat + 2 ^ 24) := by
    have hlimit : (physBase.setWidth 64 + partitionMemorySize).toNat = physBase.toNat + 2 ^ 24 := by
      rw [BitVec.toNat_add, BitVec.toNat_setWidth, partitionMemorySize_toNat]
      omega
    have hwide : (phys.setWidth 64).toNat = phys.toNat := by
      rw [BitVec.toNat_setWidth]
      omega
    rw [ge_iff_le, BitVec.lt_def, BitVec.le_def, hlimit, hwide, not_and_or, not_le, not_lt]
  simp only [pokPhysToVirt, hcheck, ite_not]
  split_ifs with hin
  · have hsub : (phys - physBase).toNat = phys.toNat - physBase.toNat := by
      rw [BitVec.toNat_sub]
      omega
    rw [Option.some.injEq, ← BitVec.toNat_inj, BitVec.toNat_setWidth, BitVec.toNat_add,
      BitVec.toNat_setWidth, hsub, partitionMemoryBase_toNat]
    omega
  · simp only [false_iff]
    omega

/-- The first address after the range is accepted here as well. -/
theorem translatesAt_iff (physBase virt phys : Word) :
    TranslatesAt partitionMemoryBase.toNat partitionMemorySize.toNat physBase.toNat
        (pokVirtToPhys physBase) (pokPhysToVirt physBase) virt phys ↔
      virt ≠ 0x81000000 ∧ (0x80000000 ≤ virt → virt < 0x81000000 →
        virt.toNat - 2 ^ 31 + physBase.toNat < 2 ^ 32) := by
  have hvirt := virt.isLt
  have hphys := phys.isLt
  have hbase := physBase.isLt
  have hstart : (0x80000000 : Word).toNat = 2 ^ 31 := rfl
  have hend : (0x81000000 : Word).toNat = 2 ^ 31 + 2 ^ 24 := rfl
  have hsome : (pokVirtToPhys physBase virt).isSome ↔
      2 ^ 31 ≤ virt.toNat ∧ virt.toNat ≤ 2 ^ 31 + 2 ^ 24 := by
    rw [Option.isSome_iff_exists]
    constructor
    · rintro ⟨result, hresult⟩
      rw [pokVirtToPhys_eq_some] at hresult
      omega
    · rintro ⟨hlow, hhigh⟩
      exact ⟨_, pokVirtToPhys_eq_some.mpr ⟨hlow, hhigh, BitVec.toNat_ofNat _ 32⟩⟩
  have hsome' : (pokPhysToVirt physBase phys).isSome ↔
      physBase.toNat ≤ phys.toNat ∧ phys.toNat < physBase.toNat + 2 ^ 24 := by
    rw [Option.isSome_iff_exists]
    constructor
    · rintro ⟨result, hresult⟩
      rw [pokPhysToVirt_eq_some] at hresult
      omega
    · rintro ⟨hlow, hhigh⟩
      have hresult : (BitVec.ofNat 32 (phys.toNat + 2 ^ 31 - physBase.toNat)).toNat +
          physBase.toNat = phys.toNat + 2 ^ 31 := by
        rw [BitVec.toNat_ofNat]
        omega
      exact ⟨_, pokPhysToVirt_eq_some.mpr ⟨hlow, hhigh, hresult⟩⟩
  rw [ne_eq, ← BitVec.toNat_inj, BitVec.le_def, BitVec.lt_def, hstart, hend,
    partitionMemoryBase_toNat, partitionMemorySize_toNat]
  constructor
  · rintro ⟨hv, -, -, hin⟩
    rw [hsome] at hv
    refine ⟨by omega, fun hlow hhigh => ?_⟩
    have hresult := hin _ (pokVirtToPhys_eq_some.mpr ⟨hlow, hhigh.le, BitVec.toNat_ofNat _ 32⟩)
    rw [BitVec.toNat_ofNat] at hresult
    omega
  · rintro ⟨hne, hfits⟩
    refine ⟨?_, ?_, ?_, ?_⟩
    · rw [hsome]
      omega
    · rw [hsome']
    · rw [pokVirtToPhys_eq_some, pokPhysToVirt_eq_some]
      omega
    · intro result hresult
      rw [pokVirtToPhys_eq_some] at hresult
      omega

end PpcSpace

/-- Both translations are right at every address, but for the first one after the virtual range
and for regions that leave the physical addresses (and on x86 for those that reach their end). -/
theorem address_translation (virt phys : Word) :
    (∀ space : X86Space,
      TranslatesAt 0 space.sizeTotal.toNat space.physBase.toNat space.pokVirtToPhys
          space.pokPhysToVirt virt phys ↔
        virt ≠ space.sizeTotal ∧ (2 ^ 32 ≤ space.physBase.toNat + space.sizeTotal.toNat →
          phys < space.physBase ∧
            (virt < space.sizeTotal → virt.toNat + space.physBase.toNat < 2 ^ 32))) ∧
      ∀ physBase : Word,
        TranslatesAt PpcSpace.partitionMemoryBase.toNat PpcSpace.partitionMemorySize.toNat
            physBase.toNat (PpcSpace.pokVirtToPhys physBase) (PpcSpace.pokPhysToVirt physBase)
            virt phys ↔
          virt ≠ 0x81000000 ∧ (0x80000000 ≤ virt → virt < 0x81000000 →
            virt.toNat - 2 ^ 31 + physBase.toNat < 2 ^ 32) :=
  ⟨fun space => space.translatesAt_iff virt phys,
    fun physBase => PpcSpace.translatesAt_iff physBase virt phys⟩

/-- The first address after the range becomes the first address after the region. -/
theorem address_translation_fails :
    (¬ ∀ (space : X86Space) (virt phys : Word),
      TranslatesAt 0 space.sizeTotal.toNat space.physBase.toNat space.pokVirtToPhys
        space.pokPhysToVirt virt phys) ∧
      ¬ ∀ physBase virt phys : Word,
        TranslatesAt PpcSpace.partitionMemoryBase.toNat PpcSpace.partitionMemorySize.toNat
          physBase.toNat (PpcSpace.pokVirtToPhys physBase) (PpcSpace.pokPhysToVirt physBase)
          virt phys := by
  constructor
  · intro h
    have hinside := (h ⟨0x1000000, 0, 0, 0, 0x10000, 0, 0⟩ 0x10000 0).inside 0x1010000 (by decide)
    exact absurd hinside (by decide)
  · intro h
    have hinside := (h 0x1000000 0x81000000 0).inside 0x2000000 (by decide)
    exact absurd hinside (by decide)

end Chpok
