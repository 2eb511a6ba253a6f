import Chpok.Kernel.PpcSpace
import Chpok.Library.ByteMemory

/-! The loader of partitions (`kernel/core/loader.c`). The archive of images is only read; it
lies apart from all spaces. -/

namespace Chpok

open ByteMemory

/-- `struct jet_space_layout` -/
structure SpaceLayout where
  kernelAddr : Word
  userAddr : Word
  size : Word
  deriving DecidableEq, Repr

/-- `ja_space_layout_get` -/
def X86Space.jaSpaceLayoutGet (spaces : List X86Space) (spaceId : Nat) : Option SpaceLayout :=
  (lookup spaces spaceId).map fun space =>
    ⟨space.physBase, Chpok.partitionMemoryBase.setWidth 32, space.sizeNormal⟩

def PpcSpace.jaSpaceLayoutGet (spaces : List PpcSpace) (spaceId : Nat) : Option SpaceLayout :=
  (lookup spaces spaceId).map fun space =>
    ⟨partitionMemoryBase.setWidth 32, partitionMemoryBase.setWidth 32, space.sizeNormal⟩

/-- `__archive2_begin` and what is there, and `pok_elf_sizes` -/
structure ElfArchive where
  order : ByteOrder
  begin : Word
  bytes : Word → Byte
  elfSizes : Nat → Word

namespace ElfArchive

def word (archive : ElfArchive) (a : Word) : Word :=
  archive.order.load32 (archive.bytes a) (archive.bytes (a + 1)) (archive.bytes (a + 2))
    (archive.bytes (a + 3))

def half (archive : ElfArchive) (a : Word) : BitVec 16 :=
  archive.order.load16 (archive.bytes a) (archive.bytes (a + 1))

end ElfArchive

/-- `Elf32_Phdr` -/
structure Elf32Phdr where
  pOffset : Word
  pVaddr : Word
  pFilesz : Word
  pMemsz : Word
  deriving DecidableEq, Repr

/-- `Elf32_Ehdr`, and the table of program headers that it tells of -/
structure Elf32Ehdr where
  eIdent : List Byte
  eEntry : Word
  phdrs : List Elf32Phdr
  deriving DecidableEq, Repr

namespace ElfArchive

def phdr (archive : ElfArchive) (a : Word) : Elf32Phdr :=
  ⟨archive.word (a + 4), archive.word (a + 8), archive.word (a + 16), archive.word (a + 20)⟩

def ehdr (archive : ElfArchive) (elfStart : Word) : Elf32Ehdr where
  eIdent := [0, 1, 2, 3].map fun i => archive.bytes (elfStart + i)
  eEntry := archive.word (elfStart + 24)
  phdrs :=
    let elfPhdr := elfStart + archive.word (elfStart + 28)
    (List.range (archive.half (elfStart + 44)).toNat).map fun i =>
      archive.phdr (elfPhdr + 32 * BitVec.ofNat 32 i)

/-- `elf_start` -/
def elfStart (archive : ElfArchive) (elfId : Nat) : Word :=
  archive.begin + (List.range elfId).foldl (fun elfOffset i => elfOffset + archive.elfSizes i) 0

end ElfArchive

/-- The errors that the loader raises -/
inductive LoadError where
  | config
  | partload
  deriving DecidableEq, Repr

/-- Why a partition has not been loaded -/
inductive LoadStop where
  | raised (error : LoadError)
  | assertion
  deriving DecidableEq, Repr

/-- A check that calls `pok_raise_error`, which comes back if the tables ignore the error -/
def raiseIf (ignores : LoadError → Bool) (error : LoadError) (failed : Prop) [Decidable failed] :
    Except LoadError Unit :=
  if failed then
    if ignores error then .ok () else .error error
  else .ok ()

namespace SpaceLayout

/-- The first cycle of `jet_loader_elf_load`, and `elf_end_user` -/
def endUser (layout : SpaceLayout) (ignores : LoadError → Bool) :
    Word → List Elf32Phdr → Except LoadError Word
  | elfEndUser, [] => .ok elfEndUser
  | elfEndUser, phdr :: phdrs => do
    raiseIf ignores .partload (phdr.pFilesz > phdr.pMemsz)
    raiseIf ignores .partload (phdr.pVaddr < layout.userAddr)
    let elfSectionEndUser := phdr.pVaddr + phdr.pMemsz
    layout.endUser ignores
      (if elfEndUser < elfSectionEndUser then elfSectionEndUser else elfEndUser) phdrs

/-- The checks before anything is written -/
def check (layout : SpaceLayout) (ignores : LoadError → Bool) (elfSize : Word)
    (header : Elf32Ehdr) : Except LoadError Unit := do
  raiseIf ignores .config (elfSize > layout.size)
  raiseIf ignores .partload (header.eIdent ≠ [0x7f, 0x45, 0x4c, 0x46])
  let elfEndUser ← layout.endUser ignores layout.userAddr header.phdrs
  raiseIf ignores .partload (elfEndUser > layout.userAddr + layout.size)

/-- The assertion of the second cycle -/
def Asserted (layout : SpaceLayout) (phdr : Elf32Phdr) : Prop :=
  phdr.pVaddr ≥ layout.userAddr ∧ phdr.pVaddr + phdr.pFilesz ≤ layout.userAddr + layout.size ∧
    phdr.pVaddr + phdr.pMemsz ≤ layout.userAddr + layout.size

instance (layout : SpaceLayout) (phdr : Elf32Phdr) : Decidable (layout.Asserted phdr) :=
  inferInstanceAs (Decidable (_ ∧ _ ∧ _))

/-- Where an address of the partition is in the memory of the kernel -/
def kernelDest (layout : SpaceLayout) (userDest : Word) : Word :=
  layout.kernelAddr + (userDest - layout.userAddr)

/-- What the second cycle does with one segment -/
def loadSegment (layout : SpaceLayout) (archive : ElfArchive) (elfStart : Word) (m : Memory 32)
    (phdr : Elf32Phdr) : Memory 32 :=
  let kernelDest := layout.kernelDest phdr.pVaddr
  let m := m.copy kernelDest (fun i => archive.bytes (phdr.pOffset + elfStart + i))
    phdr.pFilesz.toNat
  m.copy (kernelDest + phdr.pFilesz) (fun _ => 0) (phdr.pMemsz - phdr.pFilesz).toNat

/-- The second cycle, and whether all assertions hold -/
def loadSegments (layout : SpaceLayout) (archive : ElfArchive) (elfStart : Word) :
    Memory 32 → List Elf32Phdr → Memory 32 × Bool
  | m, [] => (m, true)
  | m, phdr :: phdrs =>
    if layout.Asserted phdr then
      layout.loadSegments archive elfStart (layout.loadSegment archive elfStart m phdr) phdrs
    else (m, false)

end SpaceLayout

/-- `jet_loader_elf_load`, and the entry -/
def jetLoaderElfLoad (ignores : LoadError → Bool) (archive : ElfArchive) (layout : SpaceLayout)
    (elfId : Nat) (m : Memory 32) : Memory 32 × Except LoadStop Word :=
  let elfStart := archive.elfStart elfId
  let header := archive.ehdr elfStart
  match layout.check ignores (archive.elfSizes elfId) header with
  | .error error => (m, .error (.raised error))
  | .ok () =>
    let (m, asserted) := layout.loadSegments archive elfStart m header.phdrs
    (m, if asserted then .ok header.eEntry else .error .assertion)

end Chpok
