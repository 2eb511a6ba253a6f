import Chpok.Kernel.Loader

/-! Where the loader of partitions writes, and what. The ends of segments are computed in
words, so that a segment which runs over the last address can pass all checks. -/

namespace Chpok

open ByteMemory

namespace SpaceLayout

variable {layout : SpaceLayout} {archive : ElfArchive} {elfStart a : Word} {m : Memory 32}
  {phdr : Elf32Phdr} {phdrs : List Elf32Phdr} {ignores : LoadError → Bool}

/-- The number of bytes that are written for a segment -/
def span (phdr : Elf32Phdr) : Nat := phdr.pFilesz.toNat + (phdr.pMemsz - phdr.pFilesz).toNat

theorem span_eq (h : phdr.pFilesz ≤ phdr.pMemsz) : span phdr = phdr.pMemsz.toNat := by
  have hle := BitVec.le_def.mp h
  rw [span, BitVec.toNat_sub_of_le h]
  omega

theorem span_great (h : ¬ phdr.pFilesz ≤ phdr.pMemsz) : 2 ^ 32 ≤ span phdr := by
  rw [BitVec.le_def] at h
  have := phdr.pFilesz.isLt
  rw [span, BitVec.toNat_sub]
  omega

theorem written_loadSegment :
    (layout.loadSegment archive elfStart m phdr).Written a ↔
      Covers (layout.kernelDest phdr.pVaddr) (span phdr) a ∨ m.Written a := by
  simp only [loadSegment, Memory.written_copy]
  rw [span, ← covers_append]
  tauto

theorem bytes_loadSegment (h : ¬ Covers (layout.kernelDest phdr.pVaddr) (span phdr) a) :
    (layout.loadSegment archive elfStart m phdr).bytes a = m.bytes a := by
  rw [span, ← covers_append, not_or] at h
  simp only [loadSegment]
  rw [Memory.bytes_copy_of_not_covers h.2, Memory.bytes_copy_of_not_covers h.1]

/-- The segment lies in the space, where its end is computed without a word. -/
def Inside (layout : SpaceLayout) (phdr : Elf32Phdr) : Prop :=
  phdr.pFilesz ≤ phdr.pMemsz ∧ (phdr.pMemsz = 0 ∨
    (phdr.pVaddr - layout.userAddr).toNat + phdr.pMemsz.toNat ≤ layout.size.toNat)

theorem inside_iff :
    layout.Inside phdr ↔ ∀ a, Covers (layout.kernelDest phdr.pVaddr) (span phdr) a →
      Covers layout.kernelAddr layout.size.toNat a := by
  have hsize := layout.size.isLt
  have hoffset : layout.kernelDest phdr.pVaddr - layout.kernelAddr =
      phdr.pVaddr - layout.userAddr := by
    rw [kernelDest, add_sub_cancel_left]
  rw [covers_inside_iff hsize, hoffset]
  by_cases hfile : phdr.pFilesz ≤ phdr.pMemsz
  · have hzero : phdr.pMemsz = 0 ↔ phdr.pMemsz.toNat = 0 :=
      ⟨fun h => by rw [h]; rfl, fun h => BitVec.eq_of_toNat_eq h⟩
    rw [Inside, span_eq hfile, hzero]
    exact and_iff_right hfile
  · have hspan := span_great hfile
    constructor
    · intro h
      exact absurd h.1 hfile
    · intro h
      omega

/-- Two segments have no virtual address in common. -/
def NoOverlap (phdrs : List Elf32Phdr) : Prop :=
  phdrs.Pairwise fun p q =>
    ∀ a, ¬ (Covers p.pVaddr p.pMemsz.toNat a ∧ Covers q.pVaddr q.pMemsz.toNat a)

theorem covers_kernelDest {v : Word} {n : Nat} :
    Covers (layout.kernelDest v) n a ↔ Covers v n (a - layout.kernelAddr + layout.userAddr) := by
  rw [Covers, Covers, kernelDest]
  have hsum : a - (layout.kernelAddr + (v - layout.userAddr)) =
      a - layout.kernelAddr + layout.userAddr - v := by
    rw [← sub_sub, sub_sub_eq_add_sub]
  rw [hsum]

/-- The bytes of the file at the virtual address, and zeros after them -/
def Loaded (layout : SpaceLayout) (archive : ElfArchive) (elfStart : Word) (m : Memory 32)
    (phdr : Elf32Phdr) : Prop :=
  ∀ i : Word,
    (i < phdr.pFilesz →
      m.bytes (layout.kernelDest (phdr.pVaddr + i)) = archive.bytes (elfStart + phdr.pOffset + i)) ∧
    (phdr.pFilesz ≤ i → i < phdr.pMemsz → m.bytes (layout.kernelDest (phdr.pVaddr + i)) = 0)

theorem kernelDest_add {v i : Word} :
    layout.kernelDest (v + i) = layout.kernelDest v + i := by
  rw [kernelDest, kernelDest, add_sub_right_comm, add_assoc]

theorem loaded_loadSegment (h : phdr.pFilesz ≤ phdr.pMemsz) :
    layout.Loaded archive elfStart (layout.loadSegment archive elfStart m phdr) phdr := by
  have hle := BitVec.le_def.mp h
  intro i
  rw [kernelDest_add]
  constructor
  · intro hi
    have hlt := BitVec.lt_def.mp hi
    have hfirst : Covers (layout.kernelDest phdr.pVaddr) phdr.pFilesz.toNat
        (layout.kernelDest phdr.pVaddr + i) := covers_add.mpr hlt
    -- the zeros come behind, and do not reach the start again
    have hbehind : ¬ Covers (layout.kernelDest phdr.pVaddr + phdr.pFilesz)
        (phdr.pMemsz - phdr.pFilesz).toNat (layout.kernelDest phdr.pVaddr + i) := by
      have := phdr.pMemsz.isLt
      have := phdr.pFilesz.isLt
      rw [Covers, add_sub_add_left_eq_sub, BitVec.toNat_sub, BitVec.toNat_sub]
      omega
    simp only [loadSegment]
    rw [Memory.bytes_copy_of_not_covers hbehind, Memory.bytes_copy_of_covers hfirst,
      add_sub_cancel_left, add_comm phdr.pOffset]
  · intro hfile hi
    have hge := BitVec.le_def.mp hfile
    have hlt := BitVec.lt_def.mp hi
    have hbehind : Covers (layout.kernelDest phdr.pVaddr + phdr.pFilesz)
        (phdr.pMemsz - phdr.pFilesz).toNat (layout.kernelDest phdr.pVaddr + i) := by
      rw [Covers, add_sub_add_left_eq_sub, BitVec.toNat_sub_of_le hfile,
        BitVec.toNat_sub_of_le h]
      omega
    simp only [loadSegment]
    rw [Memory.bytes_copy_of_covers hbehind]

/-! The second cycle -/

theorem loadSegments_written (h : m.Written a) :
    (layout.loadSegments archive elfStart m phdrs).1.Written a := by
  induction phdrs generalizing m with
  | nil => exact h
  | cons phdr phdrs ih =>
    rw [loadSegments]
    split_ifs
    · exact ih (written_loadSegment.mpr (.inr h))
    · exact h

theorem loadSegments_inside (hall : ∀ phdr ∈ phdrs, layout.Inside phdr)
    (h : (layout.loadSegments archive elfStart m phdrs).1.Written a) :
    m.Written a ∨ Covers layout.kernelAddr layout.size.toNat a := by
  induction phdrs generalizing m with
  | nil => exact .inl h
  | cons phdr phdrs ih =>
    rw [loadSegments] at h
    split_ifs at h
    · rcases ih (fun p hp => hall p (List.mem_cons_of_mem _ hp)) h with hm | hin
      · rcases written_loadSegment.mp hm with hcovers | hm
        · exact .inr (inside_iff.mp (hall phdr List.mem_cons_self) a hcovers)
        · exact .inl hm
      · exact .inr hin
    · exact .inl h

theorem loadSegments_frame
    (h : ∀ phdr ∈ phdrs, ¬ Covers (layout.kernelDest phdr.pVaddr) (span phdr) a) :
    (layout.loadSegments archive elfStart m phdrs).1.bytes a = m.bytes a := by
  induction phdrs generalizing m with
  | nil => rfl
  | cons phdr phdrs ih =>
    rw [loadSegments]
    split_ifs
    · rw [ih fun p hp => h p (List.mem_cons_of_mem _ hp),
        bytes_loadSegment (h phdr List.mem_cons_self)]
    · rfl

theorem Loaded.loadSegments (h : layout.Loaded archive elfStart m phdr)
    (hfile : phdr.pFilesz ≤ phdr.pMemsz) (hfiles : ∀ p ∈ phdrs, p.pFilesz ≤ p.pMemsz)
    (hapart : ∀ p ∈ phdrs, ∀ a,
      ¬ (Covers phdr.pVaddr phdr.pMemsz.toNat a ∧ Covers p.pVaddr p.pMemsz.toNat a)) :
    layout.Loaded archive elfStart (layout.loadSegments archive elfStart m phdrs).1 phdr := by
  have hkept : ∀ i : Word, i < phdr.pMemsz →
      (layout.loadSegments archive elfStart m phdrs).1.bytes (layout.kernelDest (phdr.pVaddr + i)) =
        m.bytes (layout.kernelDest (phdr.pVaddr + i)) := by
    intro i hi
    apply loadSegments_frame
    intro p hp hcovers
    rw [span_eq (hfiles p hp), covers_kernelDest] at hcovers
    apply hapart p hp _ ⟨?_, hcovers⟩
    rw [← covers_kernelDest, kernelDest_add, covers_add]
    exact BitVec.lt_def.mp hi
  intro i
  refine ⟨fun hi => ?_, fun hge hi => ?_⟩
  · have hlt : i < phdr.pMemsz :=
      BitVec.lt_def.mpr (Nat.lt_of_lt_of_le (BitVec.lt_def.mp hi) (BitVec.le_def.mp hfile))
    rw [hkept i hlt]
    exact (h i).1 hi
  · rw [hkept i hi]
    exact (h i).2 hge hi

theorem loadSegments_loaded (hfiles : ∀ p ∈ phdrs, p.pFilesz ≤ p.pMemsz)
    (hapart : NoOverlap phdrs) (hok : (layout.loadSegments archive elfStart m phdrs).2 = true) :
    ∀ phdr ∈ phdrs,
      layout.Loaded archive elfStart (layout.loadSegments archive elfStart m phdrs).1 phdr := by
  induction phdrs generalizing m with
  | nil =>
    intro phdr hmem
    cases hmem
  | cons p phdrs ih =>
    have hrest : ∀ p ∈ phdrs, p.pFilesz ≤ p.pMemsz :=
      fun q hq => hfiles q (List.mem_cons_of_mem _ hq)
    obtain ⟨hfirst, hapart⟩ := List.pairwise_cons.mp hapart
    rw [SpaceLayout.loadSegments] at hok ⊢
    split_ifs at hok ⊢
    · intro phdr hmem
      rcases List.mem_cons.mp hmem with rfl | hmem
      · have hfile := hfiles phdr List.mem_cons_self
        exact (loaded_loadSegment hfile).loadSegments hfile hrest hfirst
      · exact ih hrest hapart hok phdr hmem

end SpaceLayout

end Chpok
