import Chpok.Kernel.LoaderContainment

/-! Which images the loader rejects, and what it does with the others. -/

namespace Chpok

open ByteMemory

namespace SpaceLayout

variable {layout : SpaceLayout} {archive : ElfArchive} {elfStart limit elfSize : Word}
  {m : Memory 32} {phdrs : List Elf32Phdr} {ignores : LoadError → Bool} {header : Elf32Ehdr}

/-- The header is rejected in the first cycle. -/
def BadSegment (layout : SpaceLayout) (phdr : Elf32Phdr) : Prop :=
  phdr.pFilesz > phdr.pMemsz ∨ phdr.pVaddr < layout.userAddr

/-- The image is rejected before anything is written: an error that is not ignored is raised by
one of the checks, which compare the computed ends. -/
def Rejects (layout : SpaceLayout) (ignores : LoadError → Bool) (elfSize : Word)
    (header : Elf32Ehdr) : Prop :=
  ignores .config = false ∧ elfSize > layout.size ∨
    ignores .partload = false ∧ (header.eIdent ≠ [0x7f, 0x45, 0x4c, 0x46] ∨
      (∃ phdr ∈ header.phdrs, layout.BadSegment phdr) ∨
      layout.userAddr > layout.userAddr + layout.size ∨
      ∃ phdr ∈ header.phdrs, phdr.pVaddr + phdr.pMemsz > layout.userAddr + layout.size)

/-- The assertion fails for the first segment that is not empty, or before it. -/
def StopsFirst (layout : SpaceLayout) (phdrs : List Elf32Phdr) : Prop :=
  ∃ before phdr behind, phdrs = before ++ phdr :: behind ∧ (∀ p ∈ before, span p = 0) ∧
    ¬ layout.Asserted phdr

theorem raiseIf_ok {error : LoadError} {failed : Prop} [Decidable failed]
    (h : ignores error = false → ¬ failed) : raiseIf ignores error failed = .ok () := by
  cases herror : ignores error with
  | true => simp [raiseIf, herror]
  | false => simp [raiseIf, h herror]

theorem raiseIf_error {error : LoadError} {failed : Prop} [Decidable failed]
    (h : ignores error = false) (hfailed : failed) :
    raiseIf ignores error failed = .error error := by
  simp [raiseIf, h, hfailed]

theorem endUser_cons {phdr : Elf32Phdr} (h : ignores .partload = false → ¬ layout.BadSegment phdr)
    (elfEndUser : Word) :
    layout.endUser ignores elfEndUser (phdr :: phdrs) =
      layout.endUser ignores (if elfEndUser < phdr.pVaddr + phdr.pMemsz then
        phdr.pVaddr + phdr.pMemsz else elfEndUser) phdrs := by
  rw [endUser, raiseIf_ok fun hraise => (not_or.mp (h hraise)).1,
    raiseIf_ok fun hraise => (not_or.mp (h hraise)).2]
  rfl

theorem endUser_ignored (layout : SpaceLayout) (phdrs : List Elf32Phdr)
    (h : ignores .partload = true) (elfEndUser : Word) :
    ∃ last, layout.endUser ignores elfEndUser phdrs = .ok last := by
  induction phdrs generalizing elfEndUser with
  | nil => exact ⟨elfEndUser, rfl⟩
  | cons phdr phdrs ih =>
    rw [endUser_cons (by simp [h])]
    exact ih _

theorem max_gt {x y : Word} : (if x < y then y else x) > limit ↔ x > limit ∨ y > limit := by
  simp only [gt_iff_lt, BitVec.lt_def]
  split_ifs
  · omega
  · omega

theorem endUser_raised (layout : SpaceLayout) (phdrs : List Elf32Phdr)
    (h : ignores .partload = false) (elfEndUser : Word) :
    (∃ phdr ∈ phdrs, layout.BadSegment phdr) ∧
        layout.endUser ignores elfEndUser phdrs = .error .partload ∨
      (¬ ∃ phdr ∈ phdrs, layout.BadSegment phdr) ∧
        ∃ last, layout.endUser ignores elfEndUser phdrs = .ok last ∧
          ∀ limit, last > limit ↔
            elfEndUser > limit ∨ ∃ phdr ∈ phdrs, phdr.pVaddr + phdr.pMemsz > limit := by
  induction phdrs generalizing elfEndUser with
  | nil => exact .inr ⟨by simp, elfEndUser, rfl, by simp⟩
  | cons phdr phdrs ih =>
    by_cases hbad : layout.BadSegment phdr
    · refine .inl ⟨⟨phdr, List.mem_cons_self, hbad⟩, ?_⟩
      by_cases hfile : phdr.pFilesz > phdr.pMemsz
      · rw [endUser, raiseIf_error h hfile]
        rfl
      · rw [endUser, raiseIf_ok fun _ => hfile, raiseIf_error h (hbad.resolve_left hfile)]
        rfl
    · rw [endUser_cons fun _ => hbad]
      rcases ih (if elfEndUser < phdr.pVaddr + phdr.pMemsz then phdr.pVaddr + phdr.pMemsz
        else elfEndUser) with ⟨⟨q, hq, hqbad⟩, herror⟩ | ⟨hgood, last, hlast, hgreatest⟩
      · exact .inl ⟨⟨q, List.mem_cons_of_mem _ hq, hqbad⟩, herror⟩
      · refine .inr ⟨by simpa [hbad] using hgood, last, hlast, fun limit => ?_⟩
        rw [hgreatest, max_gt, or_assoc, List.exists_mem_cons_iff]

theorem check_iff :
    (∃ error, layout.check ignores elfSize header = .error error) ↔
      layout.Rejects ignores elfSize header := by
  by_cases hsize : ignores .config = false ∧ elfSize > layout.size
  · refine iff_of_true ⟨.config, ?_⟩ (.inl hsize)
    rw [check, raiseIf_error hsize.1 hsize.2]
    rfl
  have hconfig : raiseIf ignores .config (elfSize > layout.size) = .ok () :=
    raiseIf_ok fun h hgreat => hsize ⟨h, hgreat⟩
  rw [Rejects, or_iff_right hsize, check, hconfig]
  cases hpart : ignores .partload with
  | true =>
    obtain ⟨last, hlast⟩ := endUser_ignored layout header.phdrs hpart layout.userAddr
    rw [raiseIf_ok (by simp [hpart]), hlast]
    apply iff_of_false
    · rintro ⟨error, he⟩
      have hok : raiseIf ignores .partload (last > layout.userAddr + layout.size) = .error error := he
      rw [raiseIf_ok (by simp [hpart])] at hok
      cases hok
    · rintro ⟨hraise, -⟩
      cases hraise
  | false =>
    by_cases hident : header.eIdent ≠ [0x7f, 0x45, 0x4c, 0x46]
    · refine iff_of_true ⟨.partload, ?_⟩ ⟨rfl, .inl hident⟩
      rw [raiseIf_error hpart hident]
      rfl
    rw [raiseIf_ok fun _ => hident]
    rcases endUser_raised layout header.phdrs hpart layout.userAddr with
      ⟨hbad, herror⟩ | ⟨hgood, last, hlast, hgreatest⟩
    · refine iff_of_true ⟨.partload, ?_⟩ ⟨rfl, .inr (.inl hbad)⟩
      rw [herror]
      rfl
    · rw [hlast]
      by_cases hend : last > layout.userAddr + layout.size
      · refine iff_of_true ⟨.partload, ?_⟩ ⟨rfl, .inr (.inr ((hgreatest _).mp hend))⟩
        exact raiseIf_error hpart hend
      · apply iff_of_false
        · rintro ⟨error, he⟩
          have hok : raiseIf ignores .partload (last > layout.userAddr + layout.size) =
            .error error := he
          rw [raiseIf_ok fun _ => hend] at hok
          cases hok
        · rintro ⟨-, hwrong | hbad | hgreat⟩
          · exact hident hwrong
          · exact hgood hbad
          · exact hend ((hgreatest _).mpr hgreat)

/-- Nothing is written before an assertion fails exactly if it is one of the first segments. -/
theorem stopsFirst_iff (hm : ∀ a, ¬ m.Written a) :
    ((layout.loadSegments archive elfStart m phdrs).2 = false ∧
        ∀ a, ¬ (layout.loadSegments archive elfStart m phdrs).1.Written a) ↔
      layout.StopsFirst phdrs := by
  induction phdrs generalizing m with
  | nil =>
    apply iff_of_false
    · rintro ⟨h, -⟩
      cases h
    · rintro ⟨before, phdr, behind, hsplit, -⟩
      simp at hsplit
  | cons phdr phdrs ih =>
    rw [loadSegments]
    by_cases hasserted : layout.Asserted phdr
    · rw [if_pos hasserted]
      by_cases hempty : span phdr = 0
      · have hstill : ∀ a, ¬ (layout.loadSegment archive elfStart m phdr).Written a := by
          intro a ha
          rcases written_loadSegment.mp ha with hcovers | ha
          · exact absurd hcovers.pos (by omega)
          · exact hm a ha
        rw [ih hstill]
        constructor
        · rintro ⟨before, p, behind, rfl, hbefore, hp⟩
          exact ⟨phdr :: before, p, behind, rfl, by simpa [hempty] using hbefore, hp⟩
        · rintro ⟨before, p, behind, hsplit, hbefore, hp⟩
          cases before with
          | nil =>
            obtain ⟨rfl, -⟩ := List.cons.inj hsplit
            exact absurd hasserted hp
          | cons q before =>
            obtain ⟨-, rfl⟩ := List.cons.inj hsplit
            exact ⟨before, p, behind, rfl, fun p hp => hbefore p (List.mem_cons_of_mem _ hp), hp⟩
      · apply iff_of_false
        · rintro ⟨-, hnone⟩
          apply hnone (layout.kernelDest phdr.pVaddr)
          exact loadSegments_written
            (written_loadSegment.mpr (.inl (covers_start (Nat.pos_of_ne_zero hempty))))
        · rintro ⟨before, p, behind, hsplit, hbefore, hp⟩
          cases before with
          | nil =>
            obtain ⟨rfl, -⟩ := List.cons.inj hsplit
            exact hp hasserted
          | cons q before =>
            obtain ⟨rfl, -⟩ := List.cons.inj hsplit
            exact hempty (hbefore phdr List.mem_cons_self)
    · rw [if_neg hasserted]
      exact iff_of_true ⟨rfl, hm⟩ ⟨[], phdr, phdrs, rfl, by simp, hasserted⟩

/-- The segment would be written outside of the space. -/
def WritesOutside (layout : SpaceLayout) (archive : ElfArchive) (elfStart : Word)
    (phdr : Elf32Phdr) : Prop :=
  ∃ a, (layout.loadSegment archive elfStart ⟨fun _ => 0, []⟩ phdr).Written a ∧
    ¬ Covers layout.kernelAddr layout.size.toNat a

theorem not_written_nil {bytes : Word → Byte} {a : Word} :
    ¬ (⟨bytes, []⟩ : Memory 32).Written a := by
  simp [Memory.Written]

theorem writesOutside_iff {phdr : Elf32Phdr} :
    layout.WritesOutside archive elfStart phdr ↔ ¬ layout.Inside phdr := by
  simp only [WritesOutside, written_loadSegment, not_written_nil, or_false, inside_iff, not_forall,
    exists_prop]

/-- What the loader is to do with an image -/
structure LoadedWell (layout : SpaceLayout) (archive : ElfArchive) (elfStart : Word)
    (r : Memory 32 × Except LoadStop Word) : Prop where
  contained : ∀ entry, r.2 = .ok entry →
    ∀ a, r.1.Written a → Covers layout.kernelAddr layout.size.toNat a
  faithful : NoOverlap (archive.ehdr elfStart).phdrs → ∀ entry, r.2 = .ok entry →
    ∀ phdr ∈ (archive.ehdr elfStart).phdrs, layout.Loaded archive elfStart r.1 phdr
  rejected : (∃ phdr ∈ (archive.ehdr elfStart).phdrs,
      layout.WritesOutside archive elfStart phdr) →
    (∃ stop, r.2 = .error stop) ∧ ∀ a, ¬ r.1.Written a

end SpaceLayout

open SpaceLayout

/-- The loader does it exactly if all segments lie in the space, or if one of its checks stops it
before the first byte. -/
theorem jetLoaderElfLoad_loadedWell (ignores : LoadError → Bool) (archive : ElfArchive)
    (layout : SpaceLayout) (elfId : Nat) (bytes : Word → Byte) :
    layout.LoadedWell archive (archive.elfStart elfId)
        (jetLoaderElfLoad ignores archive layout elfId ⟨bytes, []⟩) ↔
      (∀ phdr ∈ (archive.ehdr (archive.elfStart elfId)).phdrs, layout.Inside phdr) ∨
        layout.Rejects ignores (archive.elfSizes elfId) (archive.ehdr (archive.elfStart elfId)) ∨
        layout.StopsFirst (archive.ehdr (archive.elfStart elfId)).phdrs := by
  rw [jetLoaderElfLoad, ← check_iff]
  generalize archive.elfStart elfId = elfStart
  generalize hheader : archive.ehdr elfStart = header
  have hnone : ∀ a, ¬ (⟨bytes, []⟩ : Memory 32).Written a := fun _ => not_written_nil
  dsimp only
  cases hcheck : layout.check ignores (archive.elfSizes elfId) header with
  | error error =>
    apply iff_of_true
    · exact ⟨by simp, by simp, fun _ => ⟨⟨_, rfl⟩, hnone⟩⟩
    · exact .inr (.inl ⟨error, rfl⟩)
  | ok =>
    dsimp only
    constructor
    · rintro ⟨-, -, hrejected⟩
      by_contra hnot
      obtain ⟨houtside, hnot⟩ := not_or.mp hnot
      push Not at houtside
      obtain ⟨phdr, hphdr, houtside⟩ := houtside
      obtain ⟨⟨stop, hstop⟩, hnothing⟩ :=
        hrejected ⟨phdr, hheader ▸ hphdr, writesOutside_iff.mpr houtside⟩
      apply hnot
      right
      refine (stopsFirst_iff hnone).mp ⟨?_, hnothing⟩
      by_contra htrue
      rw [Bool.not_eq_false] at htrue
      rw [htrue] at hstop
      cases hstop
    · rintro (hin | ⟨error, herror⟩ | hstop)
      · refine ⟨fun entry _ a ha => ?_, fun hapart entry hentry => ?_, ?_⟩
        · exact (loadSegments_inside hin ha).resolve_left (hnone a)
        · rw [hheader] at hapart ⊢
          refine loadSegments_loaded (fun p hp => (hin p hp).1) hapart ?_
          by_contra hfalse
          rw [if_neg hfalse] at hentry
          cases hentry
        · rintro ⟨phdr, hphdr, houtside⟩
          exact absurd (hin phdr (hheader ▸ hphdr)) (writesOutside_iff.mp houtside)
      · cases herror
      · obtain ⟨hfalse, hnothing⟩ : (layout.loadSegments archive elfStart ⟨bytes, []⟩
            header.phdrs).2 = false ∧ _ := (stopsFirst_iff hnone).mpr hstop
        rw [hfalse]
        exact ⟨by simp, by simp, fun _ => ⟨⟨_, rfl⟩, hnothing⟩⟩

/-- A header with one segment -/
def oneSegment (pVaddr pFilesz pMemsz : Word) : List Byte :=
  [0x7f, 0x45, 0x4c, 0x46] ++ List.replicate 20 0 ++ ByteOrder.little.store32 0x4000 ++
    ByteOrder.little.store32 52 ++ List.replicate 12 0 ++ ByteOrder.little.store16 1 ++
    List.replicate 6 0 ++ List.replicate 8 0 ++ ByteOrder.little.store32 pVaddr ++
    List.replicate 4 0 ++ ByteOrder.little.store32 pFilesz ++ ByteOrder.little.store32 pMemsz ++
    List.replicate 8 0

def oneElf (pVaddr pFilesz pMemsz : Word) : ElfArchive where
  order := .little
  begin := 0x100
  bytes a := (oneSegment pVaddr pFilesz pMemsz).getD (a - 0x100).toNat 0
  elfSizes _ := 84

/-- A segment of almost 4 GiB whose computed end lies in the space -/
theorem jetLoaderElfLoad_overwrites :
    X86Space.jaSpaceLayoutGet [⟨0x1000000, 0x5000, 0, 0, 0x5000, 0x5000, 0⟩] 1 =
        some ⟨0x1000000, 0, 0x5000⟩ ∧
      (oneElf 0x4000 0 0xffffd000).ehdr 0x100 =
        ⟨[0x7f, 0x45, 0x4c, 0x46], 0x4000, [⟨0, 0x4000, 0, 0xffffd000⟩]⟩ ∧
      ¬ LoadedWell ⟨0x1000000, 0, 0x5000⟩ (oneElf 0x4000 0 0xffffd000) 0x100
        (jetLoaderElfLoad (fun _ => false) (oneElf 0x4000 0 0xffffd000) ⟨0x1000000, 0, 0x5000⟩ 0
          ⟨fun _ => 0, []⟩) := by
  refine ⟨by decide, by decide, fun h => ?_⟩
  have hin := h.contained 0x4000 (by decide) 0x1005000
    ⟨(0x1004000, 0xffffd000), by decide, by decide⟩
  revert hin
  decide

end Chpok
