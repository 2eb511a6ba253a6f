import Chpok.Kernel.X86Space
import Chpok.Library.Alignment
import Mathlib.Data.Set.Basic
import Mathlib.Order.Disjoint
import Mathlib.Data.Set.Disjoint
import Mathlib.Data.Set.Lattice
import Mathlib.Order.CompletePartialOrder

/-! Isolation of user memory on x86. The spaces are laid out one behind another, and a range
that passes the check of a space is translated into the memory of that space. -/

namespace Chpok

open Alignment

theorem alignVal_16 {val : Word} (h : val.toNat + 15 < 2 ^ 32) :
    (alignVal val 16).toNat = alignUp val.toNat 16 := by
  have hadd : (val + 16 - 1).toNat = val.toNat + 15 := by
    have heq : val + 16 - 1 = val + 15 := by bv_omega
    rw [heq, BitVec.toNat_add]
    exact Nat.mod_eq_of_lt h
  have hmask := toNat_and_not_mask (k := 4) (val + 16 - 1)
  rw [hadd] at hmask
  exact hmask

theorem alignVal_page {val : Word} (h : val.toNat + 0xfff < 2 ^ 32) :
    (alignVal val 0x1000).toNat = alignUp val.toNat 0x1000 := by
  have hadd : (val + 0x1000 - 1).toNat = val.toNat + 0xfff := by
    have heq : val + 0x1000 - 1 = val + 0xfff := by bv_omega
    rw [heq, BitVec.toNat_add]
    exact Nat.mod_eq_of_lt h
  have hmask := toNat_and_not_mask (k := 12) (val + 0x1000 - 1)
  rw [hadd] at hmask
  exact hmask

namespace X86Space

variable {space s : X86Space} {spaces ss : List X86Space} {start size physStart : Word} {base : Nat}

/-- The end of the heap of a space, without overflow -/
def heapNeeded (space : X86Space) : Nat :=
  if 0 < space.sizeHeap.toNat then alignUp space.sizeNormal.toNat 16 + space.sizeHeap.toNat
  else space.sizeNormal.toNat

/-- The total size of a space, without overflow -/
def memoryNeeded (space : X86Space) : Nat :=
  alignUp (alignUp space.heapNeeded 16 + space.sizeStack.toNat) 0x1000

/-- The physical memory of a space -/
def region (space : X86Space) : Set Nat :=
  {a | space.physBase.toNat ≤ a ∧ a < space.physBase.toNat + space.sizeTotal.toNat}

/-- Heap and stacks have their room, and the memory lies above the kernel. -/
structure WellLaid (space : X86Space) : Prop where
  room : space.heapEnd.toNat + space.sizeStack.toNat ≤ space.sizeTotal.toNat
  used : space.sizeStackUsed.toNat ≤ space.sizeStack.toNat
  above : 0 < space.sizeTotal.toNat → 0x1000000 ≤ space.physBase.toNat
  fits : 0 < space.sizeTotal.toNat → space.physBase.toNat + space.sizeTotal.toNat ≤ 2 ^ 32

theorem heapNeeded_le (space : X86Space) :
    space.heapNeeded + space.sizeStack.toNat ≤ space.memoryNeeded := by
  unfold memoryNeeded alignUp
  omega

theorem initHeapEnd_toNat (h : space.memoryNeeded < 2 ^ 32) :
    space.initHeapEnd.toNat = space.heapNeeded := by
  have hle := heapNeeded_le space
  have hpos : space.sizeHeap > 0 ↔ 0 < space.sizeHeap.toNat := BitVec.lt_def
  unfold heapNeeded at hle ⊢
  rw [initHeapEnd]
  by_cases hheap : 0 < space.sizeHeap.toNat
  · rw [if_pos hheap] at hle ⊢
    unfold alignUp at hle
    rw [if_pos (hpos.mpr hheap), BitVec.toNat_add, alignVal_16 (by omega)]
    unfold alignUp
    omega
  · rw [if_neg hheap, if_neg (hpos.not.mpr hheap)]

theorem initSizeTotal_toNat (h : space.memoryNeeded < 2 ^ 32) :
    space.initSizeTotal.toNat = space.memoryNeeded := by
  have hheap := initHeapEnd_toNat h
  have hle := heapNeeded_le space
  have hpage : space.memoryNeeded % 0x1000 = 0 := Nat.mul_mod_left ..
  have hstack : (alignVal space.initHeapEnd 16 + space.sizeStack).toNat =
      alignUp space.heapNeeded 16 + space.sizeStack.toNat := by
    rw [BitVec.toNat_add, alignVal_16 (by omega), hheap]
    unfold memoryNeeded alignUp at h
    unfold alignUp
    omega
  rw [initSizeTotal, alignVal_page, hstack]
  · rfl
  · rw [hstack]
    unfold memoryNeeded alignUp at h
    unfold alignUp
    omega

theorem spaceInit_spec (hstart : physStart.toNat = base % 2 ^ 32) (haligned : base % 0x1000 = 0)
    (hlow : 0x1000000 ≤ base) (hfit : base + (spaces.map memoryNeeded).sum ≤ 2 ^ 32)
    (hzero : ∀ space ∈ spaces, space.physBase = 0 ∧ space.sizeStackUsed = 0) :
    ∃ inited, spaceInit physStart spaces = some inited ∧ inited.length = spaces.length ∧
      (∀ space ∈ inited, space.WellLaid ∧ ∀ a ∈ space.region, base ≤ a) ∧
      inited.Pairwise fun s t => Disjoint s.region t.region := by
  induction spaces generalizing physStart base with
  | nil => exact ⟨[], rfl, rfl, nofun, List.Pairwise.nil⟩
  | cons space spaces ih =>
    rw [List.map_cons, List.sum_cons] at hfit
    obtain ⟨hbase, hused⟩ := hzero space (by simp)
    have hneeded : space.memoryNeeded < 2 ^ 32 := by omega
    have htotal := initSizeTotal_toNat hneeded
    have hheap := initHeapEnd_toNat hneeded
    have hroom := heapNeeded_le space
    have hpage : space.memoryNeeded % 0x1000 = 0 := Nat.mul_mod_left ..
    have hphys : (alignVal physStart 0x1000).toNat = base % 2 ^ 32 := by
      rw [alignVal_page (by omega), hstart]
      unfold alignUp
      omega
    set laid : X86Space := { space with
      heapEnd := space.initHeapEnd
      sizeTotal := space.initSizeTotal
      physBase := alignVal physStart 0x1000 } with hlaid
    have hsize : laid.sizeTotal.toNat = space.memoryNeeded := htotal
    have hat : laid.physBase.toNat = base % 2 ^ 32 := hphys
    have hnext : (laid.physBase + laid.sizeTotal).toNat =
        (base + space.memoryNeeded) % 2 ^ 32 := by
      rw [BitVec.toNat_add, hsize, hat]
      omega
    obtain ⟨inited, hinit, hlength, hwell, hdisjoint⟩ := ih hnext (by omega) (by omega) (by omega)
      fun s hs => hzero s (List.mem_cons_of_mem _ hs)
    refine ⟨laid :: inited, ?_, by rw [List.length_cons, hlength, List.length_cons], ?_, ?_⟩
    · rw [spaceInit]
      dsimp only
      rw [if_pos hbase, hinit]
      rfl
    · intro s hs
      rcases List.mem_cons.mp hs with rfl | hs
      · refine ⟨⟨?_, ?_, fun hpos => ?_, fun hpos => ?_⟩, fun a ha => ?_⟩
        · rw [hsize]
          exact hheap ▸ hroom
        · have hzero : laid.sizeStackUsed = 0 := hused
          rw [hzero]
          exact Nat.zero_le _
        · omega
        · omega
        · obtain ⟨hle, hlt⟩ := ha
          omega
      · obtain ⟨hs', habove⟩ := hwell s hs
        refine ⟨hs', fun a ha => ?_⟩
        have := habove a ha
        omega
    · refine List.pairwise_cons.mpr ⟨fun t ht => ?_, hdisjoint⟩
      apply Set.disjoint_left.mpr
      rintro a ⟨-, hlt⟩ hmem
      have := (hwell t ht).2 a hmem
      omega

@[simp] theorem partitionMemoryBase_toNat : partitionMemoryBase.toNat = 0 := rfl

/-- The range of `size` addresses from `start` lies between two offsets from the base. -/
def Inside (start size : Word) (low high : Nat) : Prop :=
  partitionMemoryBase.toNat + low ≤ start.toNat ∧
    start.toNat + size.toNat ≤ partitionMemoryBase.toNat + high

theorem WellLaid.checkAccess (h : space.WellLaid) (hsize : size ≠ 0) :
    space.checkAccess start size = true ↔ Inside start size 0 space.heapEnd.toNat ∨
      Inside start size (space.sizeTotal.toNat - space.sizeStackUsed.toNat)
        space.sizeTotal.toNat := by
  have hpos : size.toNat ≠ 0 := fun hzero => hsize (BitVec.eq_of_toNat_eq hzero)
  have hused := h.used
  have hroom := h.room
  have hstart := start.isLt
  have hlength := size.isLt
  have htotal := space.sizeTotal.isLt
  have hheap := space.heapEnd.isLt
  have htop : (partitionMemoryBase + space.sizeTotal.setWidth 64 -
      space.sizeStackUsed.setWidth 64).toNat =
        space.sizeTotal.toNat - space.sizeStackUsed.toNat := by
    simp only [BitVec.toNat_sub, BitVec.toNat_add, BitVec.toNat_setWidth, partitionMemoryBase_toNat]
    omega
  have hend : (space.heapEnd.setWidth 64 + partitionMemoryBase).toNat = space.heapEnd.toNat := by
    simp only [BitVec.toNat_add, BitVec.toNat_setWidth, partitionMemoryBase_toNat]
    omega
  have hlimit : (partitionMemoryBase + space.sizeTotal.setWidth 64).toNat =
      space.sizeTotal.toNat := by
    simp only [BitVec.toNat_add, BitVec.toNat_setWidth, partitionMemoryBase_toNat]
    omega
  have hwide : ∀ w : Word, (w.setWidth 64).toNat = w.toNat := by
    intro w
    have := w.isLt
    rw [BitVec.toNat_setWidth]
    omega
  simp only [X86Space.checkAccess, Inside, BitVec.lt_def, BitVec.le_def, ge_iff_le, hwide, htop,
    hend, hlimit, partitionMemoryBase_toNat, BitVec.toNat_add]
  split_ifs with hwrap hlow hhigh
  · simp only [false_iff]
    omega
  · simp only [decide_eq_true_eq]
    omega
  · simp only [decide_eq_true_eq]
    omega
  · simp only [false_iff]
    omega

theorem WellLaid.translate (h : space.WellLaid) (hsize : size ≠ 0)
    (haccept : space.checkAccess start size = true) {i : Nat} (hi : i < size.toNat) :
    (start - (partitionMemoryBase - space.physBase.setWidth 64).setWidth 32).toNat + i ∈
      space.region := by
  have hroom := h.room
  have hstop : start.toNat + size.toNat ≤ space.sizeTotal.toNat := by
    rcases (h.checkAccess hsize).mp haccept with ⟨-, hheap⟩ | ⟨-, hstack⟩
    · rw [partitionMemoryBase_toNat] at hheap
      omega
    · rw [partitionMemoryBase_toNat] at hstack
      omega
  have hfits := h.fits (by omega)
  have hphys := space.physBase.isLt
  have haddr : (start - (partitionMemoryBase - space.physBase.setWidth 64).setWidth 32).toNat =
      space.physBase.toNat + start.toNat := by
    simp only [BitVec.toNat_sub, BitVec.toNat_setWidth, partitionMemoryBase_toNat]
    omega
  rw [haddr]
  exact ⟨by omega, by omega⟩

theorem WellLaid.setUsed (h : space.WellLaid) {used : Word} (hused : used ≤ space.sizeStack) :
    { space with sizeStackUsed := used }.WellLaid :=
  ⟨h.room, BitVec.le_def.mp hused, h.above, h.fits⟩

theorem lookup_eq {spaceId : Nat} : lookup ss spaceId = some space ↔
    spaceId ≠ 0 ∧ ss[spaceId - 1]? = some space := by
  simp [lookup]

theorem set_region {i : Nat} (hspace : ss[i]? = some space) (used : Word) :
    (ss.set i { space with sizeStackUsed := used }).map region = ss.map region := by
  have hget : (ss.map region)[i]? = some (region { space with sizeStackUsed := used }) := by
    rw [List.getElem?_map, hspace]
    rfl
  obtain ⟨hi, hget⟩ := List.getElem?_eq_some_iff.mp hget
  rw [List.map_set, ← hget, List.set_getElem_self]

theorem step_wellLaid {call : UstackCall} {tt : List X86Space} (hwell : ∀ s ∈ ss, s.WellLaid)
    (h : step ss call = some tt) : (∀ s ∈ tt, s.WellLaid) ∧ tt.map region = ss.map region := by
  cases call with
  | init spaceId =>
    obtain ⟨space, hspace, rfl⟩ := Option.map_eq_some_iff.mp h
    obtain ⟨-, hget⟩ := lookup_eq.mp hspace
    refine ⟨fun s hs => ?_, set_region hget 0⟩
    rcases List.mem_or_eq_of_mem_set hs with hs | rfl
    · exact hwell s hs
    · exact (hwell space (List.mem_of_getElem? hget)).setUsed (BitVec.le_def.mpr (Nat.zero_le _))
  | alloc spaceId stackSize =>
    obtain ⟨r, hr, rfl⟩ := Option.map_eq_some_iff.mp h
    obtain ⟨space, hspace, rfl⟩ := Option.map_eq_some_iff.mp hr
    obtain ⟨-, hget⟩ := lookup_eq.mp hspace
    dsimp only
    split_ifs with hfull
    · exact ⟨hwell, rfl⟩
    · refine ⟨fun s hs => ?_, set_region hget _⟩
      rcases List.mem_or_eq_of_mem_set hs with hs | rfl
      · exact hwell s hs
      · exact (hwell space (List.mem_of_getElem? hget)).setUsed (BitVec.not_lt.mp hfull)

theorem exec_wellLaid {calls : List UstackCall} {tt : List X86Space}
    (hwell : ∀ s ∈ ss, s.WellLaid) (h : Run.exec step ss calls = some tt) :
    (∀ s ∈ tt, s.WellLaid) ∧ tt.map region = ss.map region := by
  induction calls generalizing ss with
  | nil =>
    obtain rfl := Option.some.inj h
    exact ⟨hwell, rfl⟩
  | cons call calls ih =>
    obtain ⟨m, hm, ht⟩ := Run.exec_cons.mp h
    obtain ⟨hwellm, hregion⟩ := step_wellLaid hwell hm
    obtain ⟨hwellt, hregiont⟩ := ih hwellm ht
    exact ⟨hwellt, hregiont.trans hregion⟩

/-- The regions of the spaces are disjoint and above the kernel, and stay so; a user pointer is
accepted exactly if it stays within heap or stacks, and then lands in the region of its space. -/
theorem user_pointers_isolated
    (hzero : ∀ space ∈ spaces, space.physBase = 0 ∧ space.sizeStackUsed = 0)
    (hfit : 0x1000000 + (spaces.map memoryNeeded).sum ≤ 2 ^ 32) :
    ∃ inited, jaSpaceInit spaces = some inited ∧ inited.length = spaces.length ∧
      inited.Pairwise (fun s t => Disjoint s.region t.region) ∧
      (∀ space ∈ inited, ∀ a ∈ space.region, partitionMemoryPhysStart.toNat ≤ a) ∧
      ∀ calls tt, Run.exec step inited calls = some tt → tt.map region = inited.map region ∧
        ∀ spaceId space, lookup tt spaceId = some space → ∀ addr size : Word, size ≠ 0 →
          ∃ accepted, x86CheckAccess tt addr size spaceId = some accepted ∧
            (accepted = true ↔ Inside addr size 0 space.heapEnd.toNat ∨
              Inside addr size (space.sizeTotal.toNat - space.sizeStackUsed.toNat)
                space.sizeTotal.toNat) ∧
            (accepted = true → ∃ kernelAddr,
              jaUserToKernelSpace tt addr size spaceId = some kernelAddr ∧
                ∀ i < size.toNat, kernelAddr.toNat + i ∈ space.region) := by
  have hphys : (partitionMemoryPhysStart.setWidth 32).toNat = 0x1000000 % 2 ^ 32 := by decide
  obtain ⟨inited, hinit, hlength, hwell, hdisjoint⟩ := spaceInit_spec hphys (by decide)
    (Nat.le_refl _) hfit hzero
  refine ⟨inited, hinit, hlength, hdisjoint, fun s hs => (hwell s hs).2, fun calls tt hrun => ?_⟩
  obtain ⟨hwellt, hregion⟩ := exec_wellLaid (fun s hs => (hwell s hs).1) hrun
  refine ⟨hregion, fun spaceId space hspace addr size hsize => ?_⟩
  have hlaid := hwellt space (List.mem_of_getElem? (lookup_eq.mp hspace).2)
  have hcheck : x86CheckAccess tt addr size spaceId = some (space.checkAccess addr size) := by
    rw [x86CheckAccess, if_pos hsize, hspace]
    rfl
  refine ⟨_, hcheck, hlaid.checkAccess hsize, fun haccept => ⟨_, ?_, fun i hi =>
    hlaid.translate hsize haccept hi⟩⟩
  rw [jaUserToKernelSpace, hcheck, Option.bind_some, if_pos haccept, userSpaceShift, hspace]
  rfl

/-- One space with a heap and one without -/
def twoSpaces : List X86Space :=
  [⟨0, 0x5004, 0x100, 0x4000, 0, 0, 0⟩, ⟨0, 0x10000, 0, 0x2000, 0, 0, 0⟩]

theorem user_pointers_isolated_twoSpaces : ∃ inited, jaSpaceInit twoSpaces = some inited ∧
    inited.Pairwise (fun s t => Disjoint s.region t.region) ∧
    inited.map (fun s => (s.physBase, s.sizeTotal)) =
      [(0x1000000, 0xa000), (0x100a000, 0x12000)] := by
  have hzero : ∀ space ∈ twoSpaces, space.physBase = 0 ∧ space.sizeStackUsed = 0 := by decide
  have hfit : 0x1000000 + (twoSpaces.map memoryNeeded).sum ≤ 2 ^ 32 := by decide
  obtain ⟨inited, hinit, -, hdisjoint, -⟩ := user_pointers_isolated hzero hfit
  have hview : (jaSpaceInit twoSpaces).map (·.map fun s => (s.physBase, s.sizeTotal)) =
      some [(0x1000000, 0xa000), (0x100a000, 0x12000)] := by decide
  rw [hinit] at hview
  exact ⟨inited, hinit, hdisjoint, Option.some.inj hview⟩

end X86Space

end Chpok
