import Chpok.Kernel.PpcSpace
import Chpok.Kernel.X86Isolation
import Chpok.Library.Allocation

/-! Stacks that are allocated one below another, in the stack area of a space. -/

namespace Chpok

open Allocation Alignment

theorem alignVal_16_toNat (val : Word) : (alignVal val 16).toNat = alignUp val.toNat 16 % 2 ^ 32 := by
  have h := toNat_align (k := 4) val (by omega)
  have heq : val + 16 - 1 = val + 15 := by bv_omega
  rw [alignVal, heq]
  exact h

/-- The memory that a thread gets with the result of `ja_ustack_alloc` -/
def stackRegion (result size : Word) : Option Region :=
  if result = 0 then none else some ⟨result.toNat - size.toNat, result.toNat⟩

def StackAsked (size : Word) (r : Region) : Prop := r.stop - r.start = size.toNat

theorem stackRegion_cases (result size : Word) :
    result = 0 ∧ stackRegion result size = none ∨
      result ≠ 0 ∧ stackRegion result size = some ⟨result.toNat - size.toNat, result.toNat⟩ := by
  by_cases h : result = 0
  · exact .inl ⟨h, if_pos h⟩
  · exact .inr ⟨h, if_neg h⟩

namespace X86Space

variable {space : X86Space} {spaces inited ss tt : List X86Space} {spaceId : Nat} {size : Word}
  {taken : List Region}

def ustackAlloc (spaceId : Nat) (ss : List X86Space) (size : Word) :
    Option (List X86Space × Option Region) :=
  (jaUstackAlloc ss spaceId size).map fun r => (r.1, stackRegion r.2 size)

/-- The last bytes of a space -/
def stackArea (space : X86Space) : Region :=
  ⟨space.sizeTotal.toNat - space.sizeStack.toNat, space.sizeTotal.toNat⟩

/-- The sum of the used size and the requested one fits a word. Where stacks have used up a
whole space, the result is 0 anyway, and a size that is rounded up to 0 changes nothing. -/
def StackSumFits (spaceId : Nat) (ss : List X86Space) (size : Word) : Prop :=
  ∃ space, lookup ss spaceId = some space ∧
    (space.sizeStackUsed.toNat + alignUp size.toNat 16 < 2 ^ 32 ∨
      space.sizeStackUsed = space.sizeTotal ∧ 2 ^ 32 - 16 < size.toNat)

theorem spaceInit_laid {physStart : Word} (h : spaceInit physStart spaces = some inited) :
    ∀ space ∈ inited, space.heapEnd = space.initHeapEnd ∧ space.sizeTotal = space.initSizeTotal := by
  induction spaces generalizing physStart inited with
  | nil =>
    obtain rfl := Option.some.inj h
    simp
  | cons first spaces ih =>
    have hcons : ∃ base next rest, spaceInit next spaces = some rest ∧ inited = { first with
        heapEnd := first.initHeapEnd, sizeTotal := first.initSizeTotal, physBase := base } :: rest := by
      rw [spaceInit] at h
      dsimp only at h
      split at h
      · obtain ⟨rest, hrest, rfl⟩ := Option.map_eq_some_iff.mp h
        exact ⟨_, _, rest, hrest, rfl⟩
      · split at h
        · obtain ⟨rest, hrest, rfl⟩ := Option.map_eq_some_iff.mp h
          exact ⟨_, _, rest, hrest, rfl⟩
        · cases h
    obtain ⟨base, next, rest, hrest, rfl⟩ := hcons
    intro space hmem
    rcases List.mem_cons.mp hmem with rfl | hmem
    · exact ⟨rfl, rfl⟩
    · exact ih hrest space hmem

/-- The space whose stacks are allocated, with the regions that have been handed out above -/
def Stacked (laid : X86Space) (spaceId : Nat) (ss : List X86Space) (taken : List Region) : Prop :=
  ∃ space, lookup ss spaceId = some space ∧ space.sizeTotal = laid.sizeTotal ∧
    space.sizeStack = laid.sizeStack ∧ space.sizeStackUsed.toNat ≤ laid.sizeStack.toNat ∧
    ∀ o ∈ taken, (laid.sizeTotal.toNat : Int) - space.sizeStackUsed.toNat ≤ o.start

theorem lookup_set {used : Word} (h : lookup ss spaceId = some space) :
    lookup (ss.set (spaceId - 1) { space with sizeStackUsed := used }) spaceId =
      some { space with sizeStackUsed := used } := by
  obtain ⟨hne, hget⟩ := lookup_eq.mp h
  refine lookup_eq.mpr ⟨hne, ?_⟩
  rw [List.getElem?_set_self (List.getElem?_eq_some_iff.mp hget).1]

theorem set_used (h : lookup ss spaceId = some space) :
    ss.set (spaceId - 1) { space with sizeStackUsed := space.sizeStackUsed } = ss := by
  obtain ⟨-, hget⟩ := lookup_eq.mp h
  obtain ⟨hlt, he⟩ := List.getElem?_eq_some_iff.mp hget
  subst he
  exact List.set_getElem_self hlt

theorem jaUstackAlloc_cases (size : Word) (hspace : lookup ss spaceId = some space)
    (hroom : space.sizeStackUsed.toNat ≤ space.sizeTotal.toNat) :
    let sum := (space.sizeStackUsed.toNat + alignUp size.toNat 16) % 2 ^ 32
    (space.sizeStack.toNat < sum ∧ jaUstackAlloc ss spaceId size = some (ss, 0)) ∨
      (sum ≤ space.sizeStack.toNat ∧ ∃ new result : Word, new.toNat = sum ∧
        result.toNat = space.sizeTotal.toNat - space.sizeStackUsed.toNat ∧
        jaUstackAlloc ss spaceId size =
          some (ss.set (spaceId - 1) { space with sizeStackUsed := new }, result)) := by
  intro sum
  have hsum : (space.sizeStackUsed + alignVal size 16).toNat = sum := by
    rw [BitVec.toNat_add, alignVal_16_toNat, Nat.add_mod_mod]
  rw [jaUstackAlloc, hspace, Option.map_some]
  dsimp only
  by_cases hfull : space.sizeStack.toNat < sum
  · refine .inl ⟨hfull, ?_⟩
    rw [if_pos (by rw [gt_iff_lt, BitVec.lt_def, hsum]; exact hfull)]
  · refine .inr ⟨by omega, space.sizeStackUsed + alignVal size 16,
      (partitionMemoryBase + space.sizeTotal.setWidth 64 -
        space.sizeStackUsed.setWidth 64).setWidth 32, hsum, ?_, ?_⟩
    · have htotal := space.sizeTotal.isLt
      simp only [BitVec.toNat_sub, BitVec.toNat_add, BitVec.toNat_setWidth, partitionMemoryBase_toNat]
      omega
    · rw [if_neg (by rw [gt_iff_lt, BitVec.lt_def, hsum]; exact hfull)]

/-- A sum that fits is compared with the size of the stack area as it is. -/
theorem Stacked.granted {laid : X86Space} {t : List X86Space} {answer : Option Region}
    (hroom : laid.sizeStack.toNat ≤ laid.sizeTotal.toNat) (h : Stacked laid spaceId ss taken)
    (hfits : StackSumFits spaceId ss size) (ha : ustackAlloc spaceId ss size = some (t, answer)) :
    Granted StackAsked laid.stackArea ss taken size t answer ∧
      Stacked laid spaceId t (answer.toList ++ taken) := by
  obtain ⟨space, hspace, htotal, hstack, hused, habove⟩ := h
  obtain ⟨space', hspace', hfits⟩ := hfits
  obtain rfl := Option.some.inj (hspace.symm.trans hspace')
  obtain ⟨r, hr, he⟩ := Option.map_eq_some_iff.mp ha
  obtain ⟨rfl, rfl⟩ := Prod.mk.inj he
  have hle : size.toNat ≤ alignUp size.toNat 16 := le_alignUp (by decide)
  rw [← htotal, ← hstack] at hroom
  rw [← hstack] at hused
  rcases jaUstackAlloc_cases size hspace (by omega) with
    ⟨-, hcall⟩ | ⟨hsum, new, result, hnew, hresult, hcall⟩
  · obtain rfl := Option.some.inj (hr.symm.trans hcall)
    exact ⟨rfl, space, hspace, htotal, hstack, hstack ▸ hused, habove⟩
  · obtain rfl := Option.some.inj (hr.symm.trans hcall)
    rcases stackRegion_cases result size with ⟨hzero, hnone⟩ | ⟨hne, hsome⟩
    · -- nothing is left of the space, so that only sizes that are rounded to 0 get here
      have hsame : new = space.sizeStackUsed := by
        apply BitVec.eq_of_toNat_eq
        have hno : result.toNat = 0 := by rw [hzero]; rfl
        have hlt := size.isLt
        rw [hnew]
        rw [hresult] at hno
        unfold alignUp at hsum hfits ⊢
        omega
      rw [hnone]
      dsimp only
      rw [hsame, set_used hspace]
      exact ⟨rfl, space, hspace, htotal, hstack, hstack ▸ hused, habove⟩
    · have hpositive : 0 < result.toNat := by
        rcases Nat.eq_zero_or_pos result.toNat with h0 | h0
        · exact absurd (BitVec.eq_of_toNat_eq h0) hne
        · exact h0
      have hexact : space.sizeStackUsed.toNat + alignUp size.toNat 16 < 2 ^ 32 := by
        rcases hfits with hlt | ⟨hall, -⟩
        · exact hlt
        · rw [hall] at hresult
          omega
      rw [Nat.mod_eq_of_lt hexact] at hsum hnew
      rw [hsome]
      refine ⟨⟨by simp [StackAsked], ⟨?_, ?_⟩, fun o ho => .inl ?_⟩, ?_⟩
      · simp only [stackArea, ← htotal, ← hstack]
        omega
      · simp only [stackArea, ← htotal]
        omega
      · have := habove o ho
        rw [← htotal] at this
        dsimp only
        omega
      · refine ⟨_, lookup_set hspace, htotal, hstack, ?_, fun o ho => ?_⟩
        · dsimp only
          rw [hnew, ← hstack]
          exact hsum
        · rw [← htotal]
          dsimp only
          rcases List.mem_cons.mp ho with rfl | ho
          · dsimp only
            omega
          · have := habove o ho
            rw [← htotal] at this
            omega

/-- A sum that does not fit comes out small, and is accepted. -/
theorem Stacked.not_granted {laid : X86Space} (hroom : laid.sizeStack.toNat ≤ laid.sizeTotal.toNat)
    (hpage : laid.sizeTotal.toNat ≤ 2 ^ 32 - 16) (h : Stacked laid spaceId ss taken)
    (hfits : ¬ StackSumFits spaceId ss size) : ∃ t answer,
      ustackAlloc spaceId ss size = some (t, answer) ∧
        ¬ Granted StackAsked laid.stackArea ss taken size t answer := by
  obtain ⟨space, hspace, htotal, hstack, hused, -⟩ := h
  have hover : 2 ^ 32 ≤ space.sizeStackUsed.toNat + alignUp size.toNat 16 ∧
      (space.sizeStackUsed = space.sizeTotal → size.toNat ≤ 2 ^ 32 - 16) := by
    have hnot := fun hor => hfits ⟨space, hspace, hor⟩
    obtain ⟨hsum, hall⟩ := not_or.mp hnot
    exact ⟨by omega, fun he => Nat.not_lt.mp fun hlt => hall ⟨he, hlt⟩⟩
  have hlt := size.isLt
  rw [← htotal] at hpage
  rw [← htotal, ← hstack] at hroom
  rw [← hstack] at hused
  have hceil : alignUp size.toNat 16 ≤ size.toNat + 15 ∧ alignUp size.toNat 16 ≤ 2 ^ 32 := by
    unfold alignUp
    omega
  rcases jaUstackAlloc_cases size hspace (by omega) with
    ⟨hsum, -⟩ | ⟨hsum, new, result, hnew, hresult, hcall⟩
  · omega
  · refine ⟨ss.set (spaceId - 1) { space with sizeStackUsed := new }, stackRegion result size, ?_, ?_⟩
    · rw [ustackAlloc, hcall]
      rfl
    · rcases stackRegion_cases result size with ⟨hzero, hnone⟩ | ⟨hne, hsome⟩
      · rw [hnone]
        intro hsame
        have hget : lookup (ss.set (spaceId - 1) { space with sizeStackUsed := new }) spaceId =
            some space := by
          rw [show ss.set (spaceId - 1) { space with sizeStackUsed := new } = ss from hsame]
          exact hspace
        rw [lookup_set hspace] at hget
        have hequal : new = space.sizeStackUsed :=
          congrArg X86Space.sizeStackUsed (Option.some.inj hget)
        have hno : result.toNat = 0 := by rw [hzero]; rfl
        have hsize := hover.2 (BitVec.eq_of_toNat_eq (by omega))
        have hless : alignUp size.toNat 16 ≤ 2 ^ 32 - 16 := by
          unfold alignUp
          omega
        rw [hequal] at hnew
        omega
      · rw [hsome]
        rintro ⟨-, ⟨hlow, -⟩, -⟩
        simp only [stackArea, ← htotal, ← hstack] at hlow
        omega

/-- From the start of a partition on, exactly the sequences whose sums all fit are answered
well. -/
theorem stacks_proper (hinit : jaSpaceInit spaces = some inited)
    (hspace : lookup inited spaceId = some space) (hfit : space.memoryNeeded < 2 ^ 32)
    (hstart : jaUstackInit inited spaceId = some ss) (sizes : List Word) :
    (space.heapNeeded : Int) ≤ space.stackArea.start ∧
      (Proper (ustackAlloc spaceId) StackAsked space.stackArea ss [] sizes ↔
        Run.Meets (fun ss size => (ustackAlloc spaceId ss size).map Prod.fst)
          (StackSumFits spaceId) ss sizes) := by
  have htotal : space.sizeTotal.toNat = space.memoryNeeded := by
    obtain ⟨-, he⟩ := spaceInit_laid hinit space (List.mem_of_getElem? (lookup_eq.mp hspace).2)
    rw [he, initSizeTotal_toNat hfit]
  have hle := heapNeeded_le space
  have hpage : space.memoryNeeded % 0x1000 = 0 := Nat.mul_mod_left ..
  have hroom : space.sizeStack.toNat ≤ space.sizeTotal.toNat := by omega
  have hstacked : Stacked space spaceId ss [] := by
    rw [jaUstackInit, hspace] at hstart
    obtain rfl := Option.some.inj hstart
    exact ⟨_, lookup_set hspace, rfl, rfl, Nat.zero_le _, by simp⟩
  refine ⟨?_, proper_iff (Stacked space spaceId) (fun _ _ _ _ _ h hfits ha => h.granted hroom hfits ha)
    (fun _ _ _ h hfits => h.not_granted hroom (by omega) hfits) hstacked⟩
  simp only [stackArea]
  omega

end X86Space

namespace PpcSpace

variable {space : PpcSpace} {spaces inited ss tt : List PpcSpace} {spaceId : Nat} {size : Word}
  {taken : List Region}

def ustackAlloc (spaceId : Nat) (ss : List PpcSpace) (size : Word) :
    Option (List PpcSpace × Option Region) :=
  (jaUstackAlloc ss spaceId size).map fun r => (r.1, stackRegion r.2 size)

/-- The end of the heap of a space, without overflow -/
def heapNeeded (space : PpcSpace) : Nat :=
  if 0 < space.sizeHeap.toNat then alignUp space.sizeNormal.toNat 16 + space.sizeHeap.toNat
  else space.sizeNormal.toNat

/-- What is behind the heap -/
def stackArea (space : PpcSpace) : Region :=
  ⟨0x80000000 + space.heapNeeded, 0x80000000 + 0x1000000⟩

/-- The stack lies behind the heap. -/
def StackBehindHeap (spaceId : Nat) (ss : List PpcSpace) (size : Word) : Prop :=
  ∃ space, lookup ss spaceId = some space ∧
    0x80000000 + space.heapNeeded + size.toNat ≤ space.ustackState.toNat

theorem lookup_eq : lookup ss spaceId = some space ↔
    spaceId ≠ 0 ∧ ss[spaceId - 1]? = some space := by
  simp [lookup]

theorem lookup_set {state : Word} (h : lookup ss spaceId = some space) :
    lookup (ss.set (spaceId - 1) { space with ustackState := state }) spaceId =
      some { space with ustackState := state } := by
  obtain ⟨hne, hget⟩ := lookup_eq.mp h
  refine lookup_eq.mpr ⟨hne, ?_⟩
  rw [List.getElem?_set_self (List.getElem?_eq_some_iff.mp hget).1]

/-- The space whose stacks are allocated, with the regions that have been handed out above.
The rounding may take the next one a little below the heap's end. -/
def Stacked (laid : PpcSpace) (spaceId : Nat) (ss : List PpcSpace) (taken : List Region) : Prop :=
  ∃ space, lookup ss spaceId = some space ∧ space.heapNeeded = laid.heapNeeded ∧
    space.ustackState.toNat ≤ 0x80fffff0 ∧
    (space.ustackState.toNat = 0x80fffff0 ∨
      0x80000000 + laid.heapNeeded ≤ space.ustackState.toNat + 15) ∧
    ∀ o ∈ taken, (space.ustackState.toNat : Int) ≤ o.start

theorem Stacked.positive {laid : PpcSpace} (h : Stacked laid spaceId ss taken) :
    ∃ space, lookup ss spaceId = some space ∧ space.ustackState ≠ 0 := by
  obtain ⟨space, hspace, -, -, hstate, -⟩ := h
  refine ⟨space, hspace, fun hzero => ?_⟩
  have hno : space.ustackState.toNat = 0 := by rw [hzero]; rfl
  omega

theorem ustackAlloc_eq (hspace : lookup ss spaceId = some space) (hne : space.ustackState ≠ 0) :
    ustackAlloc spaceId ss size = some
      (ss.set (spaceId - 1) { space with ustackState := space.ustackState - alignVal size 16 },
        some ⟨space.ustackState.toNat - size.toNat, space.ustackState.toNat⟩) := by
  rw [ustackAlloc, jaUstackAlloc, hspace, Option.map_some, Option.map_some]
  dsimp only
  rw [stackRegion, if_neg hne]

theorem Stacked.granted {laid : PpcSpace} {t : List PpcSpace} {answer : Option Region}
    (h : Stacked laid spaceId ss taken) (hfits : StackBehindHeap spaceId ss size)
    (ha : ustackAlloc spaceId ss size = some (t, answer)) :
    Granted StackAsked laid.stackArea ss taken size t answer ∧
      Stacked laid spaceId t (answer.toList ++ taken) := by
  obtain ⟨space, hspace, hne⟩ := h.positive
  obtain ⟨space', hspace', hheap, hhigh, -, habove⟩ := h
  obtain rfl := Option.some.inj (hspace.symm.trans hspace')
  obtain ⟨space', hspace', hfits⟩ := hfits
  obtain rfl := Option.some.inj (hspace.symm.trans hspace')
  rw [ustackAlloc_eq hspace hne] at ha
  obtain ⟨rfl, rfl⟩ := Prod.mk.inj (Option.some.inj ha)
  have hround : (alignVal size 16).toNat ≤ size.toNat + 15 ∧
      size.toNat ≤ (alignVal size 16).toNat := by
    rw [alignVal_16_toNat]
    unfold alignUp
    omega
  have hstate : (space.ustackState - alignVal size 16).toNat =
      space.ustackState.toNat - (alignVal size 16).toNat := by
    have := (alignVal size 16).isLt
    rw [BitVec.toNat_sub]
    omega
  refine ⟨⟨by simp [StackAsked], ⟨?_, ?_⟩, fun o ho => .inl (habove o ho)⟩, ?_⟩
  · simp only [stackArea, ← hheap]
    omega
  · simp only [stackArea]
    omega
  · refine ⟨_, lookup_set hspace, hheap, ?_, .inr ?_, fun o ho => ?_⟩
    · dsimp only
      omega
    · dsimp only
      omega
    · dsimp only
      rcases List.mem_cons.mp ho with rfl | ho
      · dsimp only
        omega
      · have := habove o ho
        omega

theorem Stacked.not_granted {laid : PpcSpace} (h : Stacked laid spaceId ss taken)
    (hfits : ¬ StackBehindHeap spaceId ss size) : ∃ t answer,
      ustackAlloc spaceId ss size = some (t, answer) ∧
        ¬ Granted StackAsked laid.stackArea ss taken size t answer := by
  obtain ⟨space, hspace, hne⟩ := h.positive
  obtain ⟨space', hspace', hheap, -⟩ := h
  obtain rfl := Option.some.inj (hspace.symm.trans hspace')
  refine ⟨_, _, ustackAlloc_eq hspace hne, ?_⟩
  rintro ⟨-, ⟨hlow, -⟩, -⟩
  simp only [stackArea, ← hheap] at hlow
  exact hfits ⟨space, hspace, by omega⟩

theorem stacks_proper (hspace : lookup spaces spaceId = some space)
    (hstart : jaUstackInit spaces spaceId = some ss) (sizes : List Word) :
    Proper (ustackAlloc spaceId) StackAsked space.stackArea ss [] sizes ↔
      Run.Meets (fun ss size => (ustackAlloc spaceId ss size).map Prod.fst)
        (StackBehindHeap spaceId) ss sizes := by
  have htop : ((partitionMemoryBase + partitionMemorySize - 16).setWidth 32).toNat = 0x80fffff0 := by
    decide
  have hstacked : Stacked space spaceId ss [] := by
    rw [jaUstackInit, hspace] at hstart
    obtain rfl := Option.some.inj hstart
    exact ⟨_, lookup_set hspace, rfl, htop.le, .inl htop, by simp⟩
  exact proper_iff (Stacked space spaceId) (fun _ _ _ _ _ h hfits ha => h.granted hfits ha)
    (fun _ _ _ h hfits => h.not_granted hfits) hstacked

end PpcSpace

/-- Stacks are taken as they must be, disjoint and behind the heap, as long as, on x86, no sum of sizes
wraps, and, on PowerPC, each stack lies behind the heap. -/
theorem user_stacks {spaces inited ss : List X86Space} {spaceId : Nat} {space : X86Space}
    (hinit : X86Space.jaSpaceInit spaces = some inited)
    (hspace : X86Space.lookup inited spaceId = some space) (hfit : space.memoryNeeded < 2 ^ 32)
    (hstart : X86Space.jaUstackInit inited spaceId = some ss)
    {ppcSpaces ppcSs : List PpcSpace} {ppcId : Nat} {ppcSpace : PpcSpace}
    (hppc : PpcSpace.lookup ppcSpaces ppcId = some ppcSpace)
    (hppcStart : PpcSpace.jaUstackInit ppcSpaces ppcId = some ppcSs) (sizes : List Word) :
    ((space.heapNeeded : Int) ≤ space.stackArea.start ∧
      (Proper (X86Space.ustackAlloc spaceId) StackAsked space.stackArea ss [] sizes ↔
        Run.Meets (fun ss size => (X86Space.ustackAlloc spaceId ss size).map Prod.fst)
          (X86Space.StackSumFits spaceId) ss sizes)) ∧
    (Proper (PpcSpace.ustackAlloc ppcId) StackAsked ppcSpace.stackArea ppcSs [] sizes ↔
      Run.Meets (fun ss size => (PpcSpace.ustackAlloc ppcId ss size).map Prod.fst)
        (PpcSpace.StackBehindHeap ppcId) ppcSs sizes) := by
  constructor
  · exact X86Space.stacks_proper hinit hspace hfit hstart sizes
  · exact PpcSpace.stacks_proper hppc hppcStart sizes

/-- A space with room for two stacks of two pages, before and after the initialization -/
def x86Stacks : X86Space := ⟨0, 0x5004, 0x100, 0x4000, 0, 0, 0⟩

def x86Laid : X86Space := ⟨0x1000000, 0x5004, 0x100, 0x4000, 0xa000, 0x5110, 0⟩

def ppcStacks (ustackState : Word) : PpcSpace := ⟨0x5004, 0x100, ustackState⟩

theorem user_stacks_twoThreads :
    (X86Space.jaSpaceInit [x86Stacks] = some [x86Laid] ∧
      X86Space.jaUstackInit [x86Laid] 1 = some [x86Laid] ∧
      Proper (X86Space.ustackAlloc 1) StackAsked x86Laid.stackArea [x86Laid] [] [0x2000, 0x1ff8]) ∧
    PpcSpace.jaUstackInit [ppcStacks 0] 1 = some [ppcStacks 0x80fffff0] ∧
      Proper (PpcSpace.ustackAlloc 1) StackAsked (ppcStacks 0).stackArea [ppcStacks 0x80fffff0] []
        [0x2000, 0x1ff8] := by
  have hinit : X86Space.jaSpaceInit [x86Stacks] = some [x86Laid] := by decide
  have hstart : X86Space.jaUstackInit [x86Laid] 1 = some [x86Laid] := by decide
  have hstart' : PpcSpace.jaUstackInit [ppcStacks 0] 1 = some [ppcStacks 0x80fffff0] := by decide
  obtain ⟨⟨-, hx86⟩, hppc⟩ := user_stacks hinit
    (show X86Space.lookup [x86Laid] 1 = some x86Laid from rfl) (by decide) hstart
    (show PpcSpace.lookup [ppcStacks 0] 1 = some (ppcStacks 0) from rfl) hstart' [0x2000, 0x1ff8]
  refine ⟨⟨hinit, hstart, hx86.mpr ⟨⟨x86Laid, rfl, by decide⟩, fun t ht => ?_⟩⟩, hstart',
    hppc.mpr ⟨⟨ppcStacks 0x80fffff0, rfl, by decide⟩, fun t ht => ?_⟩⟩
  · obtain rfl := Option.some.inj ht
    exact ⟨⟨{ x86Laid with sizeStackUsed := 0x2000 }, by decide, by decide⟩, fun _ _ => trivial⟩
  · obtain rfl := Option.some.inj ht
    exact ⟨⟨ppcStacks 0x80ffdff0, by decide, by decide⟩, fun _ _ => trivial⟩

/-- A size that is rounded up to 0 on x86, and one that is all the memory on PowerPC -/
theorem user_stacks_fail :
    ¬ Proper (X86Space.ustackAlloc 1) StackAsked x86Laid.stackArea [x86Laid] [] [0xffffffff] ∧
      ¬ Proper (PpcSpace.ustackAlloc 1) StackAsked (ppcStacks 0).stackArea
        [ppcStacks 0x80fffff0] [] [0x1000000] := by
  constructor
  · intro h
    have hanswer : X86Space.ustackAlloc 1 [x86Laid] 0xffffffff =
        some ([x86Laid], some ⟨0xa000 - 0xffffffff, 0xa000⟩) := by decide
    obtain ⟨⟨-, ⟨hlow, -⟩, -⟩, -⟩ := h _ _ hanswer
    revert hlow
    decide
  · intro h
    have hanswer : PpcSpace.ustackAlloc 1 [ppcStacks 0x80fffff0] 0x1000000 =
        some ([ppcStacks 0x7ffffff0], some ⟨0x80fffff0 - 0x1000000, 0x80fffff0⟩) := by decide
    obtain ⟨⟨-, ⟨hlow, -⟩, -⟩, -⟩ := h _ _ hanswer
    revert hlow
    decide

end Chpok
