import Chpok.Kernel.PpcTlb
import Chpok.Library.Run
import Mathlib.Data.List.Range

/-! Which entries the mappings of partitions take. The entries behind the resident ones are taken
in turn, the last of them included. -/

namespace Chpok

namespace Tlb1

variable {s t : Tlb1} {spaces : List PpcMappedSpace} {outs : List (Option Nat)} {r n m i : Nat}

theorem nentry_le (s : Tlb1) : s.nentry ≤ 4095 := by
  rw [nentry, BitVec.toNat_and]
  exact Nat.and_le_right

theorem esel_of_lt (h : i < 4096) : esel i = i := by
  have hshift : (BitVec.ofNat 32 i <<< 16).toNat = i <<< 16 := by
    rw [BitVec.toNat_shiftLeft, BitVec.toNat_ofNat, Nat.shiftLeft_eq, Nat.shiftLeft_eq]
    omega
  have hmask : i &&& 0xfff = i := Nat.and_two_pow_sub_one_of_lt_two_pow (n := 12) h
  rw [esel, BitVec.toNat_ushiftRight, BitVec.toNat_and, hshift, Nat.shiftRight_and_distrib,
    Nat.shiftLeft_shiftRight]
  exact hmask

/-- Entries that must stay: those of the kernel, the resident ones, and the last one with the
device registers. -/
def Permanent (residents : List Nat) (n i : Nat) : Prop := i < 2 ∨ i ∈ residents ∨ i + 1 = n

instance (residents : List Nat) (n : Nat) : DecidablePred (Permanent residents n) :=
  fun _ => inferInstanceAs (Decidable (_ ∨ _))

/-- `m` mappings of partitions have been made since the last of the resident ones below `r`. -/
structure Taken (r n : Nat) (boot : Tlb1) (m : Nat) (s : Tlb1) (outs : List (Option Nat)) : Prop where
  size : s.nentry = n
  resident : s.nextResident = r
  low : r ≤ s.nextNonResident
  turn : r + m ≤ n → s.nextNonResident = r + m
  room : m ≠ 0 → r < n
  taken : ∀ i, some i ∈ outs ↔ r ≤ i ∧ i < n ∧ i < r + m
  kept : ∀ i, some i ∉ outs → s.entries i = boot.entries i

theorem write_entries_ne (mapping : TlbMapping) (h : i < 4096) {j : Nat} (hne : j ≠ i) :
    (s.pokPpcTlbWrite mapping i).entries j = s.entries j := by
  rw [pokPpcTlbWrite, esel_of_lt h]
  exact Function.update_of_ne hne _ _

theorem pokGetNextTlb1Index_false (h : s.pokGetNextTlb1Index false = some (t, i)) :
    i = (if s.nentry ≤ s.nextNonResident then s.nextResident else s.nextNonResident) ∧
      i < s.nentry ∧ t = { s with nextNonResident := i + 1 } := by
  simp only [pokGetNextTlb1Index, Bool.false_eq_true, if_false, ge_iff_le] at h
  generalize (if s.nentry ≤ s.nextNonResident then s.nextResident else s.nextNonResident) = next at *
  by_cases hfull : s.nentry ≤ next
  · rw [if_pos hfull] at h
    contradiction
  · rw [if_neg hfull] at h
    obtain ⟨rfl, rfl⟩ := Prod.mk.inj (Option.some.inj h)
    exact ⟨rfl, Nat.lt_of_not_le hfull, rfl⟩

theorem Taken.insert {boot : Tlb1} {mapping : TlbMapping} (h : Taken r n boot m s outs)
    (hi : s.pokInsertTlb1 mapping false = some (t, i)) :
    Taken r n boot (m + 1) t (outs ++ [some i]) := by
  obtain ⟨⟨u, j⟩, hindex, he⟩ := Option.map_eq_some_iff.mp hi
  obtain ⟨rfl, rfl⟩ := Prod.mk.inj he
  obtain ⟨hj, hlt, rfl⟩ := pokGetNextTlb1Index_false hindex
  rw [h.size, h.resident] at hj
  rw [h.size] at hlt
  have hlow := h.low
  have hturn := h.turn
  have hbig : j < 4096 := by
    have hn := h.size ▸ s.nentry_le
    omega
  have hrj : r ≤ j ∧ (j = r + m ∨ n ≤ r + m) := by
    split_ifs at hj with hwrap
    · omega
    · omega
  refine ⟨h.size, h.resident, ?_, fun hle => ?_, fun _ => by omega, fun i => ?_, fun i hnot => ?_⟩
  · change r ≤ j + 1
    omega
  · change j + 1 = r + (m + 1)
    omega
  · rw [List.mem_append, List.mem_singleton, h.taken i, Option.some.injEq]
    omega
  · rw [List.mem_append, List.mem_singleton, Option.some.injEq, not_or] at hnot
    rw [write_entries_ne mapping hbig hnot.2]
    exact h.kept i hnot.1

theorem Taken.pageFault {boot : Tlb1} {fault : PageFault} {out : Option Nat}
    (h : Taken r n boot m s outs)
    (hf : pokArchHandlePageFault spaces s fault = some (t, out)) :
    Taken r n boot (m + if IsPartitionMiss fault then 1 else 0) t (outs ++ [out]) := by
  rw [pokArchHandlePageFault] at hf
  split_ifs at hf ⊢ with hmiss
  · obtain ⟨space, -, hinsert⟩ := Option.bind_eq_some_iff.mp hf
    obtain ⟨⟨u, i⟩, hi, he⟩ := Option.map_eq_some_iff.mp hinsert
    obtain ⟨rfl, rfl⟩ := Prod.mk.inj he
    exact h.insert hi
  · obtain ⟨rfl, rfl⟩ := Prod.mk.inj (Option.some.inj hf)
    refine ⟨h.size, h.resident, h.low, h.turn, h.room, fun i => ?_, fun i hnot => ?_⟩
    · simp [h.taken i]
    · exact h.kept i fun hin => hnot (List.mem_append_left _ hin)

theorem Taken.pageFaults {boot : Tlb1} {faults : List PageFault} {outs' : List (Option Nat)}
    (h : Taken r n boot m s outs)
    (hrun : Run.exec (Run.record (pokArchHandlePageFault spaces)) (s, outs) faults =
      some (t, outs')) :
    Taken r n boot (m + faults.countP (IsPartitionMiss ·)) t outs' := by
  induction faults generalizing s outs m with
  | nil =>
    obtain ⟨rfl, rfl⟩ := Prod.mk.inj (Option.some.inj hrun)
    exact h
  | cons fault faults ih =>
    obtain ⟨u, hu, hrest⟩ := Run.exec_cons.mp hrun
    obtain ⟨⟨v, out⟩, hf, rfl⟩ := Option.map_eq_some_iff.mp hu
    have hnext := ih (h.pageFault hf) hrest
    rw [Nat.add_right_comm, Nat.add_assoc] at hnext
    rw [List.countP_cons]
    simpa using hnext

theorem insertEntries_indices {mappings : List TlbMapping} {indices : List Nat}
    (h : insertEntries s mappings = some (t, indices)) (hnext : s.nextNonResident = s.nextResident) :
    indices = List.range' s.nextResident mappings.length ∧ t.nentry = s.nentry ∧
      t.nextResident = s.nextResident + mappings.length ∧ t.nextNonResident = t.nextResident := by
  induction mappings generalizing s indices with
  | nil =>
    obtain ⟨rfl, rfl⟩ := Prod.mk.inj (Option.some.inj h)
    exact ⟨rfl, rfl, rfl, hnext⟩
  | cons mapping mappings ih =>
    obtain ⟨⟨u, i⟩, hu, hrest⟩ := Option.bind_eq_some_iff.mp h
    obtain ⟨⟨v, is⟩, hv, he⟩ := Option.map_eq_some_iff.mp hrest
    obtain ⟨rfl, rfl⟩ := Prod.mk.inj he
    obtain ⟨⟨w, j⟩, hw, he⟩ := Option.map_eq_some_iff.mp hu
    obtain ⟨rfl, rfl⟩ := Prod.mk.inj he
    simp only [pokGetNextTlb1Index, if_true] at hw
    split_ifs at hw
    obtain ⟨rfl, rfl⟩ := Prod.mk.inj (Option.some.inj hw)
    obtain ⟨his, hsize, hres, hnon⟩ := ih hv rfl
    refine ⟨?_, hsize, ?_, hnon⟩
    · rw [his]
      rfl
    · rw [hres]
      simp only [pokPpcTlbWrite, List.length_cons]
      omega

theorem pokArchSpaceInit_indices {tlb1cfg : Word} {entries : Nat → TlbEntry} {ccsrbar : Ccsrbar}
    {mappings : List TlbMapping} {residents : List Nat}
    (h : (boot tlb1cfg entries).pokArchSpaceInit ccsrbar mappings spaces = some (s, residents)) :
    residents = 0 :: List.range' 2 mappings.length ∧ s.nextResident = mappings.length + 2 ∧
      s.nextNonResident = mappings.length + 2 := by
  obtain ⟨⟨u, i⟩, hu, hrest⟩ := Option.bind_eq_some_iff.mp h
  obtain ⟨⟨v, is⟩, hv, hall⟩ := Option.bind_eq_some_iff.mp hrest
  obtain ⟨⟨w, j⟩, hw, he⟩ := Option.map_eq_some_iff.mp hu
  obtain ⟨-, rfl⟩ := Prod.mk.inj he
  simp only [pokGetNextTlb1Index, if_true] at hw
  split_ifs at hw
  obtain ⟨-, rfl⟩ := Prod.mk.inj (Option.some.inj hw)
  obtain ⟨his, -, hres, hnon⟩ := insertEntries_indices hv rfl
  split_ifs at hall
  obtain ⟨rfl, rfl⟩ := Prod.mk.inj (Option.some.inj hall)
  exact ⟨by rw [his]; rfl, by rw [hres, Nat.add_comm], by rw [hnon, hres, Nat.add_comm]⟩

theorem Taken.start (hres : s.nextResident = r) (hnon : s.nextNonResident = r) :
    Taken r s.nentry s 0 s [] where
  size := rfl
  resident := hres
  low := hnon.ge
  turn _ := hnon
  room h := absurd rfl h
  taken i := by
    simp only [List.not_mem_nil, false_iff]
    omega
  kept _ _ := rfl

/-- The entry of the device registers is taken as soon as there are as many mappings of partitions
as entries behind the resident ones. -/
theorem tlb1_allocation {tlb1cfg : Word} {entries : Nat → TlbEntry} {ccsrbar : Ccsrbar}
    {mappings : List TlbMapping} {residents : List Nat} {faults : List PageFault}
    (hinit : (boot tlb1cfg entries).pokArchSpaceInit ccsrbar mappings spaces = some (s, residents))
    (hrun : Run.exec (Run.record (pokArchHandlePageFault spaces)) (s, []) faults = some (t, outs)) :
    residents.Nodup ∧
    ((∀ i, some i ∈ outs → i < s.nentry ∧ ¬ Permanent residents s.nentry i) ↔
      faults.countP (IsPartitionMiss ·) = 0 ∨
        faults.countP (IsPartitionMiss ·) + mappings.length + 2 < s.nentry) ∧
    ((∀ i, some i ∈ outs → ¬ Permanent residents s.nentry i) →
      ∀ i, Permanent residents s.nentry i → t.entries i = s.entries i) := by
  obtain ⟨rfl, hres, hnon⟩ := pokArchSpaceInit_indices hinit
  have htaken := (Taken.start hres hnon).pageFaults hrun
  rw [Nat.zero_add] at htaken
  generalize faults.countP (IsPartitionMiss ·) = m at htaken ⊢
  have hpermanent : ∀ i, mappings.length + 2 ≤ i →
      (Permanent (0 :: List.range' 2 mappings.length) s.nentry i ↔ i + 1 = s.nentry) := by
    intro i hi
    simp only [Permanent, List.mem_cons, List.mem_range'_1]
    omega
  refine ⟨?_, ⟨fun h => ?_, fun h i hi => ?_⟩, fun h i hi => htaken.kept i fun hin => h i hin hi⟩
  · refine List.nodup_cons.mpr ⟨?_, List.nodup_range'⟩
    rw [List.mem_range'_1]
    omega
  · by_contra hlast
    obtain ⟨hm, hfull⟩ := not_or.mp hlast
    have hroom := htaken.room hm
    have hin := (htaken.taken (s.nentry - 1)).mpr (by omega)
    exact (h _ hin).2 ((hpermanent _ (by omega)).mpr (by omega))
  · obtain ⟨hlow, hsize, hturn⟩ := (htaken.taken i).mp hi
    refine ⟨hsize, fun hp => ?_⟩
    have hlast := (hpermanent i hlow).mp hp
    omega

/-- Two partitions, on a processor with 64 entries -/
def twoSpaces : List PpcMappedSpace :=
  [{ sizeNormal := 0x10000, sizeHeap := 0, ustackState := 0, physBase := 0x4000000 },
    { sizeNormal := 0x10000, sizeHeap := 0, ustackState := 0, physBase := 0x5000000 }]

/-- `count` pages of devices for partition 1 -/
def devicePages (count : Nat) : List TlbMapping :=
  (List.range count).map fun i =>
    ⟨0xa0000000 + 0x1000 * BitVec.ofNat 32 i, 0xf0000000 + 0x1000 * BitVec.ofNat 64 i, 0b00010,
      0xf, 0x1e, 1⟩

/-- Each partition accesses its memory for the first time. -/
def firstAccesses : List PageFault :=
  [⟨.instTlbMiss, 1, 0x80001000⟩, ⟨.instTlbMiss, 2, 0x80001000⟩]

/-- The state after the initialisation with the device pages, and the one after the accesses. -/
def accessedWith (count : Nat) : Option ((Tlb1 × List Nat) × Tlb1 × List (Option Nat)) :=
  ((boot 64 fun _ => ⟨0, 0, 0, 0⟩).pokArchSpaceInit ⟨0xe0000000, 0xfe000000⟩ (devicePages count)
    twoSpaces).bind fun q =>
      (Run.exec (Run.record (pokArchHandlePageFault twoSpaces)) (q.1, []) firstAccesses).map fun r =>
        (q, r)

theorem exists_of_accessedWith {count : Nat} {q : (Tlb1 × List Nat) × Tlb1 × List (Option Nat)}
    (h : accessedWith count = some q) :
    (boot 64 fun _ => ⟨0, 0, 0, 0⟩).pokArchSpaceInit ⟨0xe0000000, 0xfe000000⟩ (devicePages count)
        twoSpaces = some q.1 ∧
      Run.exec (Run.record (pokArchHandlePageFault twoSpaces)) (q.1.1, []) firstAccesses = some q.2 := by
  obtain ⟨r, hr, hq⟩ := Option.bind_eq_some_iff.mp h
  obtain ⟨u, hu, rfl⟩ := Option.map_eq_some_iff.mp hq
  exact ⟨hr, hu⟩

theorem tlb1_allocation_oneDevice :
    ∃ q, accessedWith 1 = some q ∧ q.2.2 = [some 3, some 4] ∧
      ∀ i, some i ∈ q.2.2 → i < q.1.1.nentry ∧ ¬ Permanent q.1.2 q.1.1.nentry i := by
  have hview : (accessedWith 1).map (fun q => (q.2.2, q.1.1.nentry)) = some ([some 3, some 4], 64) := by
    decide +kernel
  obtain ⟨q, hq, hv⟩ := Option.map_eq_some_iff.mp hview
  obtain ⟨houts, hsize⟩ := Prod.mk.inj hv
  obtain ⟨hinit, hrun⟩ := exists_of_accessedWith hq
  refine ⟨q, hq, houts, (tlb1_allocation hinit hrun).2.1.mpr (.inr ?_)⟩
  rw [hsize]
  decide

/-- With 60 device pages the second partition gets the entry of the device registers. -/
theorem tlb1_allocation_fails :
    ∃ q, accessedWith 60 = some q ∧ some 63 ∈ q.2.2 ∧ Permanent q.1.2 q.1.1.nentry 63 ∧
      q.2.1.entries 63 ≠ q.1.1.entries 63 := by
  have hview : (accessedWith 60).map (fun q => (decide (some 63 ∈ q.2.2),
      decide (Permanent q.1.2 q.1.1.nentry 63), decide (q.2.1.entries 63 = q.1.1.entries 63))) =
        some (true, true, false) := by
    decide +kernel
  obtain ⟨q, hq, hv⟩ := Option.map_eq_some_iff.mp hview
  simp only [Prod.mk.injEq, decide_eq_true_eq, decide_eq_false_iff_not] at hv
  exact ⟨q, hq, hv.1, hv.2.1, hv.2.2⟩

end Tlb1

end Chpok
