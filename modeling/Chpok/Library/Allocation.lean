import Chpok.Library.Alignment
import Chpok.Library.Run
import Mathlib.Algebra.Order.Ring.Int

/-! Allocators that hand out regions of an area and never take them back. A request is granted
with a region of its own or refused, and then nothing changes. Addresses of a bump allocator are
numbers modulo the size of a word, so that an end may come out too small. -/

namespace Allocation

open Alignment

/-- The addresses from `start` on and before `stop` -/
structure Region where
  start : Int
  stop : Int
  deriving DecidableEq, Repr

def Region.Inside (r area : Region) : Prop := area.start ≤ r.start ∧ r.stop ≤ area.stop

def Region.Apart (r s : Region) : Prop := r.stop ≤ s.start ∨ s.stop ≤ r.start

variable {S Q : Type*} {alloc : S → Q → Option (S × Option Region)} {asked : Q → Region → Prop}
  {area r free : Region} {taken : List Region} {s t : S} {q : Q} {qs : List Q}

/-- The answer to one request, where `taken` has been handed out before -/
def Granted (asked : Q → Region → Prop) (area : Region) (s : S) (taken : List Region) (q : Q) (t : S) :
    Option Region → Prop
  | none => t = s
  | some r => asked q r ∧ r.Inside area ∧ ∀ other ∈ taken, r.Apart other

/-- All requests of a sequence are answered well. -/
def Proper (alloc : S → Q → Option (S × Option Region)) (asked : Q → Region → Prop) (area : Region) :
    S → List Region → List Q → Prop
  | _, _, [] => True
  | s, taken, q :: qs => ∀ t answer, alloc s q = some (t, answer) →
      Granted asked area s taken q t answer ∧
        Proper alloc asked area t (answer.toList ++ taken) qs

/-- If exactly the requests that meet a condition are answered well, then a sequence is exactly
if all its requests meet it. -/
theorem proper_iff (inv : S → List Region → Prop) {ok : S → Q → Prop}
    (hgood : ∀ s taken q t answer, inv s taken → ok s q → alloc s q = some (t, answer) →
      Granted asked area s taken q t answer ∧ inv t (answer.toList ++ taken))
    (hbad : ∀ s taken q, inv s taken → ¬ ok s q →
      ∃ t answer, alloc s q = some (t, answer) ∧ ¬ Granted asked area s taken q t answer)
    (hs : inv s taken) :
    Proper alloc asked area s taken qs ↔
      Run.Meets (fun s q => (alloc s q).map Prod.fst) ok s qs := by
  induction qs generalizing s taken with
  | nil => exact Iff.rfl
  | cons q qs ih =>
    constructor
    · intro h
      have hok : ok s q := by
        by_contra hne
        obtain ⟨t, answer, ha, hnot⟩ := hbad s taken q hs hne
        exact hnot (h t answer ha).1
      refine ⟨hok, fun t ht => ?_⟩
      obtain ⟨⟨t', answer⟩, ha, he⟩ := Option.map_eq_some_iff.mp ht
      subst he
      exact (ih (hgood s taken q t' answer hs hok ha).2).mp (h t' answer ha).2
    · rintro ⟨hok, hrest⟩ t answer ha
      obtain ⟨hgranted, ht⟩ := hgood s taken q t answer hs hok ha
      exact ⟨hgranted, (ih ht).mpr (hrest t (by simp [ha]))⟩

/-! Allocators that go upwards -/

/-- A request to an allocator whose addresses are numbers below `m` -/
structure Request (m : Nat) where
  size : Nat
  align : Nat
  pos : 0 < size
  dvd : align ∣ m

variable {m base lo limit current : Nat}

def Request.start (q : Request m) (current : Nat) : Nat := alignUp current q.align % m

/-- The end of the region as it is computed -/
def Request.stop (q : Request m) (current : Nat) : Nat := (alignUp current q.align + q.size) % m

/-- The address that is returned, for an area that starts at `base` -/
def Request.address (q : Request m) (base current : Nat) : Nat := (base + q.start current) % m

def Request.region (q : Request m) (base current : Nat) : Region :=
  ⟨q.address base current, q.address base current + q.size⟩

def Request.Asked (q : Request m) (r : Region) : Prop :=
  r.stop - r.start = q.size ∧ (q.align : Int) ∣ r.start

/-- A request is refused, or its end is right and its alignment is one of the area, too. -/
def Request.Fits (q : Request m) (base limit current : Nat) : Prop :=
  limit < q.stop current ∨ alignUp current q.align + q.size < m ∧ q.align ∣ base

/-- What has been handed out lies before the current end. Only the first region can be at the
start of the area. -/
structure Frontier (base lo limit current : Nat) (taken : List Region) : Prop where
  low : lo ≤ current
  high : current ≤ limit
  before : ∀ o ∈ taken, o.stop ≤ (base + current : Nat)
  first : lo = 0 → 0 < current → ∃ o ∈ taken, o.start = base ∧ (base : Int) < o.stop

theorem Frontier.nil (h : lo ≤ limit) : Frontier base lo limit lo [] :=
  ⟨Nat.le_refl lo, h, by simp, fun hz hp => by omega⟩

theorem le_alignUp {n align : Nat} (h : 0 < align) : n ≤ alignUp n align := by
  have hdiv := Nat.div_add_mod (n + (align - 1)) align
  have hmod := Nat.mod_lt (n + (align - 1)) h
  rw [alignUp, Nat.mul_comm]
  omega

theorem alignUp_le {n k align : Nat} (h : 0 < align) (hn : n ≤ k) (hk : align ∣ k) :
    alignUp n align ≤ k := by
  obtain ⟨c, rfl⟩ := hk
  rw [alignUp, Nat.mul_comm]
  apply Nat.mul_le_mul_left
  rw [Nat.div_le_iff_le_mul_add_pred h]
  omega

theorem alignUp_zero {align : Nat} (h : 0 < align) : alignUp 0 align = 0 := by
  rw [alignUp, Nat.zero_add, Nat.div_eq_of_lt (by omega), Nat.zero_mul]

theorem Request.align_pos (q : Request m) (hm : 0 < m) : 0 < q.align :=
  Nat.pos_of_dvd_of_pos q.dvd hm

/-- A request that fits gets a region after all others. -/
theorem Frontier.fits {q : Request m} (h : Frontier base lo limit current taken)
    (hlimit : base + limit < m) (hfits : q.Fits base limit current) (hstop : q.stop current ≤ limit) :
    q.address base current = base + alignUp current q.align ∧
      (q.Asked (q.region base current) ∧
        (q.region base current).Inside ⟨base + lo, base + limit⟩ ∧
        ∀ o ∈ taken, (q.region base current).Apart o) ∧
      Frontier base lo limit (q.stop current) (q.region base current :: taken) := by
  obtain ⟨hexact, hbase⟩ := hfits.resolve_left (by omega)
  have hge := le_alignUp (n := current) (q.align_pos (by omega))
  have hlow := h.low
  have hstart : q.start current = alignUp current q.align := Nat.mod_eq_of_lt (by omega)
  have hend : q.stop current = alignUp current q.align + q.size := Nat.mod_eq_of_lt hexact
  have haddress : q.address base current = base + alignUp current q.align := by
    rw [Request.address, hstart]
    exact Nat.mod_eq_of_lt (by omega)
  have hpos := q.pos
  refine ⟨haddress, ⟨⟨by simp [Request.region], ?_⟩, ⟨?_, ?_⟩, fun o ho => .inr ?_⟩,
    ⟨?_, hstop, ?_, ?_⟩⟩
  · have hdvd : q.align ∣ q.address base current := by
      rw [haddress]
      exact Nat.dvd_add hbase (Nat.dvd_mul_left ..)
    exact Int.natCast_dvd_natCast.mpr hdvd
  · simp only [Request.region]
    omega
  · simp only [Request.region]
    omega
  · have := h.before o ho
    simp only [Request.region]
    omega
  · omega
  · intro o ho
    rcases List.mem_cons.mp ho with rfl | ho
    · simp only [Request.region]
      omega
    · have := h.before o ho
      omega
  · intro hzero _
    by_cases hcurrent : current = 0
    · have hfirst : q.address base current = base := by
        rw [haddress, hcurrent, alignUp_zero (q.align_pos (by omega)), Nat.add_zero]
      refine ⟨_, List.mem_cons_self, ?_, ?_⟩
      · simp only [Request.region, hfirst]
      · simp only [Request.region, hfirst]
        omega
    · obtain ⟨o, ho, hos, hoe⟩ := h.first hzero (by omega)
      exact ⟨o, List.mem_cons_of_mem _ ho, hos, hoe⟩

/-- A request that does not fit gets a region that it must not have. -/
theorem Frontier.not_fits {q : Request m} (h : Frontier base lo limit current taken)
    (hlimit : base + limit < m) (hfits : ¬ q.Fits base limit current) :
    q.stop current ≤ limit ∧
      ¬ (q.Asked (q.region base current) ∧
        (q.region base current).Inside ⟨base + lo, base + limit⟩ ∧
        ∀ o ∈ taken, (q.region base current).Apart o) := by
  obtain ⟨hstop, hwrong⟩ := not_or.mp hfits
  refine ⟨by omega, ?_⟩
  rintro ⟨⟨-, halign⟩, hinside, hapart⟩
  have hhigh := h.high
  have hpos := q.pos
  have hup : alignUp current q.align ≤ m := alignUp_le (q.align_pos (by omega)) (by omega) q.dvd
  obtain ⟨hlow, htop⟩ := hinside
  simp only [Request.region] at hlow htop
  rcases Nat.lt_or_eq_of_le hup with hlt | heq
  · have hstart : q.start current = alignUp current q.align := Nat.mod_eq_of_lt hlt
    -- an address beyond the last one comes out below the area
    have haddress : q.address base current = base + alignUp current q.align := by
      have hmod : q.address base current = (base + alignUp current q.align) % m := by
        rw [Request.address, hstart]
      rcases Nat.lt_or_ge (base + alignUp current q.align) m with hin | hout
      · rw [hmod, Nat.mod_eq_of_lt hin]
      · rw [Nat.mod_eq_sub_mod hout, Nat.mod_eq_of_lt (by omega)] at hmod
        omega
    apply hwrong
    refine ⟨by omega, ?_⟩
    have hdvd : q.align ∣ q.address base current := Int.natCast_dvd_natCast.mp halign
    rw [haddress] at hdvd
    exact (Nat.dvd_add_left (Nat.dvd_mul_left ..)).mp hdvd
  · -- the aligned start has come out as 0, where the first region is
    have haddress : q.address base current = base := by
      rw [Request.address, Request.start, heq, Nat.mod_self]
      exact Nat.mod_eq_of_lt (by omega)
    rw [haddress] at hlow htop
    have hcurrent : 0 < current := by
      by_contra hzero
      rw [show current = 0 by omega, alignUp_zero (q.align_pos (by omega))] at heq
      omega
    obtain ⟨o, ho, hos, hoe⟩ := h.first (by omega) hcurrent
    have hdisjoint := hapart o ho
    simp only [Region.Apart, Request.region, haddress] at hdisjoint
    omega

/-- An allocator that compares the computed end with its limit answers exactly the sequences
well whose requests all fit. What is not allowed has no answer. -/
theorem bump_proper_iff (base : Nat) (cur : S → Nat) (good : S → Prop) (request : Q → Request m)
    (qs : List Q) {allowed : S → Q → Prop} (hlimit : base + limit < m)
    (hstuck : ∀ s q, ¬ allowed s q → alloc s q = none)
    (hbump : ∀ s q, good s → allowed s q →
      limit < (request q).stop (cur s) ∧ alloc s q = some (s, none) ∨
        (request q).stop (cur s) ≤ limit ∧ ∃ t, good t ∧ cur t = (request q).stop (cur s) ∧
          alloc s q = some (t, some ((request q).region base (cur s))))
    (hs : good s) (hlow : cur s ≤ limit) :
    Proper alloc (fun q => (request q).Asked) ⟨base + cur s, base + limit⟩ s [] qs ↔
      Run.Meets (fun s q => (alloc s q).map Prod.fst)
        (fun s q => allowed s q → (request q).Fits base limit (cur s)) s qs := by
  have hinv : good s ∧ Frontier base (cur s) limit (cur s) [] := ⟨hs, Frontier.nil hlow⟩
  refine proper_iff (fun t taken => good t ∧ Frontier base (cur s) limit (cur t) taken) ?_ ?_ hinv
  · rintro u taken q t answer ⟨hu, hfront⟩ hfits ha
    have hallowed : allowed u q := by
      by_contra hnot
      rw [hstuck u q hnot] at ha
      cases ha
    rcases hbump u q hu hallowed with ⟨-, hrefused⟩ | ⟨hstop, t', ht', hcur, htaken⟩
    · obtain ⟨rfl, rfl⟩ := Prod.mk.inj (Option.some.inj (ha.symm.trans hrefused))
      exact ⟨rfl, hu, hfront⟩
    · obtain ⟨rfl, rfl⟩ := Prod.mk.inj (Option.some.inj (ha.symm.trans htaken))
      obtain ⟨-, hgranted, hnext⟩ := hfront.fits hlimit (hfits hallowed) hstop
      exact ⟨hgranted, ht', hcur ▸ hnext⟩
  · rintro u taken q ⟨hu, hfront⟩ hfits
    obtain ⟨hallowed, hnot⟩ := Classical.not_imp.mp hfits
    obtain ⟨hstop, hwrong⟩ := hfront.not_fits hlimit hnot
    rcases hbump u q hu hallowed with ⟨hrefused, -⟩ | ⟨-, t, -, -, htaken⟩
    · omega
    · exact ⟨t, _, htaken, hwrong⟩

end Allocation
