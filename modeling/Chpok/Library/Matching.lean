import Mathlib.Data.List.Count
import Mathlib.Data.List.Nodup
import Mathlib.Data.List.Perm.Basic
import Mathlib.Data.Option.Basic

/-! Users and the places that they use. Every place has one user, and this is the one to whom
it belongs, exactly if the owners of the places are the users, in some order, and no user
occurs twice. -/

namespace Matching

variable {α κ : Type*} [DecidableEq κ] {users : List α} {places : List κ} {use : α → κ}
  {owner : κ → Option α}

/-- Every user uses a place of its own, and every place is used once. -/
structure Matched (users : List α) (places : List κ) (use : α → κ) (owner : κ → Option α) : Prop where
  place : ∀ u ∈ users, use u ∈ places
  owned : ∀ u ∈ users, owner (use u) = some u
  once : ∀ s ∈ places, users.countP (fun u => use u = s) = 1

theorem Matched.user (h : Matched users places use owner) {s : κ} (hs : s ∈ places) :
    ∃ u ∈ users, use u = s ∧ owner s = some u := by
  have hpos : 0 < users.countP (fun u => use u = s) := by
    rw [h.once s hs]
    exact Nat.one_pos
  obtain ⟨u, hu, huse⟩ := List.countP_pos_iff.mp hpos
  have huse' : use u = s := of_decide_eq_true huse
  exact ⟨u, hu, huse', huse' ▸ h.owned u hu⟩

theorem Matched.nodup [DecidableEq α] (h : Matched users places use owner) : users.Nodup := by
  rw [List.nodup_iff_count_le_one]
  intro u
  by_cases hu : u ∈ users
  · have hle : users.count u ≤ users.countP (fun v => use v = use u) := by
      rw [List.count]
      apply List.countP_mono_left
      intro v _ hv
      have hvu : v = u := by simpa using hv
      simp [hvu]
    rwa [h.once _ (h.place u hu)] at hle
  · rw [List.count_eq_zero_of_not_mem hu]
    exact Nat.zero_le _

theorem Matched.perm [DecidableEq α] (h : Matched users places use owner) (hnodup : places.Nodup) :
    (places.map owner).Perm (users.map some) := by
  have howners : (places.map owner).Nodup := by
    apply List.Nodup.map_on _ hnodup
    intro s hs s' hs' he
    obtain ⟨u, -, rfl, hu⟩ := h.user hs
    obtain ⟨v, -, rfl, hv⟩ := h.user hs'
    rw [hu, hv] at he
    rw [Option.some.inj he]
  have husers : (users.map some).Nodup := h.nodup.map (Option.some_injective α)
  rw [List.perm_ext_iff_of_nodup howners husers]
  intro o
  simp only [List.mem_map]
  constructor
  · rintro ⟨s, hs, rfl⟩
    obtain ⟨u, hu, -, he⟩ := h.user hs
    exact ⟨u, hu, he.symm⟩
  · rintro ⟨u, hu, rfl⟩
    exact ⟨use u, h.place u hu, h.owned u hu⟩

/-- Owners who use the only place that they own are matched with the places. -/
theorem matched_of_perm [DecidableEq α] (hperm : (places.map owner).Perm (users.map some))
    (husers : users.Nodup)
    (hlink : ∀ u, ∀ s ∈ places, owner s = some u →
      (∀ s' ∈ places, owner s' = some u → s' = s) → use u = s) :
    Matched users places use owner := by
  have howners : (places.map owner).Nodup :=
    hperm.nodup_iff.mpr (husers.map (Option.some_injective α))
  have hinj : ∀ s ∈ places, ∀ s' ∈ places, owner s = owner s' → s = s' := by
    intro s hs s' hs' he
    exact List.inj_on_of_nodup_map howners hs hs' he
  have huses : ∀ s ∈ places, ∀ u, owner s = some u → use u = s := by
    intro s hs u hu
    apply hlink u s hs hu
    intro s' hs' hu'
    exact hinj s' hs' s hs (hu'.trans hu.symm)
  have howned : ∀ u ∈ users, ∃ s ∈ places, owner s = some u := by
    intro u hu
    have hmem : some u ∈ places.map owner := hperm.mem_iff.mpr (List.mem_map.mpr ⟨u, hu, rfl⟩)
    simpa using hmem
  refine ⟨fun u hu => ?_, fun u hu => ?_, fun s hs => ?_⟩
  · obtain ⟨s, hs, hsu⟩ := howned u hu
    rwa [huses s hs u hsu]
  · obtain ⟨s, hs, hsu⟩ := howned u hu
    rwa [huses s hs u hsu]
  · have hmem : owner s ∈ users.map some := hperm.mem_iff.mp (List.mem_map.mpr ⟨s, hs, rfl⟩)
    obtain ⟨u, hu, hsu⟩ := List.mem_map.mp hmem
    have hcount : users.countP (fun v => use v = s) = users.count u := by
      rw [List.count]
      apply List.countP_congr
      intro v hv
      simp only [decide_eq_true_eq, beq_iff_eq]
      constructor
      · intro hvs
        obtain ⟨s', hs', hsv⟩ := howned v hv
        have he : s' = s := (huses s' hs' v hsv).symm.trans hvs
        rw [he, ← hsu] at hsv
        exact (Option.some.inj hsv).symm
      · rintro rfl
        exact huses s hs v hsu.symm
    rw [hcount]
    exact List.count_eq_one_of_mem husers hu

end Matching
