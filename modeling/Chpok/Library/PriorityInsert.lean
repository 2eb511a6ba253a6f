import Mathlib.Data.List.Sort

/-! Insertion into a list that is ordered by another relation than the one that finds the
place, as when the newest of equals goes last. -/

namespace PriorityInsert

variable {α : Type*} {goesBefore : α → α → Prop} [DecidableRel goesBefore] {order : α → α → Prop}
  {a : α} {l : List α}

theorem nodup (hl : l.Nodup) (ha : a ∉ l) : (l.orderedInsert goesBefore a).Nodup := by
  have hperm := List.perm_orderedInsert goesBefore a l
  exact hperm.nodup_iff.mpr (List.nodup_cons.mpr ⟨ha, hl⟩)

/-- The inserted element is ordered before those that it goes before and their successors,
and after the others. -/
theorem pairwise (hl : l.Pairwise order)
    (hbefore : ∀ b ∈ l, goesBefore a b → order a b)
    (hafter : ∀ b ∈ l, ¬ goesBefore a b → order b a)
    (htrans : ∀ b ∈ l, ∀ c ∈ l, order a b → order b c → order a c) :
    (l.orderedInsert goesBefore a).Pairwise order := by
  induction l with
  | nil => simp
  | cons b l ih =>
    obtain ⟨hb, hrest⟩ := List.pairwise_cons.mp hl
    rw [List.orderedInsert_cons]
    by_cases hab : goesBefore a b
    · rw [if_pos hab]
      have hfirst : order a b := hbefore b (by simp) hab
      apply List.pairwise_cons.mpr
      constructor
      · intro c hc
        rcases List.mem_cons.mp hc with rfl | hc
        · exact hfirst
        · exact htrans b (by simp) c (by simp [hc]) hfirst (hb c hc)
      · exact hl
    · rw [if_neg hab]
      apply List.pairwise_cons.mpr
      constructor
      · intro c hc
        rcases (List.mem_orderedInsert goesBefore).mp hc with rfl | hc
        · exact hafter b (by simp) hab
        · exact hb c hc
      · apply ih hrest
        · exact fun c hc => hbefore c (by simp [hc])
        · exact fun c hc => hafter c (by simp [hc])
        · exact fun c hc d hd => htrans c (by simp [hc]) d (by simp [hd])

end PriorityInsert
