import Chpok.Library.Lockstep
import Chpok.Library.Run

/-! Noninterference for partial machines driven by a list of inputs. An observer has some of the
inputs as its own and tells states apart by a relation. When inputs of others change nothing that
it can tell, and its own do the same in states it cannot tell apart, a run looks to it as if the
others had not acted at all. -/

namespace Noninterference

variable {S E : Type*}

/-- The conditions on single steps. -/
structure Unwinding (step : S → E → Option S) (inv : S → Prop) (alike : S → S → Prop)
    (own : E → Prop) : Prop where
  equivalence : Equivalence alike
  keeps : ∀ s e t, inv s → step s e = some t → inv t
  foreign : ∀ s e t, inv s → ¬ own e → step s e = some t → alike s t
  consistent : ∀ s t e, inv s → inv t → alike s t → own e →
    Option.Rel alike (step s e) (step t e)

variable {step : S → E → Option S} {inv : S → Prop} {alike : S → S → Prop} {own : E → Prop}
  {s t : S} {es : List E}

theorem Unwinding.step_of_alike (h : Unwinding step inv alike own) {e : E} {s' : S}
    (hs : inv s) (ht : inv t) (hst : alike s t) (hown : own e) (he : step s e = some s') :
    ∃ t', step t e = some t' ∧ alike s' t' := by
  have hrel := h.consistent s t e hs ht hst hown
  rw [he] at hrel
  cases ht' : step t e with
  | none =>
    rw [ht'] at hrel
    cases hrel
  | some t' =>
    rw [ht'] at hrel
    exact ⟨t', rfl, Option.rel_some_some.mp hrel⟩

/-- The inputs of others can be left out of a run. -/
theorem Unwinding.purge (h : Unwinding step inv alike own) [DecidablePred own] {s' : S}
    (hs : inv s) (hs' : inv s') (hss : alike s s') (hrun : Run.exec step s es = some t) :
    ∃ t', Run.exec step s' (es.filter fun e => own e) = some t' ∧ alike t t' := by
  induction es generalizing s s' with
  | nil =>
    obtain rfl : s = t := by simpa [Run.exec] using hrun
    exact ⟨s', rfl, hss⟩
  | cons e es ih =>
    obtain ⟨m, hm, ht⟩ := Run.exec_cons.mp hrun
    have hinv := h.keeps s e m hs hm
    by_cases hown : own e
    · obtain ⟨m', hm', hmm⟩ := h.step_of_alike hs hs' hss hown hm
      obtain ⟨t', ht', htt⟩ := ih hinv (h.keeps s' e m' hs' hm') hmm ht
      rw [List.filter_cons_of_pos (by simpa using hown)]
      exact ⟨t', Run.exec_cons.mpr ⟨m', hm', ht'⟩, htt⟩
    · rw [List.filter_cons_of_neg (by simpa using hown)]
      have hms := h.equivalence.symm (h.foreign s e m hs hown hm)
      exact ih hinv hs' (h.equivalence.trans hms hss) ht

/-- Runs in which the observer does the same look the same to it. -/
theorem Unwinding.alike_of_filter_eq (h : Unwinding step inv alike own) [DecidablePred own]
    {s' t' : S} {es' : List E} (hs : inv s) (hs' : inv s') (hss : alike s s')
    (hfilter : (es.filter fun e => own e) = es'.filter fun e => own e)
    (hrun : Run.exec step s es = some t) (hrun' : Run.exec step s' es' = some t') :
    alike t t' := by
  obtain ⟨u, hu, htu⟩ := h.purge hs hs' hss hrun
  obtain ⟨u', hu', htu'⟩ := h.purge hs' hs' (h.equivalence.refl s') hrun'
  rw [hfilter, hu'] at hu
  obtain rfl := Option.some.inj hu
  exact h.equivalence.trans htu (h.equivalence.symm htu')

end Noninterference
