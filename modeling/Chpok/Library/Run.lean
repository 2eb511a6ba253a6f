import Mathlib.Data.Option.Basic
import Mathlib.Data.List.Basic

/-! Runs of a partial machine driven by a list of inputs. A refused input has no
successor; a run is a list of inputs all of which are accepted. -/

namespace Run

variable {S E : Type*} {step : S → E → Option S}

def exec (step : S → E → Option S) : S → List E → Option S
  | s, [] => some s
  | s, e :: es => (step s e).bind fun t => exec step t es

/-- Every input meets `ok` in the state in which it is issued. -/
def Meets (step : S → E → Option S) (ok : S → E → Prop) : S → List E → Prop
  | _, [] => True
  | s, e :: es => ok s e ∧ ∀ t, step s e = some t → Meets step ok t es

instance decidableMeets (step : S → E → Option S) (ok : S → E → Prop) [∀ s e, Decidable (ok s e)] :
    ∀ s es, Decidable (Meets step ok s es)
  | _, [] => .isTrue trivial
  | s, e :: es =>
    match h : step s e with
    | none => decidable_of_iff (ok s e) (by simp [Meets, h])
    | some t =>
      have := decidableMeets step ok t es
      decidable_of_iff (ok s e ∧ Meets step ok t es) (by simp [Meets, h])

/-- A machine with outputs, extended with the list of outputs so far. -/
def record {O : Type*} (step : S → E → Option (S × O)) (s : S × List O) (e : E) :
    Option (S × List O) :=
  (step s.1 e).map fun r => (r.1, s.2 ++ [r.2])

theorem exec_cons {s t : S} {e : E} {es : List E} :
    exec step s (e :: es) = some t ↔ ∃ m, step s e = some m ∧ exec step m es = some t := by
  simp [exec, Option.bind_eq_some_iff]

theorem exec_append {s u : S} {es fs : List E} :
    exec step s (es ++ fs) = some u ↔ ∃ t, exec step s es = some t ∧ exec step t fs = some u := by
  induction es generalizing s with
  | nil => simp [exec]
  | cons e es ih =>
    simp only [List.cons_append, exec_cons, ih]
    constructor
    · rintro ⟨m, hm, t, ht, hu⟩
      exact ⟨t, ⟨m, hm, ht⟩, hu⟩
    · rintro ⟨t, ⟨m, hm, ht⟩, hu⟩
      exact ⟨m, hm, t, ht, hu⟩

theorem meets_append {ok : S → E → Prop} {s : S} {es fs : List E} :
    Meets step ok s (es ++ fs) ↔
      Meets step ok s es ∧ ∀ t, exec step s es = some t → Meets step ok t fs := by
  induction es generalizing s with
  | nil => simp [Meets, exec]
  | cons e es ih =>
    simp only [List.cons_append, Meets, ih, exec_cons]
    constructor
    · rintro ⟨hok, hrest⟩
      exact ⟨⟨hok, fun t ht => (hrest t ht).1⟩, fun u ⟨t, ht, hu⟩ => (hrest t ht).2 u hu⟩
    · rintro ⟨⟨hok, hrest⟩, hlast⟩
      exact ⟨hok, fun t ht => ⟨hrest t ht, fun u hu => hlast u ⟨t, ht, hu⟩⟩⟩

/-- An invariant kept by every input that meets `ok` holds at the end of every
run whose inputs all meet it. -/
theorem invariant_of_meets {ok : S → E → Prop} {inv : S → Prop}
    (hstep : ∀ s e t, inv s → ok s e → step s e = some t → inv t)
    {s t : S} {es : List E} (hs : inv s) (hok : Meets step ok s es)
    (h : exec step s es = some t) : inv t := by
  induction es generalizing s with
  | nil =>
    have he : s = t := by simpa [exec] using h
    exact he ▸ hs
  | cons e es ih =>
    obtain ⟨m, hm, ht⟩ := exec_cons.mp h
    exact ih (hstep s e m hs hok.1 hm) (hok.2 m hm) ht

/-- Outputs that fit what was put out before them, in every reachable state, do so all
along the record of a run. -/
theorem recorded {O : Type*} {step : S → E → Option (S × O)} {ok : E → Prop}
    {inv : S → List O → Prop} {fits : List O → O → Prop}
    (hstep : ∀ s os e t o, inv s os → ok e → step s e = some (t, o) →
      inv t (os ++ [o]) ∧ fits os o)
    {s t : S} {os outs : List O} {es : List E} (hs : inv s os)
    (hos : ∀ before o after, os = before ++ o :: after → fits before o)
    (hok : ∀ e ∈ es, ok e) (h : exec (record step) (s, os) es = some (t, outs)) :
    inv t outs ∧ ∀ before o after, outs = before ++ o :: after → fits before o := by
  induction es generalizing s os with
  | nil =>
    have he : (s, os) = (t, outs) := by simpa [exec] using h
    obtain ⟨rfl, rfl⟩ := Prod.mk.inj he
    exact ⟨hs, hos⟩
  | cons e es ih =>
    obtain ⟨m, hm, ht⟩ := exec_cons.mp h
    obtain ⟨⟨s', o⟩, hso, rfl⟩ := Option.map_eq_some_iff.mp hm
    obtain ⟨hs', ho⟩ := hstep s os e s' o hs (hok e (by simp)) hso
    refine ih hs' ?_ (fun e' he' => hok e' (by simp [he'])) ht
    intro before o' after hsplit
    rcases List.eq_nil_or_concat after with rfl | ⟨rest, last, rfl⟩
    · obtain ⟨rfl, he⟩ := List.append_inj' hsplit rfl
      obtain rfl := List.singleton_inj.mp he
      exact ho
    · rw [List.concat_eq_append, ← List.cons_append, ← List.append_assoc] at hsplit
      exact hos before o' rest (List.append_inj' hsplit rfl).1

theorem meets_of_forall {ok : S → E → Prop} {es : List E} (h : ∀ e ∈ es, ∀ s, ok s e) (s : S) :
    Meets step ok s es := by
  induction es generalizing s with
  | nil => trivial
  | cons e es ih => exact ⟨h e (by simp) s, fun t _ => ih (fun e' he' => h e' (by simp [he'])) t⟩

/-- Whether the inputs of a run meet a condition that can be decided. -/
def checks (step : S → E → Option S) (ok : S → E → Prop) [∀ s e, Decidable (ok s e)] :
    S → List E → Bool
  | _, [] => true
  | s, e :: es => decide (ok s e) && (match step s e with
    | none => true
    | some t => checks step ok t es)

theorem meets_of_checks {ok : S → E → Prop} [∀ s e, Decidable (ok s e)] {s : S} {es : List E}
    (h : checks step ok s es = true) : Meets step ok s es := by
  induction es generalizing s with
  | nil => trivial
  | cons e es ih =>
    obtain ⟨hok, hrest⟩ := Bool.and_eq_true_iff.mp h
    refine ⟨of_decide_eq_true hok, ?_⟩
    intro t ht
    rw [ht] at hrest
    exact ih hrest

theorem invariant {inv : S → Prop}
    (hstep : ∀ s e t, inv s → step s e = some t → inv t)
    {s t : S} {es : List E} (hs : inv s) (h : exec step s es = some t) : inv t :=
  invariant_of_meets (fun s e t hi _ he => hstep s e t hi he) hs
    (meets_of_forall (fun _ _ _ => trivial) s) h

end Run
