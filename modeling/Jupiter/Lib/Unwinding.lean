/-
Noninterference by unwinding, for a machine whose every step gives an output. Some labels are observed. If states that
look alike to the observer answer an observed label alike and stay alike, and an unobserved label leaves a state alike,
then what is observed of a run depends on its observed labels only (`outputs_congr`).
-/
import Mathlib.Data.List.Basic

namespace Jupiter.Lib.Unwinding

variable {σ ι ω : Type} (step : σ → ι → ω × σ) (observed : ι → Bool)

/-- The observed labels of a run, each with its output. -/
def outputs : σ → List ι → List (ι × ω)
  | _, [] => []
  | s, l :: ls =>
    if observed l then (l, (step s l).1) :: outputs (step s l).2 ls else outputs (step s l).2 ls

/-- What one step does to states that are related for the labels still to come. -/
structure UnwindsAhead (related : σ → σ → List ι → Prop) : Prop where
  own : ∀ {s t : σ} {l : ι} {ls : List ι}, related s t (l :: ls) → observed l = true →
    (step s l).1 = (step t l).1 ∧ related (step s l).2 (step t l).2 ls
  other : ∀ {s t : σ} {l : ι} {ls : List ι}, related s t (l :: ls) → observed l = false →
    related (step s l).2 t ls

/-- Every step of a run meets `ok`, a condition on the state before it, its label and the labels after it. -/
def Along (ok : σ → ι → List ι → Prop) : σ → List ι → Prop
  | _, [] => True
  | s, l :: ls => ok s l ls ∧ Along ok (step s l).2 ls

instance decidableAlong {ok : σ → ι → List ι → Prop} [∀ s l ls, Decidable (ok s l ls)] :
    ∀ (s : σ) (ls : List ι), Decidable (Along step ok s ls)
  | _, [] => isTrue trivial
  | s, l :: ls =>
    have : Decidable (Along step ok (step s l).2 ls) := decidableAlong _ ls
    inferInstanceAs (Decidable (ok s l ls ∧ Along step ok (step s l).2 ls))

/-- What one step does to states that look alike. -/
structure Unwinds (alike : σ → σ → Prop) : Prop where
  symm : ∀ {s t}, alike s t → alike t s
  own : ∀ {s t} (l : ι), alike s t → observed l = true →
    (step s l).1 = (step t l).1 ∧ alike (step s l).2 (step t l).2
  other : ∀ {s t} (l : ι), alike s t → observed l = false → alike (step s l).2 t

variable {step observed} {alike : σ → σ → Prop}

/-- The unobserved labels can be left out. -/
theorem outputs_filter_of_ahead {related : σ → σ → List ι → Prop} (h : UnwindsAhead step observed related) {s t : σ}
    {ls : List ι} (hst : related s t ls) :
    outputs step observed s ls = outputs step observed t (ls.filter observed) := by
  induction ls generalizing s t with
  | nil => rfl
  | cons l ls ih =>
    cases hl : observed l with
    | true =>
      obtain ⟨hout, hnext⟩ := h.own hst hl
      rw [List.filter_cons_of_pos hl, outputs, outputs, if_pos hl, if_pos hl, hout, ih hnext]
    | false =>
      have hl' : ¬ observed l = true := by rw [hl]; exact Bool.false_ne_true
      rw [List.filter_cons_of_neg hl', outputs, if_neg hl']
      exact ih (h.other hst hl)

theorem outputs_filter (h : Unwinds step observed alike) {s t : σ} (hst : alike s t) (ls : List ι) :
    outputs step observed s ls = outputs step observed t (ls.filter observed) := by
  have hahead : UnwindsAhead step observed fun s t _ => alike s t :=
    ⟨fun h' hl => h.own _ h' hl, fun h' hl => h.other _ h' hl⟩
  exact outputs_filter_of_ahead hahead hst

theorem outputs_congr (h : Unwinds step observed alike) {s t : σ} (hst : alike s t) {ls ls' : List ι}
    (hls : ls.filter observed = ls'.filter observed) :
    outputs step observed s ls = outputs step observed t ls' := by
  calc outputs step observed s ls
      = outputs step observed t (ls.filter observed) := outputs_filter h hst ls
    _ = outputs step observed t (ls'.filter observed) := by rw [hls]
    _ = outputs step observed s ((ls'.filter observed).filter observed) := outputs_filter h (h.symm hst) _
    _ = outputs step observed s (ls'.filter observed) := by rw [List.filter_filter]; simp only [Bool.and_self]
    _ = outputs step observed t ls' := (outputs_filter h (h.symm hst) ls').symm

end Jupiter.Lib.Unwinding
