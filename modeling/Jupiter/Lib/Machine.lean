/-
Labelled machines: a partial step function `σ → ι → Option σ` and its runs over a list of labels. A label carries every
choice the environment makes, so a run is a function of its labels and a property of all interleavings is a property of
all label lists.

An invariant is proven once for a step and lifted to every run (`run_invariant`).
-/
import Mathlib.Logic.Basic

namespace Jupiter.Lib

section Machine

variable {σ ι : Type*} (step : σ → ι → Option σ)

/-- The state after the labels `ls`, if every step is enabled. -/
def run : σ → List ι → Option σ
  | s, [] => some s
  | s, l :: ls => (step s l).bind fun s' => run s' ls

@[simp] theorem run_nil (s : σ) : run step s [] = some s := rfl

@[simp] theorem run_cons (s : σ) (l : ι) (ls : List ι) :
    run step s (l :: ls) = (step s l).bind fun s' => run step s' ls := rfl

theorem run_cons_some {s s' : σ} {l : ι} {ls : List ι} (h : run step s (l :: ls) = some s') :
    ∃ t, step s l = some t ∧ run step t ls = some s' := by
  rw [run_cons] at h
  cases ht : step s l with
  | none => rw [ht] at h; cases h
  | some t => rw [ht] at h; exact ⟨t, rfl, h⟩

/-- Every step of a run over `ls` from `s` meets `ok`, a condition on the state before the step
and on its label. -/
def Meets (ok : σ → ι → Prop) : σ → List ι → Prop
  | _, [] => True
  | s, l :: ls => ok s l ∧ ∀ s', step s l = some s' → Meets ok s' ls

variable {step}

theorem meets_cons {ok : σ → ι → Prop} {s t : σ} {l : ι} {ls : List ι} (hok : ok s l) (ht : step s l = some t)
    (h : Meets step ok t ls) : Meets step ok s (l :: ls) :=
  ⟨hok, fun s' hs => by cases ht.symm.trans hs; exact h⟩

theorem meets_append {ok : σ → ι → Prop} {ls' : List ι} : ∀ {ls : List ι} {s s' : σ},
    Meets step ok s (ls ++ ls') → run step s ls = some s' → Meets step ok s' ls'
  | [], _, _, hm, h => by
    rw [run_nil] at h; cases h; exact hm
  | _ :: _, _, _, hm, h => by
    obtain ⟨t, ht, hrest⟩ := run_cons_some step h
    exact meets_append (hm.2 t ht) hrest

theorem meets_of_forall {ok : σ → ι → Prop} : ∀ {ls : List ι}, (∀ l ∈ ls, ∀ s, ok s l) → ∀ s, Meets step ok s ls
  | [], _, _ => trivial
  | l :: _, h, s => ⟨h l (.head _) s, fun s' _ => meets_of_forall (fun l' hl => h l' (.tail _ hl)) s'⟩

theorem meets_and_mem {ok : σ → ι → Prop} {P : ι → Prop} : ∀ {ls : List ι} {s : σ},
    Meets step ok s ls → (∀ l ∈ ls, P l) → Meets step (fun s l => P l ∧ ok s l) s ls
  | [], _, _, _ => trivial
  | l :: _, _, hm, hp => ⟨⟨hp l (.head _), hm.1⟩, fun s' hs =>
      meets_and_mem (hm.2 s' hs) fun l' hl => hp l' (.tail _ hl)⟩

/-- A property kept by the steps that meet `ok` holds after every run whose steps all meet it. -/
theorem run_invariant_of_meets {ok : σ → ι → Prop} {I : σ → Prop}
    (hstep : ∀ s l s', I s → ok s l → step s l = some s' → I s') :
    ∀ (ls : List ι) (s s' : σ), I s → Meets step ok s ls → run step s ls = some s' → I s'
  | [], s, s', hi, _, h => by
    rw [run_nil] at h; cases h; exact hi
  | l :: ls, s, s', hi, hm, h => by
    obtain ⟨t, ht, hrest⟩ := run_cons_some step h
    exact run_invariant_of_meets hstep ls t s' (hstep s l t hi hm.1 ht) (hm.2 t ht) hrest

/-- A property kept by every step holds after every run. -/
theorem run_invariant {I : σ → Prop} (hstep : ∀ s l s', I s → step s l = some s' → I s')
    (ls : List ι) (s s' : σ) (hi : I s) (h : run step s ls = some s') : I s' := by
  induction ls generalizing s with
  | nil => rw [run_nil] at h; cases h; exact hi
  | cons l ls ih =>
    obtain ⟨t, ht, hrest⟩ := run_cons_some step h
    exact ih t (hstep s l t hi ht) hrest

/-- Where a property makes every step possible and is kept by it, every run can be made. -/
theorem exists_run {I : σ → Prop} {s : σ} (hi : I s) (hstep : ∀ s l, I s → ∃ s', step s l = some s' ∧ I s')
    (ls : List ι) : ∃ s', run step s ls = some s' ∧ I s' := by
  induction ls generalizing s with
  | nil => exact ⟨s, rfl, hi⟩
  | cons l ls ih =>
    obtain ⟨t, ht, hi'⟩ := hstep s l hi
    rw [run_cons, ht]
    exact ih hi'

/-- Two conditions that agree where an invariant holds are met along the same runs. -/
theorem meets_congr {ok ok' : σ → ι → Prop} {I : σ → Prop} {s : σ} (hi : I s)
    (hstep : ∀ s l, I s → ok s l → ∃ s', step s l = some s' ∧ I s') (hiff : ∀ s l, I s → (ok s l ↔ ok' s l))
    (ls : List ι) : Meets step ok s ls ↔ Meets step ok' s ls := by
  induction ls generalizing s with
  | nil => exact Iff.rfl
  | cons l ls ih =>
    rw [Meets, Meets, ← hiff s l hi]
    refine and_congr_right fun hok => forall_congr' fun s' => imp_congr_right fun hs => ?_
    obtain ⟨t, ht, hi'⟩ := hstep s l hi hok
    rw [ht] at hs
    exact Option.some.inj hs ▸ ih hi'

/-- A number that every step lowers bounds the length of every run. -/
theorem run_length_le {size : σ → Nat} (hstep : ∀ s l s', step s l = some s' → size s' < size s) :
    ∀ (ls : List ι) (s s' : σ), run step s ls = some s' → ls.length + size s' ≤ size s
  | [], s, s', h => by
    rw [run_nil] at h; cases h; simp
  | l :: ls, s, s', h => by
    obtain ⟨t, ht, hrest⟩ := run_cons_some step h
    have hlt := hstep s l t ht
    have ih := run_length_le hstep ls t s' hrest
    rw [List.length_cons]
    omega

/-- When every step lowers a number, the steps of a kind can be taken until no more of them can. -/
theorem exists_run_to_end {size : σ → Nat} (hstep : ∀ s l s', step s l = some s' → size s' < size s) (P : ι → Prop)
    (s : σ) : ∃ ls s', run step s ls = some s' ∧ (∀ l ∈ ls, P l) ∧ ∀ l, P l → step s' l = none := by
  by_cases h : ∃ l t, P l ∧ step s l = some t
  · obtain ⟨l, t, hl, ht⟩ := h
    have hlt := hstep s l t ht
    obtain ⟨ls, s', hrun, hls, hend⟩ := exists_run_to_end hstep P t
    refine ⟨l :: ls, s', ?_, List.forall_mem_cons.2 ⟨hl, hls⟩, hend⟩
    rw [run_cons, ht]
    exact hrun
  · refine ⟨[], s, rfl, fun _ hl => (by cases hl), fun l hl => ?_⟩
    cases ht : step s l with
    | none => rfl
    | some t => exact absurd ⟨l, t, hl, ht⟩ h
termination_by size s

end Machine

end Jupiter.Lib
