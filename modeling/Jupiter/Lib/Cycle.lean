/-
Cycles of a directed graph, as a search comes upon them: from a vertex the search may come back to a vertex it has
passed (`Returns`), or every way from the vertex ends, which is accessibility along the edges. Never both.
-/
import Mathlib.Logic.Relation

namespace Jupiter.Lib.Cycle

open Relation

variable {α : Type} {r : α → α → Prop}

def Returns (r : α → α → Prop) (a : α) : Prop := ∃ c, ReflTransGen r a c ∧ TransGen r c c

theorem Returns.exists_step {a : α} (h : Returns r a) : ∃ b, r a b := by
  obtain ⟨c, hreach, hcycle⟩ := h
  obtain ⟨b, hstep, -⟩ := TransGen.head'_iff.1 (TransGen.trans_right hreach hcycle)
  exact ⟨b, hstep⟩

theorem acc_of_reach {a b : α} (ha : Acc (flip r) a) (h : ReflTransGen r a b) : Acc (flip r) b := by
  induction h with
  | refl => exact ha
  | tail _ hstep ih => exact ih.inv hstep

theorem not_cycle_of_acc {a : α} (ha : Acc (flip r) a) : ¬ TransGen r a a := by
  induction ha with
  | intro a _ ih =>
    intro hcycle
    obtain ⟨b, hstep, hback⟩ := TransGen.head'_iff.1 hcycle
    exact ih b hstep (TransGen.tail' hback hstep)

theorem not_returns_of_acc {a : α} (ha : Acc (flip r) a) : ¬ Returns r a := by
  rintro ⟨c, hreach, hcycle⟩
  exact not_cycle_of_acc (acc_of_reach ha hreach) hcycle

end Jupiter.Lib.Cycle
