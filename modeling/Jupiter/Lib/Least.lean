/-
The scan for a least element: the first is kept until another one is strictly less.
-/
import Mathlib.Logic.Basic

namespace Jupiter.Lib

variable {α : Type}

def least (key : α → Int) (a : α) (l : List α) : α := l.foldl (fun kept x => if key x < key kept then x else kept) a

theorem least_spec (key : α → Int) (a : α) (l : List α) :
    (least key a l = a ∨ least key a l ∈ l ∧ key (least key a l) < key a) ∧
      ∀ x ∈ a :: l, key (least key a l) ≤ key x := by
  induction l generalizing a with
  | nil => simp [least]
  | cons x l ih =>
    have hstep : least key a (x :: l) = least key (if key x < key a then x else a) l := rfl
    rw [hstep]
    obtain ⟨hkept, hmin⟩ := ih (if key x < key a then x else a)
    have hle := hmin _ List.mem_cons_self
    by_cases hx : key x < key a
    · rw [if_pos hx] at hkept hmin hle ⊢
      refine ⟨.inr ⟨?_, Int.lt_of_le_of_lt hle hx⟩, ?_⟩
      · rcases hkept with heq | ⟨hmem, -⟩
        · rw [heq]
          exact List.mem_cons_self
        · exact List.mem_cons_of_mem _ hmem
      · exact List.forall_mem_cons.2 ⟨Int.le_trans hle (Int.le_of_lt hx), hmin⟩
    · rw [if_neg hx] at hkept hmin hle ⊢
      refine ⟨hkept.imp_right fun h => ⟨List.mem_cons_of_mem _ h.1, h.2⟩, ?_⟩
      intro y hy
      rcases List.mem_cons.1 hy with rfl | hy
      · exact hle
      · rcases List.mem_cons.1 hy with rfl | hy
        · exact Int.le_trans hle (Int.not_lt.1 hx)
        · exact hmin y (List.mem_cons_of_mem _ hy)

theorem least_mem (key : α → Int) (a : α) (l : List α) : least key a l ∈ a :: l := by
  rcases (least_spec key a l).1 with heq | ⟨hmem, -⟩
  · rw [heq]
    exact List.mem_cons_self
  · exact List.mem_cons_of_mem _ hmem

/-- A loop that keeps of every element what it has `found` scans for the least element. -/
theorem foldl_eq_least {σ : Type} (found : α → σ) (key : α → Int) {step : σ → α → σ} {a : α} {l : List α}
    (hstep : ∀ b ∈ a :: l, ∀ x, step (found b) x = if key x < key b then found x else found b) :
    l.foldl step (found a) = found (least key a l) := by
  unfold least
  induction l generalizing a with
  | nil => rfl
  | cons x l ih =>
    rw [List.foldl_cons, List.foldl_cons, hstep a List.mem_cons_self]
    split
    · exact ih fun b hb => hstep b (List.mem_cons_of_mem _ hb)
    · exact ih fun b hb => hstep b (List.cons_subset_cons a (List.subset_cons_self x l) hb)

end Jupiter.Lib
