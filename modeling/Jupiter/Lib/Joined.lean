/-
Lists joined by a separator: what a prefix and a part of the joined list are, in terms of the lists.
-/
import Mathlib.Data.List.Basic

namespace Jupiter.Lib

variable {α : Type*}

/-- A prefix of joined lists: some of them whole, and a prefix of the next. -/
theorem prefix_intercalate_iff {sep : α} {p : List α} {ls : List (List α)} (hne : ls ≠ []) :
    p <+: [sep].intercalate ls ↔
      ∃ mid l post q, ls = mid ++ l :: post ∧ q <+: l ∧ p = (mid.flatMap fun m => m ++ [sep]) ++ q := by
  induction ls generalizing p with
  | nil => exact absurd rfl hne
  | cons a ls ih =>
    cases ls with
    | nil =>
      rw [List.intercalate_singleton]
      constructor
      · intro h
        exact ⟨[], a, [], p, rfl, h, rfl⟩
      · rintro ⟨mid, l, post, q, heq, hq, rfl⟩
        cases mid with
        | nil => cases heq; exact hq
        | cons m mid => simp at heq
    | cons b ls =>
      rw [List.intercalate_cons_cons, List.append_assoc, List.singleton_append]
      constructor
      · rintro ⟨t, ht⟩
        rcases List.append_eq_append_iff.1 ht with ⟨as, ha, hrest⟩ | ⟨bs, rfl, hrest⟩
        · exact ⟨[], a, b :: ls, p, rfl, ⟨as, ha.symm⟩, rfl⟩
        · cases bs with
          | nil => exact ⟨[], a, b :: ls, a, rfl, List.prefix_rfl, by simp⟩
          | cons c bs =>
            rw [List.cons_append, List.cons.injEq] at hrest
            obtain ⟨mid, l, post, q, heq, hq, rfl⟩ := (ih (List.cons_ne_nil b ls)).1 ⟨t, hrest.2.symm⟩
            exact ⟨a :: mid, l, post, q, by rw [heq, List.cons_append], hq, by simp [hrest.1]⟩
      · rintro ⟨mid, l, post, q, heq, hq, rfl⟩
        cases mid with
        | nil =>
          cases heq
          exact hq.trans (List.prefix_append _ _)
        | cons m mid =>
          rw [List.cons_append, List.cons.injEq] at heq
          obtain ⟨rfl, heq⟩ := heq
          rw [List.flatMap_cons, List.append_assoc, List.append_assoc, List.prefix_append_right_inj]
          exact (List.cons_prefix_cons.2 ⟨rfl, (ih (List.cons_ne_nil b ls)).2 ⟨mid, l, post, q, heq, hq, rfl⟩⟩)

/-- `t` is the end of one of the lists, the ones after it and the beginning of a later one, with `sep` between them. -/
def Spans (sep : α) (ls : List (List α)) (t : List α) : Prop :=
  ∃ pre l mid l' post s p, ls = pre ++ l :: (mid ++ l' :: post) ∧ s <:+ l ∧ p <+: l' ∧
    t = s ++ sep :: ((mid.flatMap fun m => m ++ [sep]) ++ p)

theorem infix_intercalate_iff {sep : α} {t : List α} {ls : List (List α)} (hne : ls ≠ []) :
    t <:+: [sep].intercalate ls ↔ (∃ l ∈ ls, t <:+: l) ∨ Spans sep ls t := by
  induction ls with
  | nil => exact absurd rfl hne
  | cons a ls ih =>
    cases ls with
    | nil =>
      rw [List.intercalate_singleton]
      constructor
      · exact fun h => .inl ⟨a, by simp, h⟩
      · rintro (⟨l, hl, h⟩ | ⟨pre, l, mid, l', post, s, p, heq, -⟩)
        · rwa [List.mem_singleton.1 hl] at h
        · have hlength := congrArg List.length heq
          simp at hlength
          omega
    | cons b ls =>
      rw [List.intercalate_cons_cons, List.append_assoc, List.singleton_append]
      have ih := ih (List.cons_ne_nil b ls)
      -- A part that reaches past the first list takes its end and a prefix of what the others join to.
      have hsplit : ∀ s p, s <:+ a → p <+: sep :: [sep].intercalate (b :: ls) →
          (∃ l ∈ a :: b :: ls, s ++ p <:+: l) ∨ Spans sep (a :: b :: ls) (s ++ p) := by
        intro s p hs hp
        rcases List.prefix_cons_iff.1 hp with rfl | ⟨q, rfl, hq⟩
        · exact .inl ⟨a, List.mem_cons_self, by rw [List.append_nil]; exact hs.isInfix⟩
        · obtain ⟨mid, l, post, p, heq, hpre, rfl⟩ := (prefix_intercalate_iff (List.cons_ne_nil b ls)).1 hq
          exact .inr ⟨[], a, mid, l, post, s, p, by rw [heq]; rfl, hs, hpre, rfl⟩
      constructor
      · rw [List.infix_append_iff, List.infix_cons_iff]
        rintro (h | (h | h) | ⟨s, p, rfl, hs, hp⟩)
        · exact .inl ⟨a, List.mem_cons_self, h⟩
        · exact hsplit [] t (List.nil_suffix) h
        · rcases ih.1 h with ⟨l, hl, h⟩ | ⟨pre, l, mid, l', post, s, p, heq, h⟩
          · exact .inl ⟨l, List.mem_cons_of_mem _ hl, h⟩
          · exact .inr ⟨a :: pre, l, mid, l', post, s, p, by rw [heq, List.cons_append], h⟩
        · exact hsplit s p hs hp
      · rintro (⟨l, hl, h⟩ | ⟨pre, l, mid, l', post, s, p, heq, hs, hp, rfl⟩)
        · rcases List.mem_cons.1 hl with rfl | hl
          · exact h.trans (List.prefix_append _ _).isInfix
          · exact (ih.2 (.inl ⟨l, hl, h⟩)).trans ⟨a ++ [sep], [], by simp⟩
        · cases pre with
          | nil =>
            rw [List.nil_append, List.cons.injEq] at heq
            obtain ⟨rfl, heq⟩ := heq
            refine List.infix_append_iff.2 (.inr (.inr ⟨s, _, rfl, hs, ?_⟩))
            exact List.cons_prefix_cons.2
              ⟨rfl, (prefix_intercalate_iff (List.cons_ne_nil b ls)).2 ⟨mid, l', post, p, heq, hp, rfl⟩⟩
          | cons m pre =>
            rw [List.cons_append, List.cons.injEq] at heq
            exact (ih.2 (.inr ⟨pre, l, mid, l', post, s, p, heq.2, hs, hp, rfl⟩)).trans ⟨a ++ [sep], [], by simp⟩

end Jupiter.Lib
