/-
`sort.Slice` as its documentation states it: the result is a rearrangement of the slice in which no element is less than
an earlier one, given that `less` is an ordering; the sort need not be stable.

When `less` tells any two elements of the slice apart, the result is unique (`SortSlice.sort_eq_of_perm`).
-/
import Mathlib.Data.List.Sort

namespace Jupiter.Go

variable {α β : Type}

/-- What `sort.Slice` asks of `less`: being not less is transitive, and so is what follows. -/
structure StrictWeakOrder (less : α → α → Bool) : Prop where
  asymm : ∀ a b, less a b = true → less b a = false
  negTrans : ∀ a b c, less a b = false → less b c = false → less a c = false

structure SortSlice where
  sort : {α : Type} → (α → α → Bool) → List α → List α
  perm : ∀ {α : Type} (less : α → α → Bool) (l : List α), (sort less l).Perm l
  sorted : ∀ {α : Type} (less : α → α → Bool), StrictWeakOrder less → ∀ l : List α,
    (sort less l).Pairwise fun a b => less b a = false

/-- Lists that are rearrangements of each other are sorted alike, when `less` separates their
elements. -/
theorem SortSlice.sort_eq_of_perm (S T : SortSlice) {less : α → α → Bool} (hless : StrictWeakOrder less)
    {l l' : List α} (h : l.Perm l')
    (hsep : ∀ a ∈ l, ∀ b ∈ l, less a b = false → less b a = false → a = b) :
    S.sort less l = T.sort less l' := by
  have hS := S.perm less l
  have hT := (T.perm less l').trans h.symm
  refine List.Perm.eq_of_pairwise ?_ (S.sorted less hless l)
    (T.sorted less hless l') (hS.trans hT.symm)
  intro a b ha hb hba hab
  exact hsep a (hS.mem_iff.mp ha) b (hT.mem_iff.mp hb) hab hba

theorem SortSlice.sort_map (S : SortSlice) {less : α → α → Bool} {less' : β → β → Bool}
    (hless : StrictWeakOrder less) (hless' : StrictWeakOrder less') (f : α → β)
    (hf : ∀ a b, less' (f a) (f b) = less a b) {l : List α}
    (hsep : ∀ a ∈ l, ∀ b ∈ l, less a b = false → less b a = false → a = b) :
    S.sort less' (l.map f) = (S.sort less l).map f := by
  have hl := S.perm less l
  refine List.Perm.eq_of_pairwise ?_ (S.sorted less' hless' _)
    ?_ ((S.perm less' _).trans (hl.map f).symm)
  · intro x y hx hy hyx hxy
    obtain ⟨a, ha, rfl⟩ := List.mem_map.mp ((S.perm less' _).mem_iff.mp hx)
    obtain ⟨b, hb, rfl⟩ := List.mem_map.mp hy
    rw [hf] at hyx hxy
    rw [hsep a ha b (hl.mem_iff.mp hb) hxy hyx]
  · rw [List.pairwise_map]
    refine (S.sorted less hless l).imp ?_
    intro a b h
    rw [hf]
    exact h

/-- Insertion sort is one such function. -/
def insertionSlice : SortSlice where
  sort less l := l.insertionSort fun a b => less b a = false
  perm less l := List.perm_insertionSort _ l
  sorted less hless l := by
    -- the relation is total because `less` is asymmetric
    have : Std.Total fun a b => less b a = false := by
      constructor
      intro a b
      cases h : less b a with
      | false => exact Or.inl rfl
      | true => exact Or.inr (hless.asymm b a h)
    have : IsTrans _ fun a b => less b a = false :=
      ⟨fun a b c hab hbc => hless.negTrans c b a hbc hab⟩
    exact List.pairwise_insertionSort _ l

end Jupiter.Go
