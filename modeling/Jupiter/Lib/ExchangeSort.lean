/-
The exchange sort: for every position in turn, the element there is swapped with each later one that
is smaller. It permutes its list and orders it by the key, and in a list ordered by a key the elements
up to a bound are a prefix.

`sort` recurses over the list; `inPlace` is the same sort as two loops over the positions of a slice.
-/
import Mathlib.Data.List.Basic
import Mathlib.Order.Lattice

namespace Jupiter.Lib.ExchangeSort

variable {α β : Type} [LinearOrder β] (key : α → β)

/-- The inner loop: `x` stands at the position being filled, the list behind it. -/
def pass (x : α) : List α → α × List α
  | [] => (x, [])
  | y :: ys =>
    if key y < key x then
      let r := pass y ys
      (r.1, x :: r.2)
    else
      let r := pass x ys
      (r.1, y :: r.2)

/-- The outer loop, for `n` positions. -/
def sortN : Nat → List α → List α
  | 0, l => l
  | _ + 1, [] => []
  | n + 1, x :: xs =>
    let r := pass key x xs
    r.1 :: sortN n r.2

def sort (l : List α) : List α := sortN key l.length l

theorem pass_perm (x : α) (l : List α) : ((pass key x l).1 :: (pass key x l).2).Perm (x :: l) := by
  induction l generalizing x with
  | nil => exact List.Perm.refl _
  | cons y ys ih =>
    unfold pass
    split
    · exact (List.Perm.swap ..).trans ((List.Perm.cons x (ih y)))
    · exact ((List.Perm.swap ..).trans (List.Perm.cons y (ih x))).trans (List.Perm.swap ..)

theorem pass_length (x : α) (l : List α) : (pass key x l).2.length = l.length := by
  have hlen := (pass_perm key x l).length_eq
  simpa using hlen

theorem pass_le (x : α) (l : List α) :
    key (pass key x l).1 ≤ key x ∧ ∀ y ∈ (pass key x l).2, key (pass key x l).1 ≤ key y := by
  induction l generalizing x with
  | nil => exact ⟨le_refl _, by simp [pass]⟩
  | cons y ys ih =>
    unfold pass
    split
    · rename_i hlt
      obtain ⟨hy, hys⟩ := ih y
      refine ⟨le_trans hy (le_of_lt hlt), ?_⟩
      intro z hz
      rcases List.mem_cons.1 hz with rfl | hz
      · exact le_trans hy (le_of_lt hlt)
      · exact hys z hz
    · rename_i hge
      obtain ⟨hx, hxs⟩ := ih x
      refine ⟨hx, ?_⟩
      intro z hz
      rcases List.mem_cons.1 hz with rfl | hz
      · exact le_trans hx (not_lt.1 hge)
      · exact hxs z hz

theorem sortN_perm : ∀ (n : Nat) (l : List α), (sortN key n l).Perm l
  | 0, l => List.Perm.refl l
  | _ + 1, [] => List.Perm.refl []
  | n + 1, x :: xs => (List.Perm.cons _ (sortN_perm n _)).trans (pass_perm key x xs)

theorem sortN_sorted : ∀ (n : Nat) (l : List α), l.length ≤ n →
    (sortN key n l).Pairwise fun a b => key a ≤ key b
  | 0, l, h => by
    cases l with
    | nil => exact List.Pairwise.nil
    | cons x xs => simp at h
  | n + 1, [], _ => List.Pairwise.nil
  | n + 1, x :: xs, h => by
    refine List.Pairwise.cons ?_ (sortN_sorted n _ (by rw [pass_length]; exact Nat.le_of_succ_le_succ h))
    intro y hy
    exact (pass_le key x xs).2 y ((sortN_perm key n _).mem_iff.1 hy)

theorem sort_perm (l : List α) : (sort key l).Perm l := sortN_perm key _ l

theorem sort_sorted (l : List α) : (sort key l).Pairwise fun a b => key a ≤ key b :=
  sortN_sorted key _ l (Nat.le_refl _)

/-! ## In place -/

/-- The body of the two loops: the elements at `i` and `j` change places when the second is smaller. -/
def exchange (i j : Nat) (l : List α) : List α :=
  match l[i]?, l[j]? with
  | some x, some y => if key y < key x then (l.set i y).set j x else l
  | _, _ => l

def inner (i : Nat) (l : List α) : List α :=
  (List.range' (i + 1) (l.length - (i + 1))).foldl (fun l j => exchange key i j l) l

def inPlace (l : List α) : List α := (List.range (l.length - 1)).foldl (fun l i => inner key i l) l

theorem exchange_append (before : List α) (x : α) (done : List α) (y : α) (ys : List α) :
    exchange key before.length (before.length + 1 + done.length) (before ++ x :: (done ++ y :: ys)) =
      if key y < key x then before ++ y :: (done ++ x :: ys) else before ++ x :: (done ++ y :: ys) := by
  have hi : (before ++ x :: (done ++ y :: ys))[before.length]? = some x := by simp
  have hj : (before ++ x :: (done ++ y :: ys))[before.length + 1 + done.length]? = some y := by
    rw [List.getElem?_append_right (by omega),
      show before.length + 1 + done.length - before.length = done.length + 1 by omega]
    simp
  rw [exchange, hi, hj]
  dsimp only
  split
  · rw [List.set_append_right _ _ (Nat.le_refl _), Nat.sub_self, List.set_cons_zero,
      List.set_append_right _ _ (by omega),
      show before.length + 1 + done.length - before.length = done.length + 1 by omega, List.set_cons_succ,
      List.set_append_right _ _ (Nat.le_refl _), Nat.sub_self, List.set_cons_zero]
  · rfl

theorem foldl_exchange (before : List α) : ∀ (todo : List α) (x : α) (done : List α),
    (List.range' (before.length + 1 + done.length) todo.length).foldl (fun l j => exchange key before.length j l)
        (before ++ x :: (done ++ todo)) =
      before ++ (pass key x todo).1 :: (done ++ (pass key x todo).2)
  | [], x, done => rfl
  | y :: ys, x, done => by
    have hnext (z : α) : before.length + 1 + done.length + 1 = before.length + 1 + (done ++ [z]).length := by
      simp
      omega
    have happend (z : α) : done ++ z :: ys = (done ++ [z]) ++ ys := by simp
    rw [List.length_cons, List.range'_succ, List.foldl_cons, exchange_append, pass]
    by_cases h : key y < key x
    · rw [if_pos h, if_pos h, hnext x, happend, foldl_exchange before ys y (done ++ [x])]
      simp
    · rw [if_neg h, if_neg h, hnext y, happend, foldl_exchange before ys x (done ++ [y])]
      simp

theorem inner_append (before : List α) (x : α) (xs : List α) :
    inner key before.length (before ++ x :: xs) = before ++ (pass key x xs).1 :: (pass key x xs).2 := by
  have hlen : (before ++ x :: xs).length - (before.length + 1) = xs.length := by
    simp
    omega
  rw [inner, hlen]
  exact foldl_exchange key before xs x []

theorem foldl_inner : ∀ (n : Nat) (before l : List α), n ≤ l.length →
    (List.range' before.length n).foldl (fun l i => inner key i l) (before ++ l) = before ++ sortN key n l
  | 0, before, l, _ => by simp [sortN]
  | n + 1, before, [], h => by simp at h
  | n + 1, before, x :: xs, h => by
    have ih := foldl_inner n (before ++ [(pass key x xs).1]) (pass key x xs).2 (by
      rw [pass_length]
      exact Nat.le_of_succ_le_succ h)
    rw [List.range'_succ, List.foldl_cons, inner_append]
    simpa [sortN] using ih

theorem sortN_succ : ∀ (n : Nat) (l : List α), l.length ≤ n + 1 → sortN key (n + 1) l = sortN key n l
  | 0, [], _ | 0, [_], _ | _ + 1, [], _ => rfl
  | 0, _ :: _ :: _, h => by simp at h
  | n + 1, x :: xs, h => by
    rw [sortN, sortN_succ n _ (by rw [pass_length]; exact Nat.le_of_succ_le_succ h), sortN]

/-- The loops over the positions sort as the recursion does. -/
theorem inPlace_eq_sort (l : List α) : inPlace key l = sort key l := by
  have hloops := foldl_inner key (l.length - 1) [] l (Nat.sub_le _ _)
  rw [inPlace, List.range_eq_range']
  refine hloops.trans ?_
  rw [List.nil_append, sort]
  cases l with
  | nil => rfl
  | cons x xs => exact (sortN_succ key xs.length (x :: xs) (Nat.le_refl _)).symm

/-! ## Ordered lists -/

variable {key}

theorem filter_le_eq_take {l : List α} (hs : l.Pairwise fun a b => key a ≤ key b) (t : β) :
    l.filter (fun a => key a ≤ t) = l.take (l.countP fun a => key a ≤ t) := by
  induction l with
  | nil => rfl
  | cons x xs ih =>
    obtain ⟨hx, hxs⟩ := List.pairwise_cons.1 hs
    by_cases h : key x ≤ t
    · rw [List.filter_cons_of_pos (by simpa using h), List.countP_cons_of_pos (by simpa using h),
        List.take_succ_cons, ih hxs]
    · have hnone : xs.countP (fun a => key a ≤ t) = 0 := by
        rw [List.countP_eq_zero]
        intro y hy hle
        exact h (le_trans (hx y hy) (by simpa using hle))
      rw [List.filter_cons_of_neg (by simpa using h), List.countP_cons_of_neg (by simpa using h), hnone,
        List.take_zero, ih hxs, hnone, List.take_zero]

theorem mem_take_of_le {l : List α} (hs : l.Pairwise fun a b => key a ≤ key b) {t : β} {k : Nat}
    (hk : l.countP (fun a => key a ≤ t) = k) {last a : α} (hlast : last ∈ l.take k) (ha : a ∈ l)
    (hle : key a ≤ key last) : a ∈ l.take k := by
  subst hk
  rw [← filter_le_eq_take hs t] at hlast ⊢
  have ht : key last ≤ t := by simpa using (List.mem_filter.1 hlast).2
  exact List.mem_filter.2 ⟨ha, by simpa using le_trans hle ht⟩

theorem countP_of_take {l : List α} (hs : l.Pairwise fun a b => key a ≤ key b) {k : Nat} {last : α}
    (hlast : (l.take k).getLast? = some last) :
    l.countP (fun a => key last < key a) ≤ l.length - k ∧ l.length - k + 1 ≤ l.countP (fun a => key last ≤ key a) := by
  obtain ⟨init, htake⟩ := List.getLast?_eq_some_iff.1 hlast
  obtain ⟨rest, hrest, hlen⟩ : ∃ rest, l = init ++ last :: rest ∧ rest.length = l.length - k :=
    ⟨l.drop k, by rw [List.append_cons, ← htake, List.take_append_drop], List.length_drop⟩
  rw [hrest] at hs
  obtain ⟨-, htail, hinit⟩ := List.pairwise_append.1 hs
  have hnone : init.countP (fun a => key last < key a) = 0 :=
    List.countP_eq_zero.2 fun a ha => by simpa using hinit a ha last (.head _)
  have hall : rest.countP (fun a => key last ≤ key a) = rest.length :=
    List.countP_eq_length.2 fun a ha => by simpa using (List.pairwise_cons.1 htail).1 a ha
  have hle : rest.countP (fun a => key last < key a) ≤ rest.length := List.countP_le_length
  rw [← hlen, hrest, List.countP_append, List.countP_append, List.countP_cons_of_neg (by simp),
    List.countP_cons_of_pos (by simp), hnone, hall]
  omega

end Jupiter.Lib.ExchangeSort
