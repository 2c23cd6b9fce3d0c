/-
The edit distance of two lists: the least number of elements to insert, delete and replace on the way from one to the
other.

`distance` is the recursion over the first elements. That it is the least number of edits (`isLeast_distance`) rests on
one fact: an edit of its second argument changes it by at most one (`distance_le_of_edit`).
-/
import Mathlib.Order.Lattice.Nat

namespace Jupiter.Lib

variable {α : Type}

/-- One insertion, deletion or replacement. -/
inductive Edit : List α → List α → Prop
  | insert (before after : List α) (a : α) : Edit (before ++ after) (before ++ a :: after)
  | delete (before after : List α) (a : α) : Edit (before ++ a :: after) (before ++ after)
  | replace (before after : List α) (a b : α) : Edit (before ++ a :: after) (before ++ b :: after)

/-- The second list comes of the first by this number of edits. -/
inductive Edits : Nat → List α → List α → Prop
  | refl (l : List α) : Edits 0 l l
  | tail {n : Nat} {l m r : List α} : Edits n l m → Edit m r → Edits (n + 1) l r

namespace Edits

variable {n k : Nat} {l m r : List α}

theorem single (h : Edit l r) : Edits 1 l r := .tail (.refl l) h

theorem trans (h : Edits n l m) (h' : Edits k m r) : Edits (n + k) l r := by
  induction h' with
  | refl m => exact h
  | tail _ hedit ih => exact .tail (ih h) hedit

theorem symm (h : Edits n l r) : Edits n r l := by
  induction h with
  | refl l => exact .refl l
  | @tail n l m r _ hedit ih =>
    have hback : Edit r m := by
      cases hedit with
      | insert before after a => exact .delete before after a
      | delete before after a => exact .insert before after a
      | replace before after a b => exact .replace before after b a
    rw [Nat.add_comm]
    exact (single hback).trans ih

theorem cons (a : α) (h : Edits n l r) : Edits n (a :: l) (a :: r) := by
  induction h with
  | refl l => exact .refl _
  | tail _ hedit ih =>
    refine .tail ih ?_
    cases hedit with
    | insert before after b => exact .insert (a :: before) after b
    | delete before after b => exact .delete (a :: before) after b
    | replace before after b c => exact .replace (a :: before) after b c

theorem reverse (h : Edits n l r) : Edits n l.reverse r.reverse := by
  induction h with
  | refl l => exact .refl _
  | tail _ hedit ih =>
    refine .tail ih ?_
    cases hedit with
    | insert before after b =>
      simpa using Edit.insert after.reverse before.reverse b
    | delete before after b =>
      simpa using Edit.delete after.reverse before.reverse b
    | replace before after b c =>
      simpa using Edit.replace after.reverse before.reverse b c

theorem nil_left : ∀ r : List α, Edits r.length [] r
  | [] => .refl []
  | a :: r => by
    have hrest := nil_left r
    exact .tail hrest (.insert [] r a)

end Edits

/-! ## The recursion -/

section Distance

variable [DecidableEq α]

def distance : List α → List α → Nat
  | [], r => r.length
  | l, [] => l.length
  | a :: l, b :: r =>
    min (min (distance l (b :: r) + 1) (distance (a :: l) r + 1)) (distance l r + if a = b then 0 else 1)
termination_by l r => l.length + r.length

@[simp] theorem distance_nil_left (r : List α) : distance [] r = r.length := by
  unfold distance
  rfl

@[simp] theorem distance_nil_right (l : List α) : distance l [] = l.length := by
  cases l <;> unfold distance <;> rfl

theorem distance_cons_cons (a : α) (l : List α) (b : α) (r : List α) :
    distance (a :: l) (b :: r) =
      min (min (distance l (b :: r) + 1) (distance (a :: l) r + 1)) (distance l r + if a = b then 0 else 1) := by
  rw [distance]

theorem edits_distance : ∀ l r : List α, Edits (distance l r) l r
  | [], r => by
    rw [distance_nil_left]
    exact Edits.nil_left r
  | a :: l, [] => by
    rw [distance_nil_right]
    exact (Edits.nil_left (a :: l)).symm
  | a :: l, b :: r => by
    rw [distance_cons_cons]
    rcases min_choice (min (distance l (b :: r) + 1) (distance (a :: l) r + 1))
      (distance l r + if a = b then 0 else 1) with h | h
    · rcases min_choice (distance l (b :: r) + 1) (distance (a :: l) r + 1) with h' | h'
      · rw [h, h', Nat.add_comm]
        exact (Edits.single (.delete [] l a)).trans (edits_distance l (b :: r))
      · rw [h, h']
        exact .tail (edits_distance (a :: l) r) (.insert [] r b)
    · rw [h]
      split
      · rename_i hab
        rw [hab]
        exact (edits_distance l r).cons b
      · exact .tail ((edits_distance l r).cons a) (.replace [] r a b)
termination_by l r => l.length + r.length

/-! ## An edit changes it by at most one -/

theorem distance_cons_right_le (l : List α) (b : α) (r : List α) : distance l (b :: r) ≤ distance l r + 1 := by
  cases l with
  | nil => simp
  | cons a l =>
    rw [distance_cons_cons]
    omega

theorem distance_cons_left_le (a : α) (l r : List α) : distance (a :: l) r ≤ distance l r + 1 := by
  cases r with
  | nil => simp
  | cons b r =>
    rw [distance_cons_cons]
    omega

theorem distance_le_cons_right (l : List α) (b : α) (r : List α) : distance l r ≤ distance l (b :: r) + 1 := by
  induction l with
  | nil =>
    simp
    omega
  | cons a l ih =>
    have hdelete := distance_cons_left_le a l r
    rw [distance_cons_cons]
    omega

theorem distance_replace_le (l : List α) (a b : α) (r : List α) : distance l (b :: r) ≤ distance l (a :: r) + 1 := by
  induction l with
  | nil => simp
  | cons c l ih =>
    rw [distance_cons_cons, distance_cons_cons]
    split <;> split <;> omega

theorem distance_cons_le {r r' : List α} (h : ∀ l, distance l r' ≤ distance l r + 1) (b : α) (l : List α) :
    distance l (b :: r') ≤ distance l (b :: r) + 1 := by
  induction l with
  | nil => simpa using h []
  | cons a l ih =>
    have hsame := h (a :: l)
    have hrest := h l
    rw [distance_cons_cons, distance_cons_cons]
    omega

theorem distance_append_le {r r' : List α} (h : ∀ l, distance l r' ≤ distance l r + 1) :
    ∀ (before l : List α), distance l (before ++ r') ≤ distance l (before ++ r) + 1
  | [] => h
  | b :: before => distance_cons_le (distance_append_le h before) b

theorem distance_le_of_edit {r r' : List α} (h : Edit r r') (l : List α) : distance l r' ≤ distance l r + 1 := by
  cases h with
  | insert before after a => exact distance_append_le (fun l => distance_cons_right_le l a after) before l
  | delete before after a => exact distance_append_le (fun l => distance_le_cons_right l a after) before l
  | replace before after a b => exact distance_append_le (fun l => distance_replace_le l a b after) before l

theorem distance_self : ∀ l : List α, distance l l = 0
  | [] => distance_nil_left []
  | a :: l => by
    rw [distance_cons_cons, distance_self l, if_pos rfl]
    simp

theorem distance_le_of_edits {n : Nat} {l r : List α} (h : Edits n l r) : distance l r ≤ n := by
  induction h with
  | refl l => rw [distance_self]
  | tail _ hedit ih => exact (distance_le_of_edit hedit _).trans (Nat.succ_le_succ ih)

theorem isLeast_distance (l r : List α) : IsLeast {n | Edits n l r} (distance l r) :=
  ⟨edits_distance l r, fun _ h => distance_le_of_edits h⟩

/-! ## A metric -/

theorem distance_eq_zero_iff {l r : List α} : distance l r = 0 ↔ l = r := by
  constructor
  · intro h
    have hedits := edits_distance l r
    rw [h] at hedits
    cases hedits
    rfl
  · rintro rfl
    exact distance_self l

theorem distance_comm (l r : List α) : distance l r = distance r l :=
  Nat.le_antisymm (distance_le_of_edits (edits_distance r l).symm) (distance_le_of_edits (edits_distance l r).symm)

theorem distance_triangle (l m r : List α) : distance l r ≤ distance l m + distance m r :=
  distance_le_of_edits ((edits_distance l m).trans (edits_distance m r))

theorem distance_reverse (l r : List α) : distance l.reverse r.reverse = distance l r := by
  refine Nat.le_antisymm (distance_le_of_edits (edits_distance l r).reverse) (distance_le_of_edits ?_)
  have hback := (edits_distance l.reverse r.reverse).reverse
  rwa [List.reverse_reverse, List.reverse_reverse] at hback

end Distance

end Jupiter.Lib
