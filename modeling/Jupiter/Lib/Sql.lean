/-
The part of SQL that a single-table store uses: values with NULL, three-valued comparisons, a WHERE clause
that is a conjunction of tests on columns, LIKE, and ORDER BY with LIMIT and OFFSET.

A result set is a relation, since rows that are equal in the sort key may come in any order: `Selects` holds
of the pages that some ordering of the matching rows gives. Values of different storage classes are ordered
NULL, numbers, texts.
-/
import Mathlib.Data.List.Sort
import Mathlib.Algebra.Order.Ring.Unbundled.Rat

namespace Jupiter.Lib.Sql

inductive Value where
  | null
  | number (q : ℚ)
  | text (s : String)
  deriving DecidableEq

namespace Value

def le : Value → Value → Bool
  | .null, _ => true
  | .number _, .null => false
  | .number a, .number b => decide (a ≤ b)
  | .number _, .text _ => true
  | .text a, .text b => decide (a ≤ b)
  | .text _, _ => false

theorem le_refl (v : Value) : v.le v = true := by
  cases v <;> simp [le]

theorem le_antisymm {v w : Value} (h : v.le w = true) (h' : w.le v = true) : v = w := by
  cases v <;> cases w <;> simp [le] at h h' ⊢
  · exact Rat.le_antisymm h h'
  · exact String.le_antisymm h h'

theorem le_total (v w : Value) : (v.le w || w.le v) = true := by
  cases v <;> cases w <;> simp [le]
  · exact Rat.le_total
  · exact String.le_total ..

theorem le_trans (u v w : Value) (h : u.le v = true) (h' : v.le w = true) : u.le w = true := by
  cases u <;> cases v <;> cases w <;> simp [le] at h h' ⊢
  · exact Rat.le_trans h h'
  · exact String.le_trans h h'

end Value

/-! ## LIKE -/

/-- `t LIKE p`: `%` stands for any text, `_` for one character, and letters of ASCII match in either case. -/
def like : List Char → List Char → Bool
  | [], t => t.isEmpty
  | c :: p, t =>
    if c = '%' then t.tails.any (like p)
    else
      match t with
      | [] => false
      | d :: t => (c = '_' || c.toLower == d.toLower) && like p t

/-! ## WHERE -/

/-- What is asked of a column; the arguments are the values bound to the placeholders. -/
inductive Test where
  | ge (v : Value)
  | le (v : Value)
  | eq (v : Value)
  | like (pattern : String)
  | isNull
  | isNotNull

/-- The truth value of a test, `none` for NULL. -/
def Test.eval (x : Value) : Test → Option Bool
  | .ge v => if x = .null ∨ v = .null then none else some (v.le x)
  | .le v => if x = .null ∨ v = .null then none else some (x.le v)
  | .eq v => if x = .null ∨ v = .null then none else some (decide (x = v))
  | .like pattern =>
    match x with
    | .text s => some (Sql.like pattern.toList s.toList)
    | _ => none
  | .isNull => some (decide (x = .null))
  | .isNotNull => some (decide (x ≠ .null))

structure Condition (κ : Type) where
  column : κ
  test : Test

variable {κ ρ : Type}

/-- A row passes a WHERE clause when every condition is true of it, not when one is NULL. -/
def passes (conditions : List (Condition κ)) (row : κ → Value) : Bool :=
  conditions.all fun c => c.test.eval (row c.column) == some true

theorem passes_append (cs ds : List (Condition κ)) (row : κ → Value) :
    passes (cs ++ ds) row = (passes cs row && passes ds row) := List.all_append

/-! ## ORDER BY, LIMIT, OFFSET -/

def Ordered (key : ρ → Value) (descending : Bool) (rows : List ρ) : Prop :=
  rows.Pairwise fun r r' => if descending then (key r').le (key r) else (key r).le (key r')

/-- `page` is a result of selecting from `matching` with the order, the limit and the offset. -/
def Selects (matching : List ρ) (key : ρ → Value) (descending : Bool) (limit offset : Nat) (page : List ρ) :
    Prop :=
  ∃ rows, rows.Perm matching ∧ Ordered key descending rows ∧ page = (rows.drop offset).take limit

variable {key : ρ → Value} {descending : Bool} {matching rows rows' : List ρ}

theorem exists_ordered (matching : List ρ) (key : ρ → Value) (descending : Bool) :
    ∃ rows : List ρ, rows.Perm matching ∧ Ordered key descending rows := by
  have htrans : ∀ a b c : ρ, (key a).le (key b) = true → (key b).le (key c) = true → (key a).le (key c) = true :=
    fun a b c => Value.le_trans (key a) (key b) (key c)
  have htotal : ∀ a b : ρ, ((key a).le (key b) || (key b).le (key a)) = true := fun a b => Value.le_total ..
  cases descending with
  | true =>
    exact ⟨matching.mergeSort fun r r' => (key r').le (key r), List.mergeSort_perm .., List.pairwise_mergeSort
      (fun a b c hab hbc => htrans c b a hbc hab) (fun a b => htotal b a) matching⟩
  | false =>
    exact ⟨matching.mergeSort fun r r' => (key r).le (key r'), List.mergeSort_perm ..,
      List.pairwise_mergeSort htrans htotal matching⟩

theorem ordered_of_same_key (h : ∀ r ∈ rows, ∀ r' ∈ rows, key r = key r') : Ordered key descending rows := by
  refine List.pairwise_iff_forall_sublist.2 fun {r r'} hsub => ?_
  have hkey : key r = key r' := h r (hsub.subset (by simp)) r' (hsub.subset (by simp))
  cases descending <;> simp [hkey, Value.le_refl]

theorem keys_eq_of_ordered (hp : rows.Perm rows') (h : Ordered key descending rows)
    (h' : Ordered key descending rows') : rows.map key = rows'.map key := by
  cases descending with
  | true =>
    have hs : (rows.map key).Pairwise fun v w => w.le v = true := List.pairwise_map.2 (by simpa [Ordered] using h)
    have hs' : (rows'.map key).Pairwise fun v w => w.le v = true := List.pairwise_map.2 (by simpa [Ordered] using h')
    exact List.Perm.eq_of_pairwise (fun v w _ _ hvw hwv => Value.le_antisymm hwv hvw) hs hs' (hp.map key)
  | false =>
    have hs : (rows.map key).Pairwise fun v w => v.le w = true := List.pairwise_map.2 (by simpa [Ordered] using h)
    have hs' : (rows'.map key).Pairwise fun v w => v.le w = true := List.pairwise_map.2 (by simpa [Ordered] using h')
    exact List.Perm.eq_of_pairwise (fun v w _ _ hvw hwv => Value.le_antisymm hvw hwv) hs hs' (hp.map key)

theorem exists_perm_at {r : ρ} (hr : r ∈ matching) {k : Nat} (hk : k < matching.length) :
    ∃ rows : List ρ, rows.Perm matching ∧ rows[k]? = some r := by
  obtain ⟨as, bs, rfl⟩ := List.append_of_mem hr
  have hlen : k ≤ (as ++ bs).length := by
    simp only [List.length_append, List.length_cons] at hk ⊢
    omega
  have hperm : ((as ++ bs).take k ++ r :: (as ++ bs).drop k).Perm (r :: (as ++ bs)) := by
    simpa only [List.take_append_drop] using
      (List.perm_middle : ((as ++ bs).take k ++ r :: (as ++ bs).drop k).Perm _)
  refine ⟨(as ++ bs).take k ++ r :: (as ++ bs).drop k, hperm.trans List.perm_middle.symm, ?_⟩
  rw [List.getElem?_append_right (by simp), List.length_take, Nat.min_eq_left hlen]
  simp

end Jupiter.Lib.Sql
