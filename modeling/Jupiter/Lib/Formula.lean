/-
Boolean formulas with conjunctions and disjunctions of any length, and the rewriting laws that keep their value.

`Step` is one use of a law anywhere in a formula; `Rewrites` is any number of uses, in either direction. A rewriting
keeps the atoms of a formula and, under every valuation, its value.
-/
import Mathlib.Data.List.Perm.Basic

namespace Jupiter.Lib

inductive Formula (α : Type) where
  | atom (a : α)
  | all (fs : List (Formula α))
  | any (fs : List (Formula α))
  | not (f : Formula α)

namespace Formula

variable {α : Type}

mutual

def value (v : α → Bool) : Formula α → Bool
  | .atom a => v a
  | .all fs => valueAll v fs
  | .any fs => valueAny v fs
  | .not f => !value v f

def valueAll (v : α → Bool) : List (Formula α) → Bool
  | [] => true
  | f :: fs => value v f && valueAll v fs

def valueAny (v : α → Bool) : List (Formula α) → Bool
  | [] => false
  | f :: fs => value v f || valueAny v fs

end

mutual

def atoms : Formula α → List α
  | .atom a => [a]
  | .all fs => atomsEach fs
  | .any fs => atomsEach fs
  | .not f => atoms f

def atomsEach : List (Formula α) → List α
  | [] => []
  | f :: fs => atoms f ++ atomsEach fs

end

theorem valueAll_eq_all (v : α → Bool) : ∀ fs : List (Formula α), valueAll v fs = fs.all (value v)
  | [] => rfl
  | f :: fs => by rw [valueAll, valueAll_eq_all v fs, List.all_cons]

theorem valueAny_eq_any (v : α → Bool) : ∀ fs : List (Formula α), valueAny v fs = fs.any (value v)
  | [] => rfl
  | f :: fs => by rw [valueAny, valueAny_eq_any v fs, List.any_cons]

theorem atomsEach_eq_flatMap : ∀ fs : List (Formula α), atomsEach fs = fs.flatMap atoms
  | [] => rfl
  | f :: fs => by rw [atomsEach, atomsEach_eq_flatMap fs, List.flatMap_cons]

@[simp] theorem value_all (v : α → Bool) (fs : List (Formula α)) : value v (.all fs) = fs.all (value v) :=
  valueAll_eq_all v fs

@[simp] theorem value_any (v : α → Bool) (fs : List (Formula α)) : value v (.any fs) = fs.any (value v) :=
  valueAny_eq_any v fs

@[simp] theorem value_not (v : α → Bool) (f : Formula α) : value v (.not f) = !value v f := rfl

@[simp] theorem mem_atoms_all {a : α} {fs : List (Formula α)} : a ∈ atoms (.all fs) ↔ ∃ f ∈ fs, a ∈ atoms f := by
  show a ∈ atomsEach fs ↔ _
  rw [atomsEach_eq_flatMap, List.mem_flatMap]

@[simp] theorem mem_atoms_any {a : α} {fs : List (Formula α)} : a ∈ atoms (.any fs) ↔ ∃ f ∈ fs, a ∈ atoms f := by
  show a ∈ atomsEach fs ↔ _
  rw [atomsEach_eq_flatMap, List.mem_flatMap]

@[simp] theorem atoms_not (f : Formula α) : atoms (.not f) = atoms f := rfl

/-! ## Rewriting -/

/-- One use of a law: children in another order, a conjunction within a conjunction flattened (and likewise for
disjunctions), De Morgan, double negation. -/
inductive Step : Formula α → Formula α → Prop
  | permAll {fs gs : List (Formula α)} : fs.Perm gs → Step (.all fs) (.all gs)
  | permAny {fs gs : List (Formula α)} : fs.Perm gs → Step (.any fs) (.any gs)
  | flattenAll (pre fs post : List (Formula α)) : Step (.all (pre ++ .all fs :: post)) (.all (pre ++ fs ++ post))
  | flattenAny (pre fs post : List (Formula α)) : Step (.any (pre ++ .any fs :: post)) (.any (pre ++ fs ++ post))
  | notAll (fs : List (Formula α)) : Step (.not (.all fs)) (.any (fs.map .not))
  | notAny (fs : List (Formula α)) : Step (.not (.any fs)) (.all (fs.map .not))
  | notNot (f : Formula α) : Step (.not (.not f)) f
  | inAll (pre post : List (Formula α)) {f g : Formula α} :
      Step f g → Step (.all (pre ++ f :: post)) (.all (pre ++ g :: post))
  | inAny (pre post : List (Formula α)) {f g : Formula α} :
      Step f g → Step (.any (pre ++ f :: post)) (.any (pre ++ g :: post))
  | inNot {f g : Formula α} : Step f g → Step (.not f) (.not g)

/-- Any number of steps, forwards or backwards. -/
def Rewrites : Formula α → Formula α → Prop := Relation.EqvGen Step

theorem Step.value_eq (v : α → Bool) {f g : Formula α} (h : Step f g) : value v f = value v g := by
  induction h with
  | permAll hp => simpa only [value_all] using hp.all_eq
  | permAny hp => simpa only [value_any] using hp.any_eq
  | flattenAll pre fs post => simp only [value_all, List.all_append, List.all_cons, Bool.and_assoc]
  | flattenAny pre fs post => simp only [value_any, List.any_append, List.any_cons, Bool.or_assoc]
  | notAll fs => simp only [value_not, value_all, value_any, List.any_map, List.not_all_eq_any_not]; rfl
  | notAny fs => simp only [value_not, value_all, value_any, List.all_map, List.not_any_eq_all_not]; rfl
  | notNot f => simp only [value_not, Bool.not_not]
  | inAll pre post _ ih => simp only [value_all, List.all_append, List.all_cons, ih]
  | inAny pre post _ ih => simp only [value_any, List.any_append, List.any_cons, ih]
  | inNot _ ih => simp only [value_not, ih]

theorem Step.mem_atoms {a : α} {f g : Formula α} (h : Step f g) : a ∈ atoms f ↔ a ∈ atoms g := by
  induction h with
  | permAll hp => simp only [mem_atoms_all, hp.mem_iff]
  | permAny hp => simp only [mem_atoms_any, hp.mem_iff]
  | flattenAll pre fs post =>
    simp only [mem_atoms_all, List.mem_append, List.mem_cons, or_and_right, exists_or, exists_eq_left, or_assoc]
  | flattenAny pre fs post =>
    simp only [mem_atoms_any, List.mem_append, List.mem_cons, or_and_right, exists_or, exists_eq_left, or_assoc]
  | notAll fs => simp
  | notAny fs => simp
  | notNot f => simp only [atoms_not]
  | inAll pre post _ ih =>
    simp only [mem_atoms_all, List.mem_append, List.mem_cons, or_and_right, exists_or, exists_eq_left, ih]
  | inAny pre post _ ih =>
    simp only [mem_atoms_any, List.mem_append, List.mem_cons, or_and_right, exists_or, exists_eq_left, ih]
  | inNot _ ih => simpa only [atoms_not] using ih

/-- What one use of a law keeps, any number of uses keeps. -/
theorem Rewrites.invariant {β : Type} (q : Formula α → β) (hstep : ∀ f g, Step f g → q f = q g) {f g : Formula α}
    (h : Rewrites f g) : q f = q g := by
  induction h with
  | rel f g h => exact hstep f g h
  | refl f => rfl
  | symm f g _ ih => exact ih.symm
  | trans f g k _ _ ih₁ ih₂ => exact ih₁.trans ih₂

theorem Rewrites.value_eq (v : α → Bool) {f g : Formula α} (h : Rewrites f g) : value v f = value v g :=
  h.invariant (value v) fun _ _ => Step.value_eq v

theorem Rewrites.mem_atoms {a : α} {f g : Formula α} (h : Rewrites f g) : a ∈ atoms f ↔ a ∈ atoms g :=
  iff_of_eq (h.invariant (a ∈ atoms ·) fun _ _ hs => propext hs.mem_atoms)

end Formula

end Jupiter.Lib
