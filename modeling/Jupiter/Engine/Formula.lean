/-
Condition trees as Boolean formulas over their leaves. The tree of a formula is read off a condition
(`toFormula`) unless a `not` in it has other than one child; when no leaf fails, `Match` gives the value of the
formula (`eval_toFormula`), so the laws of Boolean formulas hold for conditions.
-/
import Jupiter.Engine.Condition
import Jupiter.Lib.Formula

namespace Jupiter.Engine

open Jupiter.Go Jupiter.Mpl Jupiter.Lib

inductive Leaf where
  | simple (field : String) (op : Operator) (value : ValueNode)
  | function (name : String) (args : List ValueNode)

mutual

/-- The formula of a condition of `all`, `any`, `not`, simple and function nodes, every `not` with one child. -/
def toFormula : ConditionNode → Option (Formula Leaf)
  | .simple field op value => some (.atom (.simple field op value))
  | .all children => (toFormulas children).map .all
  | .any children => (toFormulas children).map .any
  | .not [child] => (toFormula child).map .not
  | .not _ => none
  | .function name args => some (.atom (.function name args))
  | .unknown _ => none

def toFormulas : List ConditionNode → Option (List (Formula Leaf))
  | [] => some []
  | child :: rest =>
    match toFormula child, toFormulas rest with
    | some f, some fs => some (f :: fs)
    | _, _ => none

end

theorem toFormulas_cons {child : ConditionNode} {rest : List ConditionNode} {gs : List (Formula Leaf)}
    (h : toFormulas (child :: rest) = some gs) :
    ∃ f fs, toFormula child = some f ∧ toFormulas rest = some fs ∧ gs = f :: fs := by
  rw [toFormulas] at h
  cases hf : toFormula child with
  | none => rw [hf] at h; cases h
  | some f =>
    cases hfs : toFormulas rest with
    | none => rw [hf, hfs] at h; cases h
    | some fs =>
      rw [hf, hfs] at h
      cases h
      exact ⟨f, fs, rfl, rfl, rfl⟩

namespace DefaultMatcher

variable (rt : Runtime) (m : DefaultMatcher) (ctx : EvaluationContext)

def matchLeaf : Leaf → Except MatchError Bool
  | .simple field op value => m.matchSimple rt field op value ctx
  | .function name _ => m.matchFunction rt name ctx

def leafValue (leaf : Leaf) : Bool :=
  match m.matchLeaf rt ctx leaf with
  | .ok b => b
  | .error _ => false

section

variable {rt m ctx}

theorem matchLeaf_eq_ok {leaf : Leaf} (h : ∀ e, m.matchLeaf rt ctx leaf ≠ .error e) :
    m.matchLeaf rt ctx leaf = .ok (m.leafValue rt ctx leaf) := by
  unfold leafValue
  cases hl : m.matchLeaf rt ctx leaf with
  | ok b => rfl
  | error e => exact absurd hl (h e)

theorem values_toFormulas {cs : List ConditionNode}
    (ih : ∀ c ∈ cs, ∀ {f : Formula Leaf}, toFormula c = some f →
      (∀ leaf ∈ f.atoms, ∀ e, m.matchLeaf rt ctx leaf ≠ .error e) →
      m.eval rt ctx c = .ok (f.value (m.leafValue rt ctx)))
    {gs : List (Formula Leaf)} (h : toFormulas cs = some gs)
    (hl : ∀ leaf ∈ Formula.atomsEach gs, ∀ e, m.matchLeaf rt ctx leaf ≠ .error e) :
    List.Forall₂ (fun c b => m.eval rt ctx c = .ok b) cs (gs.map (·.value (m.leafValue rt ctx))) := by
  induction cs generalizing gs with
  | nil =>
    rw [toFormulas, Option.some.injEq] at h
    exact h ▸ .nil
  | cons c cs ihs =>
    obtain ⟨f, fs, hf, hfs, rfl⟩ := toFormulas_cons h
    exact .cons (ih c List.mem_cons_self hf fun leaf hm => hl leaf (List.mem_append_left _ hm))
      (ihs (fun c hc => ih c (List.mem_cons_of_mem _ hc)) hfs fun leaf hm => hl leaf (List.mem_append_right _ hm))

/-- A condition whose leaves do not fail has the value of its formula. The loops of `all` and `any` stop at the
first child that decides them, as the conjunction and the disjunction of a list do. -/
theorem eval_toFormula {n : ConditionNode} {f : Formula Leaf} (h : toFormula n = some f)
    (hl : ∀ leaf ∈ f.atoms, ∀ e, m.matchLeaf rt ctx leaf ≠ .error e) :
    m.eval rt ctx n = .ok (f.value (m.leafValue rt ctx)) := by
  induction n using condition_induction generalizing f with
  | simple field op value =>
    rw [toFormula, Option.some.injEq] at h
    subst h
    rw [eval]
    exact matchLeaf_eq_ok (hl (.simple field op value) (List.mem_singleton_self _))
  | group cs ih =>
    have hloop {fs : List (Formula Leaf)} (hfs : toFormulas cs = some fs)
        (hl : ∀ leaf ∈ Formula.atomsEach fs, ∀ e, m.matchLeaf rt ctx leaf ≠ .error e) :=
      evalWhile_of_values rt m ctx (values_toFormulas ih hfs hl)
    constructor
    all_goals
      intro f h hl
      rw [toFormula] at h
      obtain ⟨fs, hfs, rfl⟩ := Option.map_eq_some_iff.1 h
    · rw [eval_all, (hloop hfs hl).1, Formula.value_all, List.all_map]
      rfl
    · rw [eval_any, (hloop hfs hl).2, Formula.value_any, List.any_map]
      rfl
  | single c ih =>
    rw [toFormula] at h
    obtain ⟨g, hg, rfl⟩ := Option.map_eq_some_iff.1 h
    rw [eval, ih hg hl]
    rfl
  | other cs hc =>
    match cs with
    | [] => simp [toFormula] at h
    | [_] => exact absurd rfl hc
    | _ :: _ :: _ => simp [toFormula] at h
  | function name args =>
    rw [toFormula, Option.some.injEq] at h
    subst h
    rw [eval]
    exact matchLeaf_eq_ok (hl (.function name args) (List.mem_singleton_self _))
  | unknown _ => rw [toFormula] at h; cases h

end

/-! ## Conditions as formulas -/

theorem matchCondition_never (n : ConditionNode) :
    m.matchCondition rt (fun _ => false) ctx (some n) = m.eval rt ctx n :=
  matchNode_never rt m ctx [] n

/-- `Match` gives the value of the formula over the leaf values, so no rewriting of the formula anywhere in the tree
changes the result. -/
theorem match_is_formula_value (n : ConditionNode) (f : Formula Leaf) (hf : toFormula n = some f)
    (hleaf : ∀ leaf ∈ f.atoms, ∀ e, m.matchLeaf rt ctx leaf ≠ .error e) :
    m.matchCondition rt (fun _ => false) ctx (some n) = .ok (f.value (m.leafValue rt ctx)) ∧
    (∀ n' f', toFormula n' = some f' → f.Rewrites f' →
      m.matchCondition rt (fun _ => false) ctx (some n') = m.matchCondition rt (fun _ => false) ctx (some n)) ∧
    m.matchCondition rt (fun _ => false) ctx (some (.all [])) = .ok true ∧
    m.matchCondition rt (fun _ => false) ctx (some (.any [])) = .ok false := by
  refine ⟨?_, ?_, ?_, ?_⟩
  · rw [matchCondition_never, eval_toFormula hf hleaf]
  · intro n' f' hf' hrw
    have hleaf' : ∀ leaf ∈ f'.atoms, ∀ e, m.matchLeaf rt ctx leaf ≠ .error e :=
      fun leaf hm => hleaf leaf (hrw.mem_atoms.2 hm)
    rw [matchCondition_never, matchCondition_never, eval_toFormula hf hleaf, eval_toFormula hf' hleaf',
      hrw.value_eq]
  · rw [matchCondition_never, eval, evalWhile]
  · rw [matchCondition_never, eval, evalWhile]

theorem match_neither_finding :
    let m : DefaultMatcher := { businessHours := none, failSafeMode := .failClosed }
    let rt : Runtime := { sprint := fun _ => "", regexpCompile := fun _ => none, loadLocation := fun _ => none }
    let pii : ConditionNode := .function "has_pii" []
    let injection : ConditionNode := .function "has_injection" []
    m.matchCondition rt (fun _ => false) {} (some (.not [.any [pii, injection]])) = .ok true ∧
      m.matchCondition rt (fun _ => false) {} (some (.all [.not [injection], .not [pii]])) = .ok true := by
  intro m rt pii injection
  let p : Formula Leaf := .atom (.function "has_pii" [])
  let i : Formula Leaf := .atom (.function "has_injection" [])
  have hleaf : ∀ leaf ∈ (Formula.not (.any [p, i])).atoms, ∀ e, m.matchLeaf rt {} leaf ≠ .error e := by
    intro leaf hm
    rcases List.mem_pair.1 hm with rfl | rfl
    · nofun
    · nofun
  have h := match_is_formula_value rt m {} (.not [.any [pii, injection]]) (.not (.any [p, i])) rfl hleaf
  have hrw : (Formula.not (.any [p, i])).Rewrites (.all [.not i, .not p]) :=
    .trans _ _ _ (.rel _ _ (.notAny [p, i])) (.rel _ _ (.permAll (.swap _ _ _)))
  exact ⟨h.1, (h.2.1 (.all [.not [injection], .not [pii]]) (.all [.not i, .not p]) rfl hrw).trans h.1⟩

end DefaultMatcher

end Jupiter.Engine
