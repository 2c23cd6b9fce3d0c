/-
Whether variables mean their values to the engine. The engine never looks a variable up: a condition compares with the
text of a reference, and a parameter that is a reference counts as absent, but for the value of a modify action, which
is the text.
-/
import Jupiter.Engine.Membership
import Jupiter.Engine.Run
import Jupiter.Engine.Order
import Jupiter.Mpl.Substitution
import Jupiter.Mpl.Validator

namespace Jupiter.Engine

open Jupiter.Go Jupiter.Mpl Jupiter.Processing Jupiter.Lib

/-! ## Actions -/

/-- `a` and `b` have the same text under `key`, `default` standing in for an absent one. -/
def SameText (a b : Action) (key default : String) : Prop :=
  orDefault (a.getStringParameter key) default = orDefault (b.getStringParameter key) default

/-- `a` and `b`, actions of one kind, have the same values for the parameters that kind reads. Without the
parameter it requires, an action reads no other. -/
def SameParameters (a b : Action) : Prop :=
  match a.type with
  | .allow => True
  | .deny => denyMessage a = denyMessage b ∧ denyStatusCode a = denyStatusCode b
  | .log => SameText a b "message" "" ∧ SameText a b "level" "info"
  | .redact =>
    SameText a b "field" "prompt" ∧ SameText a b "strategy" "mask" ∧ SameText a b "pattern" "" ∧
      SameText a b "replacement" "***"
  | .modify =>
    SameText a b "field" "" ∧
      (a.getStringParameter "field" ≠ "" → SameText a b "operation" "set" ∧ modifyValue a = modifyValue b)
  | .route =>
    SameText a b "provider" "" ∧
      (a.getStringParameter "provider" ≠ "" → SameText a b "model" "" ∧ routeFallback a = routeFallback b)
  | .alert =>
    SameText a b "destination" "" ∧
      (a.getStringParameter "destination" ≠ "" → SameText a b "type" "webhook" ∧ SameText a b "message" "")
  | .rateLimit =>
    truncateToInt (a.getNumberParameter "limit") = truncateToInt (b.getNumberParameter "limit") ∧
      SameText a b "window" ""
  | .budget => a.getNumberParameter "limit" = b.getNumberParameter "limit"
  | .tag | .unknown _ => a = b

theorem orDefault_empty (s : String) : orDefault s "" = s := by
  unfold orDefault
  split
  · next h => exact h.symm
  · rfl

@[simp] theorem sameText_empty {a b : Action} {key : String} :
    SameText a b key "" ↔ a.getStringParameter key = b.getStringParameter key := by
  rw [SameText, orDefault_empty, orDefault_empty]

theorem strings_inj {l m : List String} : Value.strings l = Value.strings m ↔ l = m := by
  constructor
  · intro h
    exact List.map_injective_iff.mpr (fun _ _ => Value.string.inj) (Value.slice.inj h).2
  · rintro rfl
    rfl

theorem required_eq_iff {a b : Action} (ht : b.type = a.type) (key : String) {s t : String}
    {details details' : List (String × Value)} {P : Prop} (hd : details = details' ↔ s = t ∧ P) :
    ((if s = "" then ActionResult.missing a key else .succeed a details) =
      if t = "" then ActionResult.missing b key else .succeed b details') ↔ s = t ∧ (s ≠ "" → P) := by
  by_cases hs : s = ""
  · rw [if_pos hs]
    by_cases hb : t = ""
    · simp [ActionResult.missing, ht, hs, hb]
    · rw [if_neg hb]
      have hne : s ≠ t := fun h => hb (h ▸ hs)
      simp [ActionResult.missing, ActionResult.succeed, hne]
  · rw [if_neg hs]
    by_cases hb : t = ""
    · rw [if_pos hb]
      have hne : s ≠ t := fun h => hs (h ▸ hb)
      simp [ActionResult.missing, ActionResult.succeed, hne]
    · rw [if_neg hb]
      simp [ActionResult.succeed, ht, hd, hs]

section Actions

variable (rt : Runtime)

theorem execute_result_eq_iff {a b : Action} (ht : b.type = a.type) (hv : isValidActionType a.type = true)
    (ctx : EvaluationContext) :
    (execute rt a ctx).1 = (execute rt b ctx).1 ↔ SameParameters a b := by
  unfold execute SameParameters
  rw [ht]
  cases h : a.type with
  | tag => rw [h] at hv; cases hv
  | unknown s => rw [h] at hv; cases hv
  | allow => simp [executeAllow, ActionResult.succeed, ht]
  | deny => simp [executeDeny, ActionResult.succeed, ht]
  | log => simp [executeLog, ActionResult.succeed, ht, SameText, orDefault_empty]
  | redact => simp [executeRedact, ActionResult.succeed, ht, SameText, orDefault_empty]
  | modify =>
    simp only [executeModify, apply_ite Prod.fst, sameText_empty]
    refine required_eq_iff ht "field" ?_
    simp [SameText]
  | route =>
    have hres : ∀ c : Action, (executeRoute c ctx).1 =
        if c.getStringParameter "provider" = "" then .missing c "provider"
        else .succeed c [("provider", .string (c.getStringParameter "provider")),
          ("model", .string (c.getStringParameter "model")), ("fallback", .strings (routeFallback c))] :=
      fun c => apply_ite Prod.fst _ _ _
    simp only [hres, sameText_empty]
    refine required_eq_iff ht "provider" ?_
    simp [strings_inj]
  | alert =>
    simp only [executeAlert, apply_ite Prod.fst, sameText_empty]
    refine required_eq_iff ht "destination" ?_
    simp [SameText, and_left_comm]
  | rateLimit => simp [executeRateLimit, ActionResult.succeed, ht]
  | budget => simp [executeBudget, ActionResult.succeed, ht]

theorem execute_effect_congr {a b : Action} (ht : b.type = a.type) (h : SameParameters a b)
    (ctx : EvaluationContext) : (execute rt b ctx).2 = (execute rt a ctx).2 := by
  unfold SameParameters at h
  unfold execute
  rw [ht]
  cases hk : a.type with
  -- allow, log, rate limit and budget do the same whatever their parameters
  | allow => rfl
  | deny =>
    rw [hk] at h
    simp only [executeDeny, h.1, h.2]
  | log => rfl
  | redact =>
    rw [hk] at h
    obtain ⟨hf, hs, hp, hr⟩ := h
    rw [sameText_empty] at hp
    unfold SameText at hf hs hr
    simp only [executeRedact, hf, hs, hp, hr]
  | modify =>
    rw [hk] at h
    obtain ⟨hf, hrest⟩ := h
    rw [sameText_empty] at hf
    by_cases hne : a.getStringParameter "field" = ""
    · simp [executeModify, ← hf, hne]
    · obtain ⟨ho, hv⟩ := hrest hne
      rw [SameText] at ho
      simp [executeModify, ← hf, hne, ho, hv]
  | route =>
    rw [hk] at h
    obtain ⟨hp, hrest⟩ := h
    rw [sameText_empty] at hp
    by_cases hne : a.getStringParameter "provider" = ""
    · simp [executeRoute, routeTarget, ← hp, hne]
    · obtain ⟨hm, hf⟩ := hrest hne
      rw [sameText_empty] at hm
      simp [executeRoute, routeTarget, ← hp, hne, hm, hf]
  | alert =>
    rw [hk] at h
    obtain ⟨hd, hrest⟩ := h
    rw [sameText_empty] at hd
    by_cases hne : a.getStringParameter "destination" = ""
    · simp [executeAlert, ← hd, hne]
    · obtain ⟨hty, hm⟩ := hrest hne
      rw [SameText] at hty
      rw [sameText_empty] at hm
      simp [executeAlert, ← hd, hne, hty, hm]
  | rateLimit => rfl
  | budget => rfl
  | tag =>
    rw [hk] at h
    rw [h]
  | unknown s => rfl

theorem runActions_map (f : Action → Action) (hf : ∀ a, (f a).type = a.type) {actions : List Action}
    (h : ∀ a ∈ actions, SameParameters a (f a)) (ctx : EvaluationContext) :
    runActions rt (actions.map f) ctx = runActions rt actions ctx := by
  induction actions generalizing ctx with
  | nil => rfl
  | cons a actions ih =>
    rw [List.map_cons, runActions_cons, runActions_cons,
      execute_effect_congr rt (hf a) (h a List.mem_cons_self)]
    exact ih (fun b hb => h b (List.mem_cons_of_mem a hb)) _

end Actions

/-! ## Operators -/

section Operators

variable (rt : Runtime)

/-- Of two operands of an order, both are numbers on one side of `actual`, or none is a number and the error names one
type. With an `actual` that is no number the error does not show the operand. -/
def AlikeInOrder (holds : ℚ → ℚ → Bool) (actual v w : Value) : Prop :=
  ∀ a, convertToFloat64 actual = some a →
    (∃ x y, convertToFloat64 v = some x ∧ convertToFloat64 w = some y ∧ holds a x = holds a y) ∨
      convertToFloat64 v = none ∧ convertToFloat64 w = none ∧ v.typeName = w.typeName

def textOf : Value → Option String
  | .string s => some s
  | _ => none

def itemsOf : Value → Option (List Value)
  | .slice _ items => some items
  | _ => none

/-- The operands are one pattern, or both compile and the text of `actual` matches both or none; or none is a text. -/
def AlikeAsPatterns (actual v w : Value) : Prop :=
  textOf v = textOf w ∨ ∃ f g, (textOf v).bind rt.regexpCompile = some f ∧ (textOf w).bind rt.regexpCompile = some g ∧
    f (valueText rt actual) = g (valueText rt actual)

/-- `actual` is in both lists or in none; or none of the operands is a list and the error names one kind. -/
def AlikeAsLists (actual v w : Value) : Prop :=
  (∃ vs ws, itemsOf v = some vs ∧ itemsOf w = some ws ∧ vs.any actual.deepEqual = ws.any actual.deepEqual) ∨
    itemsOf v = none ∧ itemsOf w = none ∧ v.kind = w.kind

/-- What it takes for an operator to make no difference between two operands. -/
def Alike (op : Operator) (actual v w : Value) : Prop :=
  match op with
  | .equal | .notEqual =>
    (actual.deepEqual v = true ∨ NumericallyEqual actual v ↔ actual.deepEqual w = true ∨ NumericallyEqual actual w)
  | .lessThan => AlikeInOrder (fun a e => decide (a < e)) actual v w
  | .greaterThan => AlikeInOrder (fun a e => decide (a > e)) actual v w
  | .lessEqual => AlikeInOrder (fun a e => decide (a ≤ e)) actual v w
  | .greaterEqual => AlikeInOrder (fun a e => decide (a ≥ e)) actual v w
  | .contains =>
    Strings.contains (valueText rt actual) (valueText rt v) = Strings.contains (valueText rt actual) (valueText rt w)
  | .startsWith =>
    Strings.startsWith (valueText rt actual) (valueText rt v) =
      Strings.startsWith (valueText rt actual) (valueText rt w)
  | .endsWith =>
    Strings.endsWith (valueText rt actual) (valueText rt v) = Strings.endsWith (valueText rt actual) (valueText rt w)
  | .matches => AlikeAsPatterns rt actual v w
  | .isIn | .notIn => AlikeAsLists actual v w
  | .unknown _ => True

variable {rt} {actual v w : Value}

theorem evaluateEqual_eq_iff : evaluateEqual actual v = evaluateEqual actual w ↔
    (actual.deepEqual v = true ∨ NumericallyEqual actual v ↔
      actual.deepEqual w = true ∨ NumericallyEqual actual w) := by
  rw [Bool.eq_iff_iff, evaluateEqual_iff, evaluateEqual_iff]

theorem evaluateOrder_eq_iff (holds : ℚ → ℚ → Bool) :
    evaluateOrder holds actual v = evaluateOrder holds actual w ↔ AlikeInOrder holds actual v w := by
  unfold evaluateOrder toNumeric AlikeInOrder
  cases convertToFloat64 actual with
  | none => exact iff_of_true rfl fun _ h => by cases h
  | some a => cases convertToFloat64 v <;> cases convertToFloat64 w <;> simp [Except.map]

theorem evaluateMatches_eq_iff :
    evaluateMatches rt actual v = evaluateMatches rt actual w ↔ AlikeAsPatterns rt actual v w := by
  have hmatches : ∀ v, evaluateMatches rt actual v = (textOf v).elim (.error .patternNotString) fun p =>
      (rt.regexpCompile p).elim (.error (.invalidPattern p)) fun isMatch => .ok (isMatch (valueText rt actual)) := by
    intro v
    unfold evaluateMatches
    rw [toString_eq]
    cases v with
    | string s => cases h : rt.regexpCompile s <;> simp [textOf, h]
    | _ => rfl
  unfold AlikeAsPatterns
  rw [hmatches, hmatches]
  rcases textOf v with _ | p <;> rcases textOf w with _ | q
  · simp
  · cases hq : rt.regexpCompile q <;> simp [hq]
  · cases hp : rt.regexpCompile p <;> simp [hp]
  · by_cases hpq : p = q
    · simp [hpq]
    · cases hp : rt.regexpCompile p <;> cases hq : rt.regexpCompile q <;> simp [hp, hq, hpq]

theorem evaluateIn_eq_iff : evaluateIn actual v = evaluateIn actual w ↔ AlikeAsLists actual v w := by
  have hin : ∀ v, evaluateIn actual v = (itemsOf v).elim (.error (.inNotList v.kind)) fun items =>
      .ok (items.any actual.deepEqual) := fun v => by cases v <;> rfl
  unfold AlikeAsLists
  rw [hin, hin]
  cases itemsOf v <;> cases itemsOf w <;> simp

theorem evaluateOperator_eq_iff (op : Operator) :
    evaluateOperator rt op actual v = evaluateOperator rt op actual w ↔ Alike rt op actual v w := by
  match op with
  | .equal => exact (Except.ok.injEq _ _).to_iff.trans evaluateEqual_eq_iff
  | .notEqual => exact ((Except.ok.injEq _ _).to_iff.trans Bool.not_inj_iff).trans evaluateEqual_eq_iff
  | .lessThan => exact evaluateOrder_eq_iff fun a e => decide (a < e)
  | .greaterThan => exact evaluateOrder_eq_iff fun a e => decide (a > e)
  | .lessEqual => exact evaluateOrder_eq_iff fun a e => decide (a ≤ e)
  | .greaterEqual => exact evaluateOrder_eq_iff fun a e => decide (a ≥ e)
  | .contains => simp [evaluateOperator, Alike, evaluateContains, toString_eq]
  | .startsWith => simp [evaluateOperator, Alike, evaluateStartsWith, evaluateEnd, toString_eq]
  | .endsWith => simp [evaluateOperator, Alike, evaluateEndsWith, evaluateEnd, toString_eq]
  | .matches => exact evaluateMatches_eq_iff
  | .isIn => exact evaluateIn_eq_iff
  | .notIn =>
    refine Iff.trans ?_ evaluateIn_eq_iff
    show (evaluateIn actual v).map (!·) = (evaluateIn actual w).map (!·) ↔ _
    cases evaluateIn actual v <;> cases evaluateIn actual w <;> simp [Except.map]
  | .unknown _ => exact iff_of_true rfl trivial

theorem matchSimple_eq_iff {m : DefaultMatcher} {ctx : EvaluationContext} {field : String} {op : Operator}
    {v w : ValueNode} : m.matchSimple rt field op v ctx = m.matchSimple rt field op w ctx ↔
      ∀ actual, extractField field ctx = some actual → Alike rt op actual v.value w.value := by
  unfold DefaultMatcher.matchSimple
  cases extractField field ctx with
  | none => exact iff_of_true rfl fun _ h => by cases h
  | some actual =>
    simp only [Option.some.injEq, forall_eq', ← evaluateOperator_eq_iff]
    cases evaluateOperator rt op actual v.value <;> cases evaluateOperator rt op actual w.value <;>
      simp [Except.mapError]

end Operators

/-! ## Conditions -/

section Conditions

variable {rt : Runtime} {m : DefaultMatcher} {ctx : EvaluationContext} {fill : String → String}
  {variableMap : List (String × ValueNode)}

variable (rt ctx fill variableMap) in
def SameComparisons (leaves : List ConditionNode) : Prop :=
  ∀ field op value, .simple field op value ∈ leaves → ∀ actual, extractField field ctx = some actual →
    Alike rt op actual (value.subst fill variableMap).value value.value

theorem substAll_eq_map (cs : List ConditionNode) :
    ConditionNode.substAll fill variableMap cs = cs.map (·.subst fill variableMap) := by
  induction cs with
  | nil => rfl
  | cons c cs ih => rw [ConditionNode.substAll, ih, List.map_cons]

/-- A condition comes out the same when the comparisons its evaluation looks at do. The arguments of a
function are not looked at. -/
theorem eval_subst (n : ConditionNode) (h : SameComparisons rt ctx fill variableMap (m.consulted rt ctx n)) :
    m.eval rt ctx (n.subst fill variableMap) = m.eval rt ctx n := by
  induction n using DefaultMatcher.condition_induction with
  | simple field op value =>
    simp only [ConditionNode.subst, DefaultMatcher.eval]
    exact matchSimple_eq_iff.mpr (h field op value (by simp only [DefaultMatcher.consulted, List.mem_singleton]))
  | group cs ih =>
    have hloop (go : Bool)
        (h : SameComparisons rt ctx fill variableMap ((m.reached rt ctx go cs).flatMap (m.consulted rt ctx))) :=
      m.evalWhile_map rt ctx ctx go (·.subst fill variableMap) fun c hc =>
        ih c (DefaultMatcher.mem_of_reached hc) fun field op value hl =>
          h field op value (List.mem_flatMap.2 ⟨c, hc, hl⟩)
    simp only [ConditionNode.subst, substAll_eq_map, DefaultMatcher.eval_all, DefaultMatcher.eval_any,
      DefaultMatcher.consulted_all, DefaultMatcher.consulted_any]
    exact ⟨hloop true, hloop false⟩
  | single c ih =>
    simp only [DefaultMatcher.consulted] at h
    simp only [ConditionNode.subst, ConditionNode.substAll, DefaultMatcher.eval, ih h]
  | other cs hc =>
    -- an error that shows the number of children
    simp [ConditionNode.subst, substAll_eq_map, DefaultMatcher.eval_not_other, hc]
  | function _ _ => simp only [ConditionNode.subst, DefaultMatcher.eval]
  | unknown _ => simp only [ConditionNode.subst]

/-- Whether a comparison of the condition can be without effect on how it comes out. -/
def branches : ConditionNode → Bool
  | .all _ | .any _ => true
  | .not [child] => branches child
  | _ => false

/-- Without branches nothing hides a comparison that comes out differently. -/
theorem sameComparisons_of_eval {n : ConditionNode} (hn : branches n = false)
    (h : m.eval rt ctx (n.subst fill variableMap) = m.eval rt ctx n) :
    SameComparisons rt ctx fill variableMap (m.consulted rt ctx n) := by
  induction n using DefaultMatcher.condition_induction with
  | simple field op value =>
    simp only [ConditionNode.subst, DefaultMatcher.eval] at h
    intro field' op' value' hl
    simp only [DefaultMatcher.consulted, List.mem_singleton] at hl
    cases hl
    exact matchSimple_eq_iff.mp h
  | group cs _ => exact ⟨fun hn => by simp [branches] at hn, fun hn => by simp [branches] at hn⟩
  | single c ih =>
    simp only [branches] at hn
    simp only [ConditionNode.subst, ConditionNode.substAll, DefaultMatcher.eval] at h
    simp only [DefaultMatcher.consulted]
    refine ih hn ?_
    generalize m.eval rt ctx (c.subst fill variableMap) = x at h ⊢
    generalize m.eval rt ctx c = y at h ⊢
    rcases x with _ | _ | _ <;> rcases y with _ | _ | _ <;> simp_all [Except.map]
  | other cs hc =>
    rw [DefaultMatcher.consulted_not_other rt m ctx hc]
    exact fun _ _ _ hl => by cases hl
  | function _ _ =>
    simp only [DefaultMatcher.consulted]
    exact fun _ _ _ hl => by cases List.mem_singleton.mp hl
  | unknown _ =>
    simp only [DefaultMatcher.consulted]
    exact fun _ _ _ hl => by cases List.mem_singleton.mp hl

end Conditions

/-! ## Loading -/

section Loading

variable {fill : String → String}

theorem ruleLess_subst (variableMap : List (String × ValueNode)) (r s : Rule) :
    ruleLess (r.subst fill variableMap) (s.subst fill variableMap) = ruleLess r s := by
  have hprio : ∀ r : Rule, getRulePriority (r.subst fill variableMap) = getRulePriority r := by
    intro r
    unfold getRulePriority actionsPriority Rule.subst
    dsimp only
    rw [any_subst_type isBlockingAction, any_subst_type (· == .route)]
  rw [ruleLess, ruleLess, hprio, hprio]
  rfl

theorem normalizeRules_subst (S : SortSlice) {p : Policy} (hn : (p.rules.map (·.name)).Nodup) :
    normalizeRules S (p.subst fill) = (normalizeRules S p).subst fill := by
  -- rules of an accepted policy differ in their names, so that only one order is sorted
  have hsort := S.sort_map ruleLess_order ruleLess_order (Rule.subst fill p.variableMap)
    (ruleLess_subst p.variableMap) fun a ha b hb hab hba =>
      List.inj_on_of_nodup_map hn ha hb (eq_of_not_precedes hab hba).2
  rw [normalizeRules_eq, normalizeRules_eq, Policy.subst, Policy.subst]
  dsimp only
  rw [List.length_map, hsort]
  split <;> rfl

end Loading

namespace InterpreterEngine

def subst (fill : String → String) (e : InterpreterEngine) : InterpreterEngine :=
  { e with policies := e.policies.map (·.subst fill) }

theorem reloadPolicies_subst {S : SortSlice} {fill : String → String} {e₀ e : InterpreterEngine} {p : Policy}
    (hp : Accepted p) (h : e₀.reloadPolicies S (.ok [p]) = .ok e) :
    e₀.reloadPolicies S (.ok [p.subst fill]) = .ok (e.subst fill) := by
  obtain ⟨hlen, hrules, rfl⟩ := reloadPolicies_eq_ok.mp h
  refine reloadPolicies_eq_ok.mpr ⟨hlen, ?_, ?_⟩
  · intro q hq
    obtain rfl := List.mem_singleton.mp hq
    have := hrules p (List.mem_singleton.mpr rfl)
    simpa [Policy.subst] using this
  · have hnorm : normalizeRules S (p.subst fill) = (normalizeRules S p).subst fill :=
      normalizeRules_subst S hp.rule_names
    simp [subst, normalizePolicyPriorities, hnorm]

end InterpreterEngine

/-! ## Runs -/

def substEntry (fill : String → String) (x : Entry) : Entry :=
  (x.1.subst fill, x.2.subst fill x.1.variableMap)

theorem entries_subst (fill : String → String) (policies : List Policy) :
    entries (policies.map (·.subst fill)) = (entries policies).map (substEntry fill) := by
  unfold entries
  rw [List.flatMap_map, List.map_flatMap]
  refine List.flatMap_congr fun p _ => ?_
  rw [Policy.enabledRules_subst, List.map_map, List.map_map]
  rfl

namespace InterpreterEngine

section Runs

variable (rt : Runtime) (fill : String → String) (e : InterpreterEngine) (ctx : EvaluationContext)

/-- With its references replaced, the rule's condition comes out the same and, if it matches, its actions
find the same parameters. -/
structure Agrees (x : Entry) : Prop where
  outcome : e.outcome rt ctx (substEntry fill x) = e.outcome rt ctx x
  parameters : e.matched rt ctx x = true → ∀ a ∈ x.2.actions,
    SameParameters a (a.subst fill x.1.variableMap)

variable {rt fill e ctx}

variable (rt fill e ctx) in
/-- The comparisons that the rule's condition looks at make no difference between a reference and its value and, if the
rule matches, its actions find the same parameters. -/
structure MeansValues (x : Entry) : Prop where
  comparisons : ∀ c, x.2.conditions = some c →
    SameComparisons rt ctx fill x.1.variableMap (e.matcher.consulted rt ctx c)
  parameters : e.matched rt ctx x = true → ∀ a ∈ x.2.actions, SameParameters a (a.subst fill x.1.variableMap)

theorem outcome_substEntry (x : Entry) : e.outcome rt ctx (substEntry fill x) =
    match x.2.conditions with
    | none => .ok true
    | some c => e.matcher.eval rt ctx (c.subst fill x.1.variableMap) := by
  unfold InterpreterEngine.outcome substEntry Rule.subst
  cases x.2.conditions <;> rfl

theorem MeansValues.agrees {x : Entry} (h : e.MeansValues rt fill ctx x) : e.Agrees rt fill ctx x := by
  refine ⟨?_, h.parameters⟩
  rw [outcome_substEntry, InterpreterEngine.outcome]
  cases hc : x.2.conditions with
  | none => rfl
  | some c => exact eval_subst c (h.comparisons c hc)

theorem Agrees.meansValues {x : Entry} (h : e.Agrees rt fill ctx x)
    (hx : ∀ c, x.2.conditions = some c → branches c = false) : e.MeansValues rt fill ctx x := by
  refine ⟨fun c hc => ?_, h.parameters⟩
  have houtcome := h.outcome
  rw [outcome_substEntry, InterpreterEngine.outcome, hc] at houtcome
  exact sameComparisons_of_eval (hx c hc) houtcome

theorem matched_substEntry {x : Entry} (h : e.outcome rt ctx (substEntry fill x) = e.outcome rt ctx x) :
    e.matched rt ctx (substEntry fill x) = e.matched rt ctx x := by
  rw [matched, matched, h]

theorem failure_substEntry {x : Entry} (h : e.outcome rt ctx (substEntry fill x) = e.outcome rt ctx x) :
    e.failure rt ctx (substEntry fill x) = e.failure rt ctx x := by
  rw [failure, failure, h]
  rfl

theorem ends_substEntry {x : Entry} (h : e.outcome rt ctx (substEntry fill x) = e.outcome rt ctx x) :
    e.ends rt ctx (substEntry fill x) = e.ends rt ctx x := by
  have hstops : ((substEntry fill x).2.actions.any fun a => stopsEvaluation a.type) =
      x.2.actions.any fun a => stopsEvaluation a.type := any_subst_type stopsEvaluation x.2.actions
  rw [ends, ends, stops, stops, failure_substEntry h, matched_substEntry h, hstops]

theorem executes_substEntry {x : Entry} (h : e.outcome rt ctx (substEntry fill x) = e.outcome rt ctx x) :
    e.executes rt ctx (substEntry fill x) = (e.executes rt ctx x).map (·.subst fill x.1.variableMap) := by
  rw [executes, executes, matched_substEntry h]
  split <;> rfl

theorem record_substEntry_iff {x : Entry} (hv : ∀ a ∈ x.2.actions, isValidActionType a.type = true) :
    e.record rt ctx x = e.record rt ctx (substEntry fill x) ↔ e.Agrees rt fill ctx x := by
  have hresults (ho : e.outcome rt ctx (substEntry fill x) = e.outcome rt ctx x) :
      (e.record rt ctx x).actionsExecuted = (e.record rt ctx (substEntry fill x)).actionsExecuted ↔
        (e.matched rt ctx x = true → ∀ a ∈ x.2.actions, SameParameters a (a.subst fill x.1.variableMap)) := by
    rw [record_actionsExecuted, record_actionsExecuted, executes_substEntry ho, executes]
    cases e.matched rt ctx x with
    | false => simp
    | true =>
      rw [if_pos rfl, List.map_map, List.map_inj_left]
      simp only [true_imp_iff]
      exact forall₂_congr fun a ha => execute_result_eq_iff rt (Action.subst_type a) (hv a ha) ctx
  constructor
  · -- the record shows the outcome, so that the results can be compared
    intro h
    have ho : e.outcome rt ctx (substEntry fill x) = e.outcome rt ctx x := by
      rw [outcome_eq_of_record, outcome_eq_of_record x, h]
    exact ⟨ho, (hresults ho).mp (by rw [h])⟩
  · intro h
    have hexec := (hresults h.outcome).mpr h.parameters
    have ho := h.outcome
    unfold record at hexec ⊢
    rw [ho] at hexec ⊢
    generalize e.outcome rt ctx x = outcome at hexec ⊢
    rcases outcome with err | _ | _
    · rfl
    · rfl
    · exact congrArg (fun l => { newMatchedRule x.1 x.2 with conditionResult := true, actionsExecuted := l })
        hexec

theorem reached_subst (h : ∀ x ∈ e.reached rt ctx, e.ends rt ctx (substEntry fill x) = e.ends rt ctx x) :
    (e.subst fill).reached rt ctx = (e.reached rt ctx).map (substEntry fill) ∧
      (entries (e.subst fill).policies).find? ((e.subst fill).ends rt ctx) =
        ((entries e.policies).find? (e.ends rt ctx)).map (substEntry fill) := by
  obtain ⟨hup, hfind⟩ := find_congr_of_upTo h
  have hentries : entries (e.subst fill).policies = (entries e.policies).map (substEntry fill) :=
    entries_subst fill e.policies
  constructor
  · rw [reached, hentries, upTo_map]
    exact congrArg (List.map (substEntry fill)) hup
  · rw [hentries, List.find?_map]
    exact congrArg (Option.map (substEntry fill)) hfind

theorem runActions_subst {xs : List Entry} (h : ∀ x ∈ xs, e.Agrees rt fill ctx x) (c : EvaluationContext) :
    runActions rt ((xs.map (substEntry fill)).flatMap (e.executes rt ctx)) c =
      runActions rt (xs.flatMap (e.executes rt ctx)) c := by
  induction xs generalizing c with
  | nil => rfl
  | cons x xs ih =>
    have hx := h x List.mem_cons_self
    have hpar : ∀ a ∈ e.executes rt ctx x, SameParameters a (a.subst fill x.1.variableMap) := by
      intro a ha
      rw [executes] at ha
      split at ha
      · next hm => exact hx.parameters hm a ha
      · cases ha
    rw [List.map_cons, List.flatMap_cons, List.flatMap_cons, runActions_append, runActions_append,
      executes_substEntry hx.outcome, runActions_map rt _ Action.subst_type hpar]
    exact ih (fun y hy => h y (List.mem_cons_of_mem x hy)) _

/-- Without timeouts, an engine and its substitution decide alike exactly when every rule that is reached
agrees with its substitution. -/
theorem evaluate_subst_iff (hst : ctx.stopped = false) (hmr : ctx.matchedRules = [])
    (hv : ∀ x ∈ entries e.policies, ∀ a ∈ x.2.actions, isValidActionType a.type = true) :
    e.evaluate rt .never ctx = (e.subst fill).evaluate rt .never ctx ↔
      ∀ x ∈ e.reached rt ctx, e.Agrees rt fill ctx x := by
  have hvalid : ∀ x ∈ e.reached rt ctx, ∀ a ∈ x.2.actions, isValidActionType a.type = true :=
    fun x hx => hv x (upTo_subset hx)
  constructor
  · -- equal decisions report equal records, and a record shows whether its rule ended the run
    intro h x hx
    obtain ⟨decision, hd⟩ : ∃ decision, e.evaluate rt .never ctx = .ok decision := exists_decision
    have hrec := matchedRules_never hst hmr hd
    rw [matchedRules_never hst hmr (h ▸ hd)] at hrec
    rw [reached, subst, entries_subst, upTo_map, List.map_map] at hrec
    have hends : ∀ y, e.record rt ctx y = e.record rt ctx (substEntry fill y) →
        e.ends rt ctx y = e.ends rt ctx (substEntry fill y) := by
      intro y hy
      refine (ends_substEntry ?_).symm
      rw [outcome_eq_of_record, outcome_eq_of_record y, hy]
    exact (record_substEntry_iff (hvalid x hx)).mp (eq_of_map_upTo_eq hends hrec.symm x hx)
  · -- the runs end at the same rule, with the same records and the same effects
    intro h
    obtain ⟨hreach, hfind⟩ := reached_subst fun x hx => ends_substEntry (h x hx).outcome
    have hfinal : (e.subst fill).finalContext rt ctx = e.finalContext rt ctx := by
      have hrecords : (e.reached rt ctx).map (fun x => e.record rt ctx (substEntry fill x)) =
          (e.reached rt ctx).map (e.record rt ctx) :=
        List.map_congr_left fun x hx => ((record_substEntry_iff (hvalid x hx)).mpr (h x hx)).symm
      unfold finalContext executed
      rw [hreach, List.map_map]
      exact congrArg₂ (fun (c : EvaluationContext) l => { c with matchedRules := l })
        (runActions_subst h ctx) hrecords
    have hfailure : ((entries (e.subst fill).policies).find? ((e.subst fill).ends rt ctx)).bind
        ((e.subst fill).failure rt ctx) =
          ((entries e.policies).find? (e.ends rt ctx)).bind (e.failure rt ctx) := by
      rw [hfind]
      cases hf : (entries e.policies).find? (e.ends rt ctx) with
      | none => rfl
      | some x => exact failure_substEntry (h x (mem_upTo_of_find hf)).outcome
    rw [evaluate_eq, evaluate_eq, evaluateLoaded_final rt e ctx hst hmr,
      evaluateLoaded_final rt (e.subst fill) ctx hst hmr, hfinal, hfailure]
    rfl

end Runs

/-- Without timeouts the engine decides on an accepted policy as on the one with every reference replaced by its value,
if in every rule reached the comparisons looked at and, when it matches, the parameters read make no difference between
the two; and only if, where no rule reached has a condition with branches. -/
theorem subst_decision (rt : Runtime) (fill : String → String) (S : SortSlice)
    {e₀ e e' : InterpreterEngine} {p : Policy} (hp : Accepted p)
    (hload : e₀.reloadPolicies S (.ok [p]) = .ok e)
    (hload' : e₀.reloadPolicies S (.ok [p.subst fill]) = .ok e') (now : Time) (r : EnrichedRequest) :
    ((∀ x ∈ e.reached rt (requestContext now r), e.MeansValues rt fill (requestContext now r) x) →
        e.evaluateRequest rt .never now (some r) = e'.evaluateRequest rt .never now (some r)) ∧
      ((∀ x ∈ e.reached rt (requestContext now r), ∀ c, x.2.conditions = some c → branches c = false) →
        e.evaluateRequest rt .never now (some r) = e'.evaluateRequest rt .never now (some r) →
        ∀ x ∈ e.reached rt (requestContext now r), e.MeansValues rt fill (requestContext now r) x) := by
  obtain rfl : e.subst fill = e' := by
    have := (reloadPolicies_subst hp hload).symm.trans hload'
    exact Except.ok.inj this
  have hiff : e.evaluateRequest rt .never now (some r) = (e.subst fill).evaluateRequest rt .never now (some r) ↔ _ :=
    evaluate_subst_iff rfl rfl fun x hx a ha => hp.action_type (mem_rules_of_load hload hx) ha
  exact ⟨fun h => hiff.mpr fun x hx => (h x hx).agrees, fun hx h x hmem => (hiff.mp h x hmem).meansValues (hx x hmem)⟩

end InterpreterEngine

/-! ## A limit in a variable -/

/-- The example of SPECIFICATION 10.2, on a field that the engine has. -/
def limitPolicy : Policy :=
  { name := "limits"
    variableMap := [("max_tokens", .number 4000)]
    rules :=
      [{ name := "enforce-token-limit"
         conditions := some
          (.simple "request.max_tokens" .greaterThan (.variable "\x7b\x7b variables.max_tokens \x7d\x7d"))
         actions :=
          [{ type := .deny, parameters := [("message", .string "Request exceeds token limit")] }] }] }

/-- A request within the limit is blocked, as a number cannot be compared with the text of a reference;
with the limit in place of the reference it is allowed. -/
theorem variable_limit_blocks :
    Accepted limitPolicy ∧
    ∃ e e' decision decision', (defaultEngine []).reloadPolicies insertionSlice (.ok [limitPolicy]) = .ok e ∧
      (defaultEngine []).reloadPolicies insertionSlice (.ok [limitPolicy.subst id]) = .ok e' ∧
      e.evaluateRequest noRuntime .never 1 (some { originalRequest := some { maxTokens := some 100 } }) =
        .ok decision ∧
      e'.evaluateRequest noRuntime .never 1 (some { originalRequest := some { maxTokens := some 100 } }) =
        .ok decision' ∧
      decision.action = .block ∧ decision.blockReason = "Policy evaluation error" ∧
      decision'.action = .allow :=
  ⟨by decide, _, _, _, _, rfl, rfl, rfl, rfl, rfl, rfl, rfl⟩

/-- A reference that is not read, and one whose value the model does not have. -/
def kindPolicy : Policy :=
  { name := "kinds"
    variableMap := [("kind", .string "email"), ("trusted", .string "gpt-4")]
    rules :=
      [{ name := "no-pii"
         conditions := some (.all [.function "has_pii" [.variable "\x7b\x7b variables.kind \x7d\x7d"],
          .simple "request.model" .notEqual (.variable "\x7b\x7b variables.trusted \x7d\x7d")])
         actions := [{ type := .deny, parameters := [("message", .string "no personal data")] }] }] }

def piiRequest : EnrichedRequest :=
  { originalRequest := some { model := "gpt-3.5" }
    contentAnalysis := some { piiDetection := some { hasPII := true } } }

theorem subst_decision_untrusted :
    (defaultEngine [kindPolicy]).evaluateRequest noRuntime .never 1 (some piiRequest) =
      (defaultEngine [kindPolicy.subst id]).evaluateRequest noRuntime .never 1 (some piiRequest) := by
  have hp : Accepted kindPolicy := by decide
  have hload : (defaultEngine []).reloadPolicies insertionSlice (.ok [kindPolicy]) =
      .ok (defaultEngine [kindPolicy]) := rfl
  have hload' : (defaultEngine []).reloadPolicies insertionSlice (.ok [kindPolicy.subst id]) =
      .ok (defaultEngine [kindPolicy.subst id]) := rfl
  refine (InterpreterEngine.subst_decision noRuntime id insertionSlice hp hload hload' 1 piiRequest).1 ?_
  intro x hx
  obtain rfl := List.mem_singleton.mp hx
  refine ⟨?_, fun _ a ha => ?_⟩
  · rintro c hc field op value hl actual hactual
    cases hc
    have hleaf : ConditionNode.simple field op value =
        .simple "request.model" .notEqual (.variable "\x7b\x7b variables.trusted \x7d\x7d") :=
      (List.mem_cons.mp hl).elim nofun List.mem_singleton.mp
    cases hleaf
    cases hactual
    -- the model differs from both texts, and neither is a number
    exact evaluateEqual_eq_iff.mp rfl
  · obtain rfl := List.mem_singleton.mp ha
    exact ⟨rfl, rfl⟩

end Jupiter.Engine
