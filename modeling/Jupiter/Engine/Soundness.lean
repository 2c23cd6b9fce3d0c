/-
What acceptance by the validator promises about evaluation.

The validator and the engine keep separate tables. Of the fields in the validator's data model, the engine finds four on
a request (two of them only when they are set) and one on a response; of the functions the validator knows, it has two;
and three kinds of actions need a literal string where the validator asks for any value or for none.
-/
import Jupiter.Engine.Decision
import Jupiter.Mpl.Validator

namespace Jupiter.Engine

open Jupiter.Go Jupiter.Mpl Jupiter.Processing Jupiter.Lib

/-! ## Fields -/

/-- The paths of the data model that are found on a request. -/
def requestSupports (r : EnrichedRequest) : List String → Bool
  | ["request", "model"] => true
  | ["request", "stream"] => true
  | ["request", "temperature"] => (r.originalRequest.bind (·.temperature)).isSome
  | ["request", "max_tokens"] => (r.originalRequest.bind (·.maxTokens)).isSome
  | _ => false

def responseSupports : List String → Bool
  | ["response", "finish_reason"] => true
  | _ => false

theorem fieldPath_eq_none {type name : String} {fields : List (String × Value)} {rest : List String}
    (h : (fields.map Prod.fst).all (fun n => !Strings.equalFold n name) = true) :
    fieldPath (.struct type fields) (name :: rest) = none := by
  have hnil : fields.filter (fun f => Strings.equalFold f.1 name) = [] := by
    rw [List.filter_eq_nil_iff]
    intro f hf
    have := List.all_eq_true.mp h f.1 (List.mem_map_of_mem hf)
    simpa using this
  rw [fieldPath, hnil]

theorem requestView_none {name : String} {rest : List String} (r : EnrichedRequest)
    (h : ["RequestID", "OriginalRequest", "TokenEstimate", "CostEstimate", "ContentAnalysis",
      "ConversationContext", "ModelFamily", "PricingTier", "EstimatedLatency", "ComplexityScore",
      "RiskScore", "ProcessingDuration"].all (fun n => !Strings.equalFold n name) = true) :
    extractFieldReflection r.view (name :: rest) = none :=
  fieldPath_eq_none h

theorem responseView_none {name : String} {rest : List String} (r : EnrichedResponse)
    (h : ["RequestID", "OriginalResponse", "TokenUsage", "CostEstimate", "ContentAnalysis",
      "FinishReasonAnalysis", "TokenEfficiency", "LatencyBreakdown", "QualityMetrics",
      "ProcessingDuration"].all (fun n => !Strings.equalFold n name) = true) :
    extractFieldReflection r.view (name :: rest) = none :=
  fieldPath_eq_none h

theorem dataModel_paths {parts : List String} (h : parts ∈ dataModel.paths) :
    parts = [] ∨ (∃ rest ∈ requestFields.paths, parts = "request" :: rest) ∨
      (∃ rest ∈ responseFields.paths, parts = "response" :: rest) ∨
      (∃ rest, parts = "processing" :: rest) ∨ ∃ rest, parts = "context" :: rest := by
  simp only [dataModel, FieldInfo.obj, FieldInfo.paths, FieldInfo.pathsBelow, List.mem_cons,
    List.mem_append, List.mem_map, List.append_nil] at h
  rcases h with h | ⟨rest, hr, rfl⟩ | ⟨rest, hr, rfl⟩ | ⟨rest, -, rfl⟩ | ⟨rest, -, rfl⟩
  · exact .inl h
  · exact .inr (.inl ⟨rest, hr, rfl⟩)
  · exact .inr (.inr (.inl ⟨rest, hr, rfl⟩))
  · exact .inr (.inr (.inr (.inl ⟨rest, rfl⟩)))
  · exact .inr (.inr (.inr (.inr ⟨rest, rfl⟩)))

theorem extractParts_unknown_source {source : String} (h : source ≠ "request" ∧ source ≠ "response" ∧
    source ≠ "metadata") (rest : List String) (ctx : EvaluationContext) :
    extractParts (source :: rest) ctx = none := by
  cases rest with
  | nil => rfl
  | cons name rest => simp [extractParts, h.1, h.2.1, h.2.2]

theorem requestSupports_of_ne {source : String} (h : source ≠ "request") (r : EnrichedRequest)
    (rest : List String) : requestSupports r (source :: rest) = false := by
  unfold requestSupports
  split
  all_goals simp_all

theorem responseSupports_of_ne {source : String} (h : source ≠ "response") (rest : List String) :
    responseSupports (source :: rest) = false := by
  unfold responseSupports
  split
  all_goals simp_all

theorem extractParts_request {parts : List String} (h : parts ∈ dataModel.paths) (now : Time)
    {r : EnrichedRequest} (hr : r.originalRequest.isSome) :
    (extractParts parts (InterpreterEngine.requestContext now r)).isSome = requestSupports r parts := by
  rcases dataModel_paths h with rfl | ⟨rest, hrest, rfl⟩ | ⟨rest, -, rfl⟩ | ⟨rest, rfl⟩ | ⟨rest, rfl⟩
  · rfl
  · simp only [requestFields, FieldInfo.obj, FieldInfo.str, FieldInfo.num, FieldInfo.bool, FieldInfo.arr,
      FieldInfo.paths, FieldInfo.pathsBelow, List.map_cons, List.map_nil, List.cons_append,
      List.nil_append, List.mem_cons, List.not_mem_nil, or_false] at hrest
    rcases hrest with rfl | rfl | rfl | rfl | rfl | rfl | rfl | rfl | rfl | rfl
    · rfl
    · show (r.originalRequest.map _).isSome = true
      rwa [Option.isSome_map]
    · show ((r.originalRequest.bind _).map _).isSome = _
      rw [Option.isSome_map]
      rfl
    · show ((r.originalRequest.bind _).map _).isSome = _
      rw [Option.isSome_map]
      rfl
    · rfl
    -- the rest falls back to reflection on the enriched request, which has no such fields
    all_goals exact congrArg Option.isSome (requestView_none r (by decide))
  · rw [requestSupports_of_ne (by decide)]
    cases rest <;> rfl
  all_goals
    rw [requestSupports_of_ne (by decide), extractParts_unknown_source (by decide)]
    rfl

theorem extractParts_response {parts : List String} (h : parts ∈ dataModel.paths) (now : Time)
    (r : EnrichedResponse) :
    (extractParts parts (InterpreterEngine.responseContext now r)).isSome = responseSupports parts := by
  rcases dataModel_paths h with rfl | ⟨rest, -, rfl⟩ | ⟨rest, hrest, rfl⟩ | ⟨rest, rfl⟩ | ⟨rest, rfl⟩
  · rfl
  · rw [responseSupports_of_ne (by decide)]
    cases rest <;> rfl
  · simp only [responseFields, FieldInfo.obj, FieldInfo.str, FieldInfo.num, FieldInfo.paths,
      FieldInfo.pathsBelow, List.map_cons, List.map_nil, List.cons_append,
      List.nil_append, List.mem_cons, List.not_mem_nil, or_false] at hrest
    rcases hrest with rfl | rfl | rfl | rfl | rfl | rfl | rfl
    · rfl
    · exact congrArg Option.isSome (responseView_none r (by decide))
    · rfl
    all_goals exact congrArg Option.isSome (responseView_none r (by decide))
  all_goals
    rw [responseSupports_of_ne (by decide), extractParts_unknown_source (by decide)]
    rfl

/-! ## Conditions -/

/-- A leaf the validator knows: a field of the data model or a function of its table. -/
def KnownLeaf : ConditionNode → Prop
  | .simple field _ _ => (lookupField field).isSome
  | .function name _ => (supportedFunctions.lookup name).isSome
  | .unknown _ => True
  | _ => False

theorem knownLeaf_simple {p : Policy} {rule field : String} {op : Operator} {value : ValueNode}
    (h : validateSimpleCondition p rule field op value = []) : KnownLeaf (.simple field op value) := by
  unfold validateSimpleCondition at h
  cases hf : lookupField field with
  | none => rw [hf] at h; cases h
  | some info => simp [KnownLeaf, hf]

theorem knownLeaf_function {p : Policy} {rule name : String} {args : List ValueNode}
    (h : validateFunctionCondition p rule name args = []) : KnownLeaf (.function name args) := by
  unfold validateFunctionCondition at h
  cases hf : supportedFunctions.lookup name with
  | none => rw [hf] at h; cases h
  | some sig => simp [KnownLeaf, hf]

section Leaves

variable {rt : Runtime} {m : DefaultMatcher} {ctx : EvaluationContext} {p : Policy} {rule : String}

theorem validateConditions_eq_nil {cs : List ConditionNode} (h : validateConditions p rule cs = [])
    {c : ConditionNode} (hc : c ∈ cs) : validateCondition p rule c = [] := by
  induction cs with
  | nil => cases hc
  | cons c' cs ih =>
    rw [validateConditions, List.append_eq_nil_iff] at h
    rcases List.mem_cons.1 hc with rfl | hc
    · exact h.1
    · exact ih h.2 hc

/-- Every leaf that the evaluation of an accepted condition looks at is known. -/
theorem knownLeaf_of_consulted {leaf : ConditionNode} (n : ConditionNode)
    (hv : validateCondition p rule n = []) (h : leaf ∈ m.consulted rt ctx n) : KnownLeaf leaf := by
  induction n using DefaultMatcher.condition_induction with
  | simple field op value =>
    simp only [DefaultMatcher.consulted, List.mem_singleton] at h
    simp only [validateCondition] at hv
    exact h ▸ knownLeaf_simple hv
  | group cs ih =>
    simp only [validateCondition, DefaultMatcher.consulted_all, DefaultMatcher.consulted_any, List.mem_flatMap]
    have hchild (go : Bool) (hv : validateConditions p rule cs = [])
        (h : ∃ c ∈ m.reached rt ctx go cs, leaf ∈ m.consulted rt ctx c) : KnownLeaf leaf := by
      obtain ⟨c, hc, hl⟩ := h
      have hc := DefaultMatcher.mem_of_reached hc
      exact ih c hc (validateConditions_eq_nil hv hc) hl
    exact ⟨hchild true, hchild false⟩
  | single c ih =>
    simp only [DefaultMatcher.consulted] at h
    simp only [validateCondition, validateConditions, List.append_nil] at hv
    exact ih hv h
  | other cs hc => rw [m.consulted_not_other rt ctx hc] at h; cases h
  | function name args =>
    simp only [DefaultMatcher.consulted, List.mem_singleton] at h
    simp only [validateCondition] at hv
    exact h ▸ knownLeaf_function hv
  | unknown _ =>
    simp only [DefaultMatcher.consulted, List.mem_singleton] at h
    exact h ▸ trivial

end Leaves

/-- The errors acceptance should rule out. -/
def MatchError.IsUnknown : MatchError → Prop
  | .fieldNotFound _ | .unknownFunction _ => True
  | _ => False

/-- A leaf that both sides know, `fields` being the paths the engine finds: a missing field is an error
under fail-closed only. -/
def leafSupported (mode : FailSafeMode) (fields : List String → Bool) : ConditionNode → Bool
  | .simple field _ _ => mode != .failClosed || fields (Strings.splitDot field)
  | .function name _ => name == "has_pii" || name == "has_injection"
  | _ => true

def FindsFields (ctx : EvaluationContext) (fields : List String → Bool) : Prop :=
  ∀ parts ∈ dataModel.paths, (extractParts parts ctx).isSome = fields parts

section Conditions

variable {rt : Runtime} {m : DefaultMatcher} {ctx : EvaluationContext} {fields : List String → Bool}

theorem simple_isUnknown_iff (hf : FindsFields ctx fields) {field : String} {op : Operator}
    {value : ValueNode} (hk : KnownLeaf (.simple field op value)) :
    (∃ err, m.matchSimple rt field op value ctx = .error err ∧ err.IsUnknown) ↔
      (m.failSafeMode != .failClosed || fields (Strings.splitDot field)) = false := by
  obtain ⟨info, hi⟩ := Option.isSome_iff_exists.mp hk
  have hfound := hf _ (FieldInfo.mem_paths_of_lookup hi)
  rw [← hfound]
  unfold DefaultMatcher.matchSimple extractField
  cases extractParts (Strings.splitDot field) ctx with
  -- a missing field is an error in one mode only, and an operator's error is of another kind
  | none => cases hm : m.failSafeMode <;> simp [MatchError.IsUnknown]
  | some actual =>
    cases hv : evaluateOperator rt op actual value.value with
    | ok b => simp [Except.mapError, hv]
    | error cause => simp [Except.mapError, hv, MatchError.IsUnknown]

theorem function_isUnknown_iff {name : String} {args : List ValueNode}
    (hk : KnownLeaf (.function name args)) :
    (∃ err, m.matchFunction rt name ctx = .error err ∧ err.IsUnknown) ↔
      (name == "has_pii" || name == "has_injection") = false := by
  -- the validator does not know the third function of the engine
  have hne : name ≠ "in_business_hours" := by
    rintro rfl
    have hl : (supportedFunctions.lookup "in_business_hours").isSome = true := hk
    exact absurd hl (by decide)
  unfold DefaultMatcher.matchFunction
  split
  · simp
  · simp
  · exact absurd rfl hne
  · next h1 h2 _ => simpa [MatchError.IsUnknown] using ⟨h1, h2⟩

theorem leaf_isUnknown_iff (hf : FindsFields ctx fields) {leaf : ConditionNode} (hk : KnownLeaf leaf) :
    (∃ err, m.eval rt ctx leaf = .error err ∧ err.IsUnknown) ↔
      leafSupported m.failSafeMode fields leaf = false := by
  cases leaf with
  | simple field op value =>
    simp only [DefaultMatcher.eval, leafSupported]
    exact simple_isUnknown_iff hf hk
  | function name args =>
    simp only [DefaultMatcher.eval, leafSupported]
    exact function_isUnknown_iff hk
  | unknown type => simp [DefaultMatcher.eval, leafSupported, MatchError.IsUnknown]
  | all children => exact hk.elim
  | any children => exact hk.elim
  | not children => exact hk.elim

theorem MatchError.IsUnknown.ne_notChildren {err : MatchError} (h : err.IsUnknown) (k : Nat) :
    err ≠ .notChildren k := by
  rintro rfl
  exact h

/-- An accepted condition runs into an unknown field or function exactly when its evaluation looks at a
leaf that is not supported. -/
theorem condition_isUnknown_iff (hf : FindsFields ctx fields) {p : Policy} {rule : String}
    {c : ConditionNode} (hv : validateCondition p rule c = []) :
    (∃ err, m.eval rt ctx c = .error err ∧ err.IsUnknown) ↔
      ∃ leaf ∈ m.consulted rt ctx c, leafSupported m.failSafeMode fields leaf = false := by
  constructor
  · rintro ⟨err, he, hu⟩
    obtain ⟨leaf, hl, hle⟩ := DefaultMatcher.consulted_of_eval_error hu.ne_notChildren c he
    exact ⟨leaf, hl, (leaf_isUnknown_iff hf (knownLeaf_of_consulted c hv hl)).mp ⟨err, hle, hu⟩⟩
  · rintro ⟨leaf, hl, hs⟩
    obtain ⟨err, hle, hu⟩ := (leaf_isUnknown_iff hf (knownLeaf_of_consulted c hv hl)).mpr hs
    exact ⟨err, DefaultMatcher.eval_error_of_consulted hle c hl, hu⟩

end Conditions

/-! ## Actions -/

/-- The parameter the engine needs for an action is a string that is not empty. -/
def actionSupported (a : Action) : Bool :=
  match a.type with
  | .modify => a.getStringParameter "field" != ""
  | .route => a.getStringParameter "provider" != ""
  | .alert => a.getStringParameter "destination" != ""
  | _ => true

theorem execute_success (rt : Runtime) {a : Action} (h : isValidActionType a.type = true)
    (ctx : EvaluationContext) : (execute rt a ctx).1.success = actionSupported a := by
  unfold execute actionSupported
  cases ht : a.type with
  | tag => rw [ht] at h; cases h
  | unknown s => rw [ht] at h; cases h
  -- the three kinds that report a missing parameter
  | modify => by_cases hf : a.getStringParameter "field" = "" <;>
    simp [executeModify, ActionResult.missing, ActionResult.succeed, hf]
  | route => by_cases hf : a.getStringParameter "provider" = "" <;>
    simp [executeRoute, routeTarget, ActionResult.missing, ActionResult.succeed, hf]
  | alert => by_cases hf : a.getStringParameter "destination" = "" <;>
    simp [executeAlert, ActionResult.missing, ActionResult.succeed, hf]
  | _ => rfl

/-! ## Rules and decisions -/

/-- No unknown field or function, and no failed action. -/
def MatchedRule.Sound (m : MatchedRule) : Prop :=
  (∀ err, m.error = some err → ¬err.IsUnknown) ∧ ∀ result ∈ m.actionsExecuted, result.success = true

def PolicyDecision.Sound (decision : PolicyDecision) : Prop := ∀ m ∈ decision.matchedRules, m.Sound

namespace InterpreterEngine

variable (rt : Runtime) (e : InterpreterEngine) (ctx : EvaluationContext) (fields : List String → Bool)

/-- Evaluating the rule keeps to the fields, functions and parameters both sides know. -/
structure RuleSupported (x : Entry) : Prop where
  leaves : ∀ c, x.2.conditions = some c → ∀ leaf ∈ e.matcher.consulted rt ctx c,
    leafSupported e.config.failSafeMode fields leaf = true
  actions : e.matched rt ctx x = true → ∀ a ∈ x.2.actions, actionSupported a = true

variable {rt e ctx fields}

theorem record_sound_iff (hf : FindsFields ctx fields) {p : Policy} (hp : Accepted p) {x : Entry}
    (hx : x.2 ∈ p.rules) : (e.record rt ctx x).Sound ↔ e.RuleSupported rt ctx fields x := by
  have hcond : (∀ err, e.outcome rt ctx x = .error err → ¬err.IsUnknown) ↔
      ∀ c, x.2.conditions = some c → ∀ leaf ∈ e.matcher.consulted rt ctx c,
        leafSupported e.config.failSafeMode fields leaf = true := by
    unfold outcome
    cases hc : x.2.conditions with
    | none => simp
    | some c =>
      have hiff : (∃ err, e.matcher.eval rt ctx c = .error err ∧ err.IsUnknown) ↔
          ∃ leaf ∈ e.matcher.consulted rt ctx c, leafSupported e.config.failSafeMode fields leaf = false :=
        condition_isUnknown_iff hf (hp.condition hx hc)
      rw [← not_iff_not]
      simpa using hiff
  have hact : (∀ result ∈ (e.record rt ctx x).actionsExecuted, result.success = true) ↔
      (e.matched rt ctx x = true → ∀ a ∈ x.2.actions, actionSupported a = true) := by
    rw [record_actionsExecuted, executes]
    cases e.matched rt ctx x with
    | false => simp
    | true =>
      simp only [if_true, List.mem_map, forall_exists_index, and_imp, forall_apply_eq_imp_iff₂, true_imp_iff]
      exact forall₂_congr fun a ha => by rw [execute_success rt (hp.action_type hx ha) ctx]
  unfold MatchedRule.Sound
  simp only [record_error]
  rw [hcond, hact]
  exact ⟨fun h => ⟨h.1, h.2⟩, fun h => ⟨h.leaves, h.actions⟩⟩

/-- Whatever the timing, an accepted policy is evaluated soundly exactly when the rules reached are
supported. -/
theorem evaluate_sound_iff (hf : FindsFields ctx fields) {S : SortSlice} {e₀ : InterpreterEngine}
    {p : Policy} (hp : Accepted p) (hload : e₀.reloadPolicies S (.ok [p]) = .ok e)
    (hst : ctx.stopped = false) (hmr : ctx.matchedRules = []) :
    (∀ d decision, e.evaluate rt d ctx = .ok decision → decision.Sound) ↔
      ∀ x ∈ e.reached rt ctx, e.RuleSupported rt ctx fields x := by
  constructor
  · -- the run without timeouts reports every rule it reaches
    intro h x hx
    obtain ⟨decision, hd⟩ : ∃ decision, e.evaluate rt .never ctx = .ok decision := exists_decision
    refine (record_sound_iff hf hp (mem_rules_of_load hload (upTo_subset hx))).mp (h .never decision hd _ ?_)
    rw [matchedRules_never hst hmr hd]
    exact List.mem_map_of_mem hx
  · -- and no run reports any other
    intro h d decision hd m hm
    obtain ⟨x, hx, rfl⟩ := mem_matchedRules hst hmr hd hm
    exact (record_sound_iff hf hp (mem_rules_of_load hload (upTo_subset hx))).mpr (h x hx)

variable (rt)

/-- An accepted policy, evaluated under any timing on a request with all analysis results and on any response, never runs
into an unknown field or function or a failed action, if and only if every rule that the evaluation reaches keeps to the
fields, functions and parameters that the engine has. -/
theorem accepted_sound_iff (S : SortSlice) {e₀ e : InterpreterEngine} {p : Policy} (hp : Accepted p)
    (hload : e₀.reloadPolicies S (.ok [p]) = .ok e) (now : Time) (r : EnrichedRequest) (hr : r.Populated)
    (s : EnrichedResponse) :
    ((∀ d decision, e.evaluateRequest rt d now (some r) = .ok decision → decision.Sound) ∧
      ∀ d decision, e.evaluateResponse rt d now (some s) = .ok decision → decision.Sound) ↔
    (∀ x ∈ e.reached rt (requestContext now r),
      e.RuleSupported rt (requestContext now r) (requestSupports r) x) ∧
    ∀ x ∈ e.reached rt (responseContext now s),
      e.RuleSupported rt (responseContext now s) responseSupports x := by
  have hreq : FindsFields (requestContext now r) (requestSupports r) :=
    fun parts h => extractParts_request h now hr.originalRequest
  have hresp : FindsFields (responseContext now s) responseSupports :=
    fun parts h => extractParts_response h now s
  exact and_congr (evaluate_sound_iff hreq hp hload rfl rfl) (evaluate_sound_iff hresp hp hload rfl rfl)

end InterpreterEngine

/-! ## A function only the validator has -/

def analysedRequest : EnrichedRequest :=
  { originalRequest := some { model := "gpt-4" }, tokenEstimate := some {}, costEstimate := some {}
    contentAnalysis := some
      { piiDetection := some {}, sensitiveContent := some {}, promptInjection := some {},
        sentiment := some {} }
    conversationContext := some {} }

theorem analysedRequest_populated : analysedRequest.Populated :=
  ⟨rfl, rfl, rfl, ⟨_, rfl, rfl, rfl, rfl, rfl⟩, rfl⟩

def analysedResponse : EnrichedResponse :=
  { originalResponse := some {}, tokenUsage := some {}, costEstimate := some {}
    contentAnalysis := some
      { piiDetection := some {}, sensitiveContent := some {}, promptInjection := some {},
        sentiment := some {} }
    finishReasonAnalysis := some {}, latencyBreakdown := some {}, qualityMetrics := some {} }

def screenPolicy (function : String) : Policy :=
  { name := "screen"
    rules :=
      [{ name := "screen-prompt"
         conditions := some (.function function [])
         actions := [{ type := .deny, parameters := [("message", .string "not allowed")] }] }] }

/-- The validator accepts `has_sensitive`, which the engine does not know. -/
theorem accepted_function_unknown :
    Accepted (screenPolicy "has_sensitive") ∧ analysedRequest.Populated ∧
    ∃ e decision m, (defaultEngine []).reloadPolicies insertionSlice
        (.ok [screenPolicy "has_sensitive"]) = .ok e ∧
      e.evaluateRequest noRuntime .never 1 (some analysedRequest) = .ok decision ∧
      m ∈ decision.matchedRules ∧ m.error = some (.unknownFunction "has_sensitive") :=
  ⟨by decide, analysedRequest_populated, _, _, _, rfl, rfl, List.mem_singleton.mpr rfl, rfl⟩

theorem screenPolicy_supported {rt : Runtime} {e : InterpreterEngine} {ctx : EvaluationContext}
    {fields : List String → Bool} {x : Entry} (hx : x.2 ∈ (screenPolicy "has_pii").rules) :
    e.RuleSupported rt ctx fields x := by
  have hr := List.mem_singleton.mp hx
  constructor
  · intro c hc leaf hl
    rw [hr] at hc
    cases hc
    simp only [DefaultMatcher.consulted, List.mem_singleton] at hl
    rw [hl]
    rfl
  · intro _ a ha
    rw [hr] at ha
    rw [List.mem_singleton.mp ha]
    rfl

theorem accepted_sound_iff_has_pii :
    (∀ d decision, (defaultEngine [screenPolicy "has_pii"]).evaluateRequest noRuntime d 1
      (some analysedRequest) = .ok decision → decision.Sound) ∧
    ∀ d decision, (defaultEngine [screenPolicy "has_pii"]).evaluateResponse noRuntime d 1
      (some analysedResponse) = .ok decision → decision.Sound := by
  have hload : (defaultEngine []).reloadPolicies insertionSlice (.ok [screenPolicy "has_pii"]) =
      .ok (defaultEngine [screenPolicy "has_pii"]) := rfl
  refine (InterpreterEngine.accepted_sound_iff noRuntime insertionSlice (by decide) hload 1 analysedRequest
    analysedRequest_populated analysedResponse).mpr ⟨?_, ?_⟩
  · exact fun x hx => screenPolicy_supported (InterpreterEngine.mem_rules_of_load hload (upTo_subset hx))
  · exact fun x hx => screenPolicy_supported (InterpreterEngine.mem_rules_of_load hload (upTo_subset hx))

end Jupiter.Engine
