/-
`engine.go`: `InterpreterEngine`.

An engine can only be built with a configuration that passes `Validate`. The loops over policies and rules return on an
error and break once the context is stopped, which is `Lib.scan`. Whether a deadline has passed where the code looks is
an oracle (`Deadlines`): before a policy, at the positions of `Match`, and after a condition error (position `[]`).
-/
import Jupiter.Engine.Executor
import Jupiter.Engine.Matcher
import Jupiter.Engine.Priority
import Jupiter.Lib.Scan

namespace Jupiter.Engine

open Jupiter.Go Jupiter.Mpl Jupiter.Processing Jupiter.Lib

/-- Where a deadline has passed: at the check before the `i`-th policy, and at a position of the `n`-th
rule evaluated. -/
structure Deadlines where
  policy : Nat → Bool
  rule : Nat → List Nat → Bool

def Deadlines.never : Deadlines := { policy := fun _ => false, rule := fun _ _ => false }

structure InterpreterEngine where
  config : EngineConfig
  valid : config.validate = none
  policies : List Policy := []

/-! ## Loading -/

inductive LoadError where
  | source (message : String)
  | tooManyPolicies (count max : Int)
  | tooManyRules (policyID : String) (count max : Int)
  deriving DecidableEq, Repr

/-- `ReloadPolicies` on what the source loads. The engine is left as it was when this fails. -/
def InterpreterEngine.reloadPolicies (S : SortSlice) (e : InterpreterEngine)
    (loaded : Except String (List Policy)) : Except LoadError InterpreterEngine :=
  match loaded with
  | .error message => .error (.source message)
  | .ok policies =>
    if (policies.length : Int) > e.config.maxPolicies then
      .error (.tooManyPolicies policies.length e.config.maxPolicies)
    else match policies.find? fun p => (p.rules.length : Int) > e.config.maxRulesPerPolicy with
      | some p => .error (.tooManyRules p.name p.rules.length e.config.maxRulesPerPolicy)
      | none => .ok { e with policies := normalizePolicyPriorities S policies }

theorem reloadPolicies_eq_ok {S : SortSlice} {e e' : InterpreterEngine} {ps : List Policy} :
    e.reloadPolicies S (.ok ps) = .ok e' ↔
      (ps.length : Int) ≤ e.config.maxPolicies ∧
      (∀ p ∈ ps, (p.rules.length : Int) ≤ e.config.maxRulesPerPolicy) ∧
      e' = { e with policies := normalizePolicyPriorities S ps } := by
  unfold InterpreterEngine.reloadPolicies
  dsimp only
  by_cases hlen : (ps.length : Int) > e.config.maxPolicies
  · rw [if_pos hlen]
    simp only [reduceCtorEq, false_iff, not_and]
    omega
  · rw [if_neg hlen]
    cases hf : ps.find? fun p => decide ((p.rules.length : Int) > e.config.maxRulesPerPolicy) with
    | some p =>
      have hp := List.find?_some hf
      rw [decide_eq_true_eq] at hp
      simp only [reduceCtorEq, false_iff, not_and]
      intro _ hall
      have := hall p (List.mem_of_find?_eq_some hf)
      omega
    | none =>
      have hall := List.find?_eq_none.mp hf
      simp only [Except.ok.injEq]
      constructor
      · rintro rfl
        exact ⟨by omega, fun p hp => by simpa using hall p hp, rfl⟩
      · rintro ⟨-, -, rfl⟩
        rfl

/-! ## Rules -/

def newMatchedRule (p : Policy) (r : Rule) : MatchedRule :=
  { policyID := p.name, policyName := p.name, ruleID := r.name, ruleName := r.name }

/-- The loop over a rule's actions, with the results so far. A failed blocking action ends it. -/
def executeActions (rt : Runtime) (p : Policy) (r : Rule) (m : MatchedRule) :
    List Action → EvaluationContext → EvaluationContext × Option EvaluationError
  | [], ctx => (ctx.addMatched m, none)
  | a :: rest, ctx =>
    let (result, ctx) := execute rt a ctx
    let m := { m with actionsExecuted := m.actionsExecuted ++ [result] }
    if !result.success && isBlockingAction a.type then
      (ctx.addMatched m, some (.action p.name r.name a.type))
    else executeActions rt p r m rest ctx

namespace InterpreterEngine

variable (rt : Runtime) (e : InterpreterEngine) (d : Deadlines)

def matcher : DefaultMatcher := newDefaultMatcher e.config

def evaluateRule (p : Policy) (ctx : EvaluationContext) (r : Rule) :
    EvaluationContext × Option EvaluationError :=
  let done := d.rule ctx.matchedRules.length
  let matched := newMatchedRule p r
  match r.conditions with
  | some c =>
    match e.matcher.matchCondition rt done ctx (some c) with
    | .error err =>
      if err = .cancelled ∨ done [] then (ctx, some (.timeout p.name r.name))
      else (ctx.addMatched { matched with error := some err }, some (.condition p.name r.name err))
    | .ok false => (ctx.addMatched matched, none)
    | .ok true => executeActions rt p r { matched with conditionResult := true } r.actions ctx
  | none => executeActions rt p r { matched with conditionResult := true } r.actions ctx

def evaluatePolicy (ctx : EvaluationContext) (ip : Policy × Nat) :
    EvaluationContext × Option EvaluationError :=
  if d.policy ip.2 then (ctx, some (.timeout ip.1.name ""))
  else scan (e.evaluateRule rt d ip.1) (·.stopped) ctx ip.1.enabledRules

/-- The loops of `evaluatePolicies`. -/
def evaluateLoaded (ctx : EvaluationContext) : EvaluationContext × Option EvaluationError :=
  scan (e.evaluatePolicy rt d) (·.stopped) ctx e.policies.zipIdx

end InterpreterEngine

/-! ## Decisions -/

def buildDecision (ctx : EvaluationContext) : PolicyDecision :=
  let decision : PolicyDecision :=
    { matchedRules := ctx.matchedRules, tags := ctx.tags, transformations := ctx.transformations,
      redactions := ctx.redactions, notifications := ctx.notifications }
  if ctx.blockReason ≠ "" then
    { decision with
      action := .block
      blockReason := ctx.blockReason
      blockStatusCode := if ctx.blockStatusCode = 0 then 403 else ctx.blockStatusCode }
  else match ctx.routingTarget with
    | some t => { decision with action := .route, routingTarget := some t }
    | none =>
      if ¬ctx.transformations.isEmpty then { decision with action := .transform }
      else { decision with action := .allow }

inductive EngineError where
  | nilRequest
  | nilResponse
  | unknownFailSafeMode (mode : String)
  deriving DecidableEq, Repr

namespace InterpreterEngine

variable (rt : Runtime) (e : InterpreterEngine) (d : Deadlines)

def blockOnError (decision : PolicyDecision) : PolicyDecision :=
  { decision with
    action := .block, blockReason := "Policy evaluation error", blockStatusCode := 500 }

def handleEvaluationError (ctx : EvaluationContext) : Except EngineError PolicyDecision :=
  match e.config.failSafeMode with
  | .failOpen => .ok { buildDecision ctx with action := .allow }
  | .failClosed => .ok (blockOnError (buildDecision ctx))
  | .failSafeDefault =>
    .ok (if e.config.defaultAction = .block then blockOnError (buildDecision ctx)
      else { buildDecision ctx with action := e.config.defaultAction })
  | .unknown s => .error (.unknownFailSafeMode s)

/-- `evaluatePolicies` with the error handling of its two callers. No policies, no loop. -/
def evaluate (ctx : EvaluationContext) : Except EngineError PolicyDecision :=
  if e.policies.isEmpty then .ok (buildDecision ctx)
  else match e.evaluateLoaded rt d ctx with
    | (ctx, none) => .ok (buildDecision ctx)
    | (ctx, some _) => e.handleEvaluationError ctx

def requestContext (now : Time) (r : EnrichedRequest) : EvaluationContext :=
  { requestID := r.requestID, request := some r, startTime := now }

def responseContext (now : Time) (r : EnrichedResponse) : EvaluationContext :=
  { requestID := r.requestID, response := some r, startTime := now }

def evaluateRequest (now : Time) (enriched : Option EnrichedRequest) : Except EngineError PolicyDecision :=
  match enriched with
  | none => .error .nilRequest
  | some r => e.evaluate rt d (requestContext now r)

def evaluateResponse (now : Time) (enriched : Option EnrichedResponse) :
    Except EngineError PolicyDecision :=
  match enriched with
  | none => .error .nilResponse
  | some r => e.evaluate rt d (responseContext now r)

end InterpreterEngine

/-! ## A policy that routes, and denies risky requests -/

/-- The rules stand in the file with the catch-all first; by priority the deny comes first. -/
def guardPolicy : Policy :=
  { name := "guard"
    rules :=
      [{ name := "send", actions := [{ type := .route, parameters := [("provider", .string "openai")] }] },
        { name := "risky"
          conditions := some (.simple "request.risk_score" .greaterThan (.number 5))
          actions := [{ type := .deny, parameters := [("message", .string "too risky")] }] }] }

def defaultEngine (policies : List Policy) : InterpreterEngine :=
  { config := {}, valid := rfl, policies := normalizePolicyPriorities insertionSlice policies }

def noRuntime : Runtime :=
  { sprint := fun _ => "", regexpCompile := fun _ => none, loadLocation := fun _ => none }

end Jupiter.Engine
