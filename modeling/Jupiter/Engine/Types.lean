/-
`pkg/policy/engine`: configuration, errors, decisions and the evaluation context (`types.go`, `config.go`,
`errors.go`, `time.go`).

Left out of contexts and decisions: the trace and the measured evaluation times, which are written and
never read. Errors are data: each constructor is one `fmt.Errorf` of the source with the values its text
shows.
-/
import Jupiter.Mpl.Ast
import Jupiter.Processing.Types

namespace Jupiter.Engine

open Jupiter.Go Jupiter.Mpl Jupiter.Processing

/-! ## Configuration -/

inductive PolicyAction where
  | allow | block | transform | route
  deriving DecidableEq, Repr

inductive FailSafeMode where
  | failOpen | failClosed | failSafeDefault
  | unknown (s : String)
  deriving DecidableEq, Repr

structure BusinessHoursConfig where
  timezone : String := "UTC"
  daysOfWeek : List Int := [1, 2, 3, 4, 5]
  startHour : Int := 9
  endHour : Int := 17

/-- A zone that does not load counts as UTC; a week starts on Monday, day 1. -/
def BusinessHoursConfig.isBusinessHours (rt : Runtime) (c : BusinessHoursConfig) (t : Time) : Bool :=
  let loc := (rt.loadLocation c.timezone).getD Time.utc
  let dayOfWeek := if Time.weekday loc t = 0 then 7 else Time.weekday loc t
  if ¬c.daysOfWeek.isEmpty ∧ dayOfWeek ∉ c.daysOfWeek then false
  else decide (c.startHour ≤ Time.hourOf loc t ∧ Time.hourOf loc t < c.endHour)

structure EngineConfig where
  failSafeMode : FailSafeMode := .failClosed
  defaultAction : PolicyAction := .block
  ruleTimeout : Duration := 50000000
  policyTimeout : Duration := 100000000
  maxPolicies : Int := 100
  maxRulesPerPolicy : Int := 50
  businessHours : Option BusinessHoursConfig := some {}

inductive ConfigError where
  | failSafeMode (mode : String)
  | defaultAction (action : PolicyAction)
  | ruleTimeout
  | policyTimeout
  | ruleTimeoutExceedsPolicyTimeout
  | maxPolicies
  | maxRulesPerPolicy
  deriving DecidableEq, Repr

/-- The first check that fails; `none` for a valid configuration. -/
def EngineConfig.validate (c : EngineConfig) : Option ConfigError :=
  match c.failSafeMode with
  | .unknown s => some (.failSafeMode s)
  | _ =>
    if c.failSafeMode = .failSafeDefault ∧ c.defaultAction ≠ .allow ∧ c.defaultAction ≠ .block then
      some (.defaultAction c.defaultAction)
    else if c.ruleTimeout ≤ 0 then some .ruleTimeout
    else if c.policyTimeout ≤ 0 then some .policyTimeout
    else if c.ruleTimeout > c.policyTimeout then some .ruleTimeoutExceedsPolicyTimeout
    else if c.maxPolicies ≤ 0 then some .maxPolicies
    else if c.maxRulesPerPolicy ≤ 0 then some .maxRulesPerPolicy
    else none

/-! ## Errors -/

inductive OperatorError where
  | actualNotNumeric (type : String)
  | expectedNotNumeric (type : String)
  | containsNotList (kind : String)
  | notText (operator : Operator)
  | patternNotString
  | invalidPattern (pattern : String)
  | inNotList (kind : String)
  | unknownOperator (operator : String)
  deriving DecidableEq, Repr

/-- The errors of `Match`. `cancelled` is `ctx.Err()`. -/
inductive MatchError where
  | unknownConditionType (type : String)
  | fieldNotFound (field : String)
  | operator (op : Operator) (cause : OperatorError)
  | notChildren (count : Nat)
  | unknownFunction (name : String)
  | cancelled
  deriving DecidableEq, Repr

inductive ActionFailure where
  | parameterRequired (parameter : String) (action : ActionType)
  | unknownActionType (type : String)
  deriving DecidableEq, Repr

/-- The errors of `evaluatePolicies`. The rule of a timeout is empty when a policy's check fired. -/
inductive EvaluationError where
  | timeout (policyID ruleID : String)
  | condition (policyID ruleID : String) (cause : MatchError)
  | action (policyID ruleID : String) (actionType : ActionType)
  deriving DecidableEq, Repr

/-! ## Decisions -/

structure ActionResult where
  actionType : ActionType
  success : Bool
  error : Option ActionFailure := none
  details : List (String × Value) := []

/-- A rule that was evaluated, matched or not. -/
structure MatchedRule where
  policyID : String
  policyName : String
  ruleID : String
  ruleName : String
  conditionResult : Bool := false
  actionsExecuted : List ActionResult := []
  error : Option MatchError := none

structure Transformation where
  field : String
  value : Value
  operation : String

structure Redaction where
  field : String
  strategy : String
  pattern : String
  replacement : String
  matchCount : Int
  deriving DecidableEq, Repr

structure RoutingTarget where
  provider : String
  model : String
  fallback : List String
  deriving DecidableEq, Repr

structure Notification where
  type : String
  destination : String
  payload : List (String × Value)
  async : Bool

structure PolicyDecision where
  action : PolicyAction := .allow
  matchedRules : List MatchedRule := []
  blockReason : String := ""
  blockStatusCode : Int := 0
  transformations : List Transformation := []
  redactions : List Redaction := []
  routingTarget : Option RoutingTarget := none
  tags : List (String × String) := []
  notifications : List Notification := []

/-! ## The evaluation context -/

/-- The first four fields are the input of an evaluation and never change; `Tags` is a map. -/
structure EvaluationContext where
  requestID : String := ""
  request : Option EnrichedRequest := none
  response : Option EnrichedResponse := none
  startTime : Time := 0
  matchedRules : List MatchedRule := []
  tags : List (String × String) := []
  transformations : List Transformation := []
  redactions : List Redaction := []
  notifications : List Notification := []
  routingTarget : Option RoutingTarget := none
  blockReason : String := ""
  blockStatusCode : Int := 0
  stopped : Bool := false

namespace EvaluationContext

def addTag (ctx : EvaluationContext) (key value : String) : EvaluationContext :=
  { ctx with tags := (key, value) :: ctx.tags.filter (·.1 ≠ key) }

def addTransformation (ctx : EvaluationContext) (field operation : String) (value : Value) :
    EvaluationContext :=
  { ctx with transformations := ctx.transformations ++ [{ field, value, operation }] }

def addRedaction (ctx : EvaluationContext) (field strategy pattern replacement : String)
    (matchCount : Int) : EvaluationContext :=
  { ctx with redactions := ctx.redactions ++ [{ field, strategy, pattern, replacement, matchCount }] }

def addNotification (ctx : EvaluationContext) (type destination : String)
    (payload : List (String × Value)) (async : Bool) : EvaluationContext :=
  { ctx with notifications := ctx.notifications ++ [{ type, destination, payload, async }] }

def setRouting (ctx : EvaluationContext) (provider model : String) (fallback : List String) :
    EvaluationContext :=
  { ctx with routingTarget := some { provider, model, fallback } }

def setBlock (ctx : EvaluationContext) (reason : String) (statusCode : Int) : EvaluationContext :=
  { ctx with blockReason := reason, blockStatusCode := statusCode, stopped := true }

def stop (ctx : EvaluationContext) : EvaluationContext := { ctx with stopped := true }

def addMatched (ctx : EvaluationContext) (m : MatchedRule) : EvaluationContext :=
  { ctx with matchedRules := ctx.matchedRules ++ [m] }

end EvaluationContext

end Jupiter.Engine
