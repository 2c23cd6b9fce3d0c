/-
`executor.go`: what each action does to the evaluation context, and the result it reports.

`Execute` reports an error of its own only for a nil action, which a rule's list never holds, so it returns
the result and the context. Log lines are left out.
-/
import Jupiter.Engine.Types

namespace Jupiter.Engine

open Jupiter.Go Jupiter.Mpl Jupiter.Processing

/-- `int(x)` of a float: towards zero. -/
def truncateToInt (q : ℚ) : Int := q.num.tdiv q.den

def orDefault (s d : String) : String := if s = "" then d else s

def ActionResult.succeed (a : Action) (details : List (String × Value)) : ActionResult :=
  { actionType := a.type, success := true, details := details }

def ActionResult.missing (a : Action) (parameter : String) : ActionResult :=
  { actionType := a.type, success := false, error := some (.parameterRequired parameter a.type) }

section Executor

variable (rt : Runtime) (a : Action) (ctx : EvaluationContext)

def executeAllow : ActionResult × EvaluationContext :=
  (.succeed a [("action", .string "allow")], ctx.stop)

def denyMessage : String := orDefault (a.getStringParameter "message") "Request denied by policy"

def denyStatusCode : Int :=
  let statusCode := truncateToInt (a.getNumberParameter "status_code")
  if statusCode = 0 then 403 else statusCode

def executeDeny : ActionResult × EvaluationContext :=
  (.succeed a [("message", .string (denyMessage a)), ("status_code", .int (denyStatusCode a))],
    ctx.setBlock (denyMessage a) (denyStatusCode a))

def executeLog : ActionResult × EvaluationContext :=
  (.succeed a [("message", .string (a.getStringParameter "message")),
    ("level", .string (orDefault (a.getStringParameter "level") "info"))], ctx)

def executeRedact : ActionResult × EvaluationContext :=
  let strategy := orDefault (a.getStringParameter "strategy") "mask"
  let field := orDefault (a.getStringParameter "field") "prompt"
  let pattern := a.getStringParameter "pattern"
  let replacement := orDefault (a.getStringParameter "replacement") "***"
  (.succeed a [("field", .string field), ("strategy", .string strategy), ("pattern", .string pattern),
    ("replacement", .string replacement)], ctx.addRedaction field strategy pattern replacement 0)

/-- The value a modify action sets: the `Value` of the node, of a reference its text. -/
def modifyValue : Value := ((a.getParameter "value").map ValueNode.value).getD .nil

def executeModify : ActionResult × EvaluationContext :=
  let field := a.getStringParameter "field"
  let operation := orDefault (a.getStringParameter "operation") "set"
  if field = "" then (.missing a "field", ctx)
  else (.succeed a [("field", .string field), ("operation", .string operation), ("value", modifyValue a)],
    ctx.addTransformation field operation (modifyValue a))

/-- The strings of a `fallback` list; other elements are skipped. -/
def routeFallback : List String :=
  match a.getParameter "fallback" with
  | some (.array items) => items.filterMap fun
    | .string s => some s
    | _ => none
  | _ => []

/-- The target a route action sets, given a provider. -/
def routeTarget : RoutingTarget :=
  { provider := a.getStringParameter "provider", model := a.getStringParameter "model",
    fallback := routeFallback a }

def executeRoute : ActionResult × EvaluationContext :=
  let t := routeTarget a
  if t.provider = "" then (.missing a "provider", ctx)
  else (.succeed a [("provider", .string t.provider), ("model", .string t.model),
    ("fallback", .strings t.fallback)], ctx.setRouting t.provider t.model t.fallback)

def executeAlert : ActionResult × EvaluationContext :=
  let destination := a.getStringParameter "destination"
  let message := a.getStringParameter "message"
  let notifType := orDefault (a.getStringParameter "type") "webhook"
  if destination = "" then (.missing a "destination", ctx)
  else (.succeed a [("type", .string notifType), ("destination", .string destination),
    ("message", .string message)],
    ctx.addNotification notifType destination
      [("request_id", .string ctx.requestID), ("message", .string message),
        ("timestamp", .time ctx.startTime)] true)

def executeRateLimit : ActionResult × EvaluationContext :=
  (.succeed a [("limit", .int (truncateToInt (a.getNumberParameter "limit"))),
    ("window", .string (a.getStringParameter "window"))], ctx)

def executeBudget : ActionResult × EvaluationContext :=
  (.succeed a [("limit", .float64 (a.getNumberParameter "limit"))], ctx)

def extractFieldValue (path : String) : Option Value :=
  match ctx.request with
  | none => none
  | some r =>
    match r.originalRequest with
    | none => none
    | some o =>
      match path with
      | "request.model" => some (.string o.model)
      | "request.user" => if o.user = "" then none else some (.string o.user)
      | "request.model_family" => if r.modelFamily = "" then none else some (.string r.modelFamily)
      | "request.pricing_tier" => if r.pricingTier = "" then none else some (.string r.pricingTier)
      | "request.risk_score" => some (.int r.riskScore)
      | "request.complexity_score" => some (.int r.complexityScore)
      | _ => none

/-- `fmt.Sprintf("%v", v)`. -/
def formatValue : Value → String
  | .string s => s
  | v => rt.sprint v

/-- The value of a tag: its parameter, else the field it names, else `true`. -/
def tagValue : String :=
  let value := a.getStringParameter "value"
  let valueFrom := a.getStringParameter "value_from"
  let value :=
    if value = "" ∧ valueFrom ≠ "" then ((extractFieldValue ctx valueFrom).map (formatValue rt)).getD ""
    else value
  orDefault value "true"

def executeTag : ActionResult × EvaluationContext :=
  let key := a.getStringParameter "key"
  if key = "" then (.missing a "key", ctx)
  else (.succeed a [("key", .string key), ("value", .string (tagValue rt a ctx))],
    ctx.addTag key (tagValue rt a ctx))

def execute : ActionResult × EvaluationContext :=
  match a.type with
  | .allow => executeAllow a ctx
  | .deny => executeDeny a ctx
  | .log => executeLog a ctx
  | .redact => executeRedact a ctx
  | .modify => executeModify a ctx
  | .route => executeRoute a ctx
  | .alert => executeAlert a ctx
  | .tag => executeTag rt a ctx
  | .rateLimit => executeRateLimit a ctx
  | .budget => executeBudget a ctx
  | .unknown s =>
    ({ actionType := a.type, success := false, error := some (.unknownActionType s) }, ctx)

end Executor

end Jupiter.Engine
