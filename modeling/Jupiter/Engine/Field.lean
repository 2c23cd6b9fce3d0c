/-
`field.go`: the value a dotted path names in the evaluation context.

An error only says that the path was not found (its text is logged and dropped), so extraction returns an
`Option`. A path that no case lists falls back to reflection, which follows the pointer it is given and no
pointer it meets on the way.
-/
import Jupiter.Engine.Types

namespace Jupiter.Engine

open Jupiter.Go Jupiter.Mpl Jupiter.Processing

/-- The value below `v` at a path of field names, compared without regard to case. As with
`FieldByNameFunc`, a name that fits several fields fits none. -/
def fieldPath : Value → List String → Option Value
  | v, [] => some v
  | .struct _ fields, name :: rest =>
    match fields.filter fun f => Strings.equalFold f.1 name with
    | [f] => fieldPath f.2 rest
    | _ => none
  | _, _ :: _ => none

/-- Pointers at the top are followed, a nil one is an error. -/
def extractFieldReflection : Value → List String → Option Value
  | .nil, _ => none
  | .ptr _ none, _ => none
  | .ptr _ (some v), path => extractFieldReflection v path
  | v, path => fieldPath v path

/-- The five extractors for a nested struct: an empty path is an error. -/
def extractNestedField (obj : Value) (path : List String) : Option Value :=
  if path.isEmpty then none else extractFieldReflection obj path

def extractContentAnalysisField (path : List String) (a : Option ContentAnalysis) : Option Value :=
  extractNestedField (.ref "content.ContentAnalysis" ContentAnalysis.view a) path

def extractConversationField (path : List String) (c : Option ConversationContext) : Option Value :=
  extractNestedField (.ref "conversation.ConversationContext" ConversationContext.view c) path

def extractTokenEstimateField (path : List String) (e : Option TokenEstimate) : Option Value :=
  extractNestedField (.ref "processing.TokenEstimate" TokenEstimate.view e) path

def extractCostEstimateField (path : List String) (e : Option CostEstimate) : Option Value :=
  extractNestedField (.ref "costs.CostEstimate" CostEstimate.view e) path

def extractTokenUsageField (path : List String) (u : Option TokenUsage) : Option Value :=
  extractNestedField (.ref "costs.TokenUsage" TokenUsage.view u) path

def extractRequestField (path : List String) (ctx : EvaluationContext) : Option Value :=
  match ctx.request with
  | none => none
  | some r =>
    match path with
    | ["request_id"] => some (.string r.requestID)
    | ["model"] => r.originalRequest.map fun o => .string o.model
    | ["model_family"] => some (.string r.modelFamily)
    | ["tokens"] => some (.int ((r.tokenEstimate.map (·.totalTokens)).getD 0))
    | ["prompt_tokens"] => some (.int ((r.tokenEstimate.map (·.promptTokens)).getD 0))
    | ["estimated_cost"] => some (.float64 ((r.costEstimate.map (·.totalCost)).getD 0))
    | ["risk_score"] => some (.int r.riskScore)
    | ["complexity_score"] => some (.int r.complexityScore)
    | ["temperature"] => (r.originalRequest.bind (·.temperature)).map .float64
    | ["max_tokens"] => (r.originalRequest.bind (·.maxTokens)).map .int
    | ["stream"] => some (.bool ((r.originalRequest.map (·.stream)).getD false))
    | "content_analysis" :: p :: rest => extractContentAnalysisField (p :: rest) r.contentAnalysis
    | "conversation_context" :: p :: rest => extractConversationField (p :: rest) r.conversationContext
    | "token_estimate" :: p :: rest => extractTokenEstimateField (p :: rest) r.tokenEstimate
    | "cost_estimate" :: p :: rest => extractCostEstimateField (p :: rest) r.costEstimate
    | path => extractFieldReflection r.view path

def extractResponseField (path : List String) (ctx : EvaluationContext) : Option Value :=
  match ctx.response with
  | none => none
  | some r =>
    match path with
    | ["request_id"] => some (.string r.requestID)
    | ["tokens"] => some (.int ((r.tokenUsage.map (·.totalTokens)).getD 0))
    | ["prompt_tokens"] => some (.int ((r.tokenUsage.map (·.promptTokens)).getD 0))
    | ["completion_tokens"] => some (.int ((r.tokenUsage.map (·.completionTokens)).getD 0))
    | ["finish_reason"] => some (.string ((r.originalResponse.map (·.finishReason)).getD ""))
    | ["actual_cost"] => some (.float64 ((r.costEstimate.map (·.totalCost)).getD 0))
    | "content_analysis" :: p :: rest => extractContentAnalysisField (p :: rest) r.contentAnalysis
    | "token_usage" :: p :: rest => extractTokenUsageField (p :: rest) r.tokenUsage
    | "cost_estimate" :: p :: rest => extractCostEstimateField (p :: rest) r.costEstimate
    | path => extractFieldReflection r.view path

def extractMetadataField (path : List String) (ctx : EvaluationContext) : Option Value :=
  match path with
  | "request_id" :: _ => some (.string ctx.requestID)
  | _ => none

/-- `extractField` on a path that is already split. -/
def extractParts (parts : List String) (ctx : EvaluationContext) : Option Value :=
  match parts with
  | source :: name :: rest =>
    match source with
    | "request" => extractRequestField (name :: rest) ctx
    | "response" => extractResponseField (name :: rest) ctx
    | "metadata" => extractMetadataField (name :: rest) ctx
    | _ => none
  | _ => none

def extractField (path : String) (ctx : EvaluationContext) : Option Value :=
  extractParts (Strings.splitDot path) ctx

end Jupiter.Engine
