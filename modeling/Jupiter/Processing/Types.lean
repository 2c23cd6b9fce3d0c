/-
The data the engine evaluates policies on: `pkg/processing` with the analysis results it attaches, and the
request and response of `pkg/proxy/types` and `pkg/providers` they wrap.

Each struct comes with its `view`, the value `reflect` sees: exported field names and dynamic types, in
the order of the declaration. Names are the source's, and default field values are Go's zero values;
`none` is a nil pointer.
-/
import Jupiter.Go.Value

namespace Jupiter.Processing

open Jupiter.Go

/-! ## Analysis results -/

structure TokenEstimate where
  promptTokens : Int := 0
  estimatedCompletionTokens : Int := 0
  totalTokens : Int := 0
  systemPromptTokens : Int := 0
  messageTokens : Int := 0
  toolTokens : Int := 0
  overheadTokens : Int := 0
  model : String := ""
  confidence : ℚ := 0

def TokenEstimate.view (e : TokenEstimate) : Value :=
  .struct "processing.TokenEstimate"
    [("PromptTokens", .int e.promptTokens),
      ("EstimatedCompletionTokens", .int e.estimatedCompletionTokens),
      ("TotalTokens", .int e.totalTokens), ("SystemPromptTokens", .int e.systemPromptTokens),
      ("MessageTokens", .int e.messageTokens), ("ToolTokens", .int e.toolTokens),
      ("OverheadTokens", .int e.overheadTokens), ("Model", .string e.model),
      ("Confidence", .float64 e.confidence)]

structure CostEstimate where
  promptCost : ℚ := 0
  completionCost : ℚ := 0
  totalCost : ℚ := 0
  model : String := ""
  provider : String := ""
  pricingTier : String := ""
  currency : String := ""

def CostEstimate.view (e : CostEstimate) : Value :=
  .struct "costs.CostEstimate"
    [("PromptCost", .float64 e.promptCost), ("CompletionCost", .float64 e.completionCost),
      ("TotalCost", .float64 e.totalCost), ("Model", .string e.model), ("Provider", .string e.provider),
      ("PricingTier", .string e.pricingTier), ("Currency", .string e.currency)]

structure TokenUsage where
  promptTokens : Int := 0
  completionTokens : Int := 0
  totalTokens : Int := 0
  cachedTokens : Int := 0

def TokenUsage.view (u : TokenUsage) : Value :=
  .struct "costs.TokenUsage"
    [("PromptTokens", .int u.promptTokens), ("CompletionTokens", .int u.completionTokens),
      ("TotalTokens", .int u.totalTokens), ("CachedTokens", .int u.cachedTokens)]

structure PIILocation where
  type : String := ""
  start : Int := 0
  stop : Int := 0
  confidence : ℚ := 0

def PIILocation.view (l : PIILocation) : Value :=
  .struct "content.PIILocation"
    [("Type", .string l.type), ("Start", .int l.start), ("End", .int l.stop),
      ("Confidence", .float64 l.confidence)]

structure PIIDetection where
  hasPII : Bool := false
  piiTypes : List String := []
  piiCount : Int := 0
  locations : List PIILocation := []

def PIIDetection.view (d : PIIDetection) : Value :=
  .struct "content.PIIDetection"
    [("HasPII", .bool d.hasPII), ("PIITypes", .strings d.piiTypes), ("PIICount", .int d.piiCount),
      ("Locations", .slice "content.PIILocation" (d.locations.map (·.view)))]

structure SensitiveContent where
  hasSensitiveContent : Bool := false
  categories : List String := []
  severity : String := ""
  matchCount : Int := 0

def SensitiveContent.view (c : SensitiveContent) : Value :=
  .struct "content.SensitiveContent"
    [("HasSensitiveContent", .bool c.hasSensitiveContent), ("Categories", .strings c.categories),
      ("Severity", .string c.severity), ("MatchCount", .int c.matchCount)]

structure PromptInjection where
  hasPromptInjection : Bool := false
  injectionType : String := ""
  confidence : ℚ := 0
  matchedPatterns : List String := []

def PromptInjection.view (i : PromptInjection) : Value :=
  .struct "content.PromptInjection"
    [("HasPromptInjection", .bool i.hasPromptInjection), ("InjectionType", .string i.injectionType),
      ("Confidence", .float64 i.confidence), ("MatchedPatterns", .strings i.matchedPatterns)]

structure Sentiment where
  score : ℚ := 0
  label : String := ""
  confidence : ℚ := 0

def Sentiment.view (s : Sentiment) : Value :=
  .struct "content.Sentiment"
    [("Score", .float64 s.score), ("Label", .string s.label), ("Confidence", .float64 s.confidence)]

structure ContentAnalysis where
  piiDetection : Option PIIDetection := none
  sensitiveContent : Option SensitiveContent := none
  promptInjection : Option PromptInjection := none
  sentiment : Option Sentiment := none
  language : String := ""
  wordCount : Int := 0
  sentenceCount : Int := 0
  averageWordLength : ℚ := 0

def ContentAnalysis.view (a : ContentAnalysis) : Value :=
  .struct "content.ContentAnalysis"
    [("PIIDetection", .ref "content.PIIDetection" PIIDetection.view a.piiDetection),
      ("SensitiveContent", .ref "content.SensitiveContent" SensitiveContent.view a.sensitiveContent),
      ("PromptInjection", .ref "content.PromptInjection" PromptInjection.view a.promptInjection),
      ("Sentiment", .ref "content.Sentiment" Sentiment.view a.sentiment),
      ("Language", .string a.language), ("WordCount", .int a.wordCount),
      ("SentenceCount", .int a.sentenceCount), ("AverageWordLength", .float64 a.averageWordLength)]

structure ConversationContext where
  turnCount : Int := 0
  messageCount : Int := 0
  systemPrompts : List String := []
  contextWindowUsage : Int := 0
  contextWindowPercent : ℚ := 0
  hasConversationHistory : Bool := false
  averageMessageLength : Int := 0

def ConversationContext.view (c : ConversationContext) : Value :=
  .struct "conversation.ConversationContext"
    [("TurnCount", .int c.turnCount), ("MessageCount", .int c.messageCount),
      ("SystemPrompts", .strings c.systemPrompts), ("ContextWindowUsage", .int c.contextWindowUsage),
      ("ContextWindowPercent", .float64 c.contextWindowPercent),
      ("HasConversationHistory", .bool c.hasConversationHistory),
      ("AverageMessageLength", .int c.averageMessageLength)]

structure FinishReasonAnalysis where
  finishReason : String := ""
  isExpected : Bool := false
  requiresAction : Bool := false
  description : String := ""
  severity : String := ""

def FinishReasonAnalysis.view (a : FinishReasonAnalysis) : Value :=
  .struct "processing.FinishReasonAnalysis"
    [("FinishReason", .string a.finishReason), ("IsExpected", .bool a.isExpected),
      ("RequiresAction", .bool a.requiresAction), ("Description", .string a.description),
      ("Severity", .string a.severity)]

structure LatencyBreakdown where
  networkLatency : Duration := 0
  providerProcessing : Duration := 0
  streamingOverhead : Duration := 0
  totalLatency : Duration := 0

def LatencyBreakdown.view (b : LatencyBreakdown) : Value :=
  .struct "processing.LatencyBreakdown"
    [("NetworkLatency", .duration b.networkLatency), ("ProviderProcessing", .duration b.providerProcessing),
      ("StreamingOverhead", .duration b.streamingOverhead), ("TotalLatency", .duration b.totalLatency)]

structure QualityMetrics where
  coherence : ℚ := 0
  relevance : ℚ := 0
  safety : ℚ := 0
  overallScore : ℚ := 0

def QualityMetrics.view (m : QualityMetrics) : Value :=
  .struct "processing.QualityMetrics"
    [("Coherence", .float64 m.coherence), ("Relevance", .float64 m.relevance), ("Safety", .float64 m.safety),
      ("OverallScore", .float64 m.overallScore)]

/-! ## The wrapped request and response -/

/-- `types.ChatCompletionRequest`. The engine can only print the messages and tools, so these are kept
as the values `reflect` sees. -/
structure ChatCompletionRequest where
  model : String := ""
  messages : List Value := []
  temperature : Option ℚ := none
  maxTokens : Option Int := none
  topP : Option ℚ := none
  n : Option Int := none
  stream : Bool := false
  stop : List String := []
  presencePenalty : Option ℚ := none
  frequencyPenalty : Option ℚ := none
  user : String := ""
  tools : List Value := []
  toolChoice : Value := .nil
  responseFormat : Option String := none
  seed : Option Int := none

def ChatCompletionRequest.view (r : ChatCompletionRequest) : Value :=
  .struct "types.ChatCompletionRequest"
    [("Model", .string r.model), ("Messages", .slice "types.Message" r.messages),
      ("Temperature", .ref "float64" .float64 r.temperature), ("MaxTokens", .ref "int" .int r.maxTokens),
      ("TopP", .ref "float64" .float64 r.topP), ("N", .ref "int" .int r.n), ("Stream", .bool r.stream),
      ("Stop", .strings r.stop), ("PresencePenalty", .ref "float64" .float64 r.presencePenalty),
      ("FrequencyPenalty", .ref "float64" .float64 r.frequencyPenalty), ("User", .string r.user),
      ("Tools", .slice "types.Tool" r.tools), ("ToolChoice", r.toolChoice),
      ("ResponseFormat", .ref "types.ResponseFormat"
        (fun t => .struct "types.ResponseFormat" [("Type", .string t)]) r.responseFormat),
      ("Seed", .ref "int" .int r.seed)]

/-- `providers.CompletionResponse`; its usage has no cached tokens. -/
structure CompletionResponse where
  id : String := ""
  model : String := ""
  content : String := ""
  finishReason : String := ""
  promptTokens : Int := 0
  completionTokens : Int := 0
  totalTokens : Int := 0
  toolCalls : List Value := []
  created : Int := 0
  metadata : List (String × String) := []

def CompletionResponse.view (r : CompletionResponse) : Value :=
  .struct "providers.CompletionResponse"
    [("ID", .string r.id), ("Model", .string r.model), ("Content", .string r.content),
      ("FinishReason", .string r.finishReason),
      ("Usage", .struct "providers.TokenUsage"
        [("PromptTokens", .int r.promptTokens), ("CompletionTokens", .int r.completionTokens),
          ("TotalTokens", .int r.totalTokens)]),
      ("ToolCalls", .slice "providers.ToolCall" r.toolCalls), ("Created", .int64 r.created),
      ("Metadata", .map "string" (r.metadata.map fun kv => (kv.1, .string kv.2)))]

/-! ## Enriched requests and responses -/

structure EnrichedRequest where
  requestID : String := ""
  originalRequest : Option ChatCompletionRequest := none
  tokenEstimate : Option TokenEstimate := none
  costEstimate : Option CostEstimate := none
  contentAnalysis : Option ContentAnalysis := none
  conversationContext : Option ConversationContext := none
  modelFamily : String := ""
  pricingTier : String := ""
  estimatedLatency : Duration := 0
  complexityScore : Int := 0
  riskScore : Int := 0
  processingDuration : Duration := 0

def EnrichedRequest.view (r : EnrichedRequest) : Value :=
  .struct "processing.EnrichedRequest"
    [("RequestID", .string r.requestID),
      ("OriginalRequest", .ref "types.ChatCompletionRequest" ChatCompletionRequest.view r.originalRequest),
      ("TokenEstimate", .ref "processing.TokenEstimate" TokenEstimate.view r.tokenEstimate),
      ("CostEstimate", .ref "costs.CostEstimate" CostEstimate.view r.costEstimate),
      ("ContentAnalysis", .ref "content.ContentAnalysis" ContentAnalysis.view r.contentAnalysis),
      ("ConversationContext",
        .ref "conversation.ConversationContext" ConversationContext.view r.conversationContext),
      ("ModelFamily", .string r.modelFamily), ("PricingTier", .string r.pricingTier),
      ("EstimatedLatency", .duration r.estimatedLatency), ("ComplexityScore", .int r.complexityScore),
      ("RiskScore", .int r.riskScore), ("ProcessingDuration", .duration r.processingDuration)]

structure EnrichedResponse where
  requestID : String := ""
  originalResponse : Option CompletionResponse := none
  tokenUsage : Option TokenUsage := none
  costEstimate : Option CostEstimate := none
  contentAnalysis : Option ContentAnalysis := none
  finishReasonAnalysis : Option FinishReasonAnalysis := none
  tokenEfficiency : ℚ := 0
  latencyBreakdown : Option LatencyBreakdown := none
  qualityMetrics : Option QualityMetrics := none
  processingDuration : Duration := 0

def EnrichedResponse.view (r : EnrichedResponse) : Value :=
  .struct "processing.EnrichedResponse"
    [("RequestID", .string r.requestID),
      ("OriginalResponse", .ref "providers.CompletionResponse" CompletionResponse.view r.originalResponse),
      ("TokenUsage", .ref "costs.TokenUsage" TokenUsage.view r.tokenUsage),
      ("CostEstimate", .ref "costs.CostEstimate" CostEstimate.view r.costEstimate),
      ("ContentAnalysis", .ref "content.ContentAnalysis" ContentAnalysis.view r.contentAnalysis),
      ("FinishReasonAnalysis",
        .ref "processing.FinishReasonAnalysis" FinishReasonAnalysis.view r.finishReasonAnalysis),
      ("TokenEfficiency", .float64 r.tokenEfficiency),
      ("LatencyBreakdown", .ref "processing.LatencyBreakdown" LatencyBreakdown.view r.latencyBreakdown),
      ("QualityMetrics", .ref "processing.QualityMetrics" QualityMetrics.view r.qualityMetrics),
      ("ProcessingDuration", .duration r.processingDuration)]

/-! ## All analysis results there -/

def ContentAnalysis.Populated (a : ContentAnalysis) : Prop :=
  a.piiDetection.isSome ∧ a.sensitiveContent.isSome ∧ a.promptInjection.isSome ∧ a.sentiment.isSome

/-- No pointer to the original request or to an analysis result is nil. -/
structure EnrichedRequest.Populated (r : EnrichedRequest) : Prop where
  originalRequest : r.originalRequest.isSome
  tokenEstimate : r.tokenEstimate.isSome
  costEstimate : r.costEstimate.isSome
  contentAnalysis : ∃ a, r.contentAnalysis = some a ∧ a.Populated
  conversationContext : r.conversationContext.isSome

end Jupiter.Processing
