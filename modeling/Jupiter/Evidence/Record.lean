/-
`pkg/evidence`: the evidence record.

Names are the source's, and default field values are Go's zero values. Costs and scores that are
`float64` are rational, and a map is a list of pairs. Of the slices only `matchedRules` tells nil, which is
`none`, from empty: a store compares the text it is marshalled to.
-/
import Jupiter.Go.Time
import Mathlib.Data.Rat.Defs

namespace Jupiter.Evidence

open Jupiter.Go

structure MatchedRuleRecord where
  policyID : String
  ruleID : String
  action : String
  reason : String
  evaluationTime : Duration
  deriving DecidableEq

structure PolicyVersionInfo where
  commitSHA : String
  commitTime : Time
  branch : String
  repository : String
  author : String
  message : String
  deriving DecidableEq

structure EvidenceRecord where
  id : String
  requestID : String
  requestTime : Zoned
  policyEvalTime : Zoned := ⟨0, 0⟩
  providerCallTime : Zoned := ⟨0, 0⟩
  responseTime : Zoned := ⟨0, 0⟩
  recordedTime : Zoned := ⟨0, 0⟩
  requestHash : String := ""
  requestMethod : String := ""
  requestPath : String := ""
  requestHeaders : List (String × String) := []
  model : String := ""
  provider : String := ""
  messages : Int := 0
  systemPrompt : String := ""
  userPrompt : String := ""
  toolsUsed : List String := []
  estimatedTokens : Int := 0
  estimatedCost : ℚ := 0
  riskScore : Int := 0
  complexityScore : Int := 0
  piiDetected : Bool := false
  piiTypes : List String := []
  policyDecision : String := ""
  matchedRules : Option (List MatchedRuleRecord) := none
  blockReason : String := ""
  policyVersion : String := ""
  policyVersionInfo : Option PolicyVersionInfo := none
  responseHash : String := ""
  responseStatus : Int := 0
  responseContent : String := ""
  finishReason : String := ""
  promptTokens : Int := 0
  completionTokens : Int := 0
  totalTokens : Int := 0
  actualCost : ℚ := 0
  providerLatency : Duration := 0
  providerModel : String := ""
  userID : String := ""
  apiKey : String := ""
  ipAddress : String := ""
  error : String := ""
  errorType : String := ""
  turnNumber : Int := 0
  contextUsage : ℚ := 0
  deriving DecidableEq

end Jupiter.Evidence
