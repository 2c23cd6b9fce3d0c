/-
`SQLiteStorage.Store` and `scanRow`: the row of a record, written by one positional list and read by another.

The cells of a row have the types the driver gives them back in, so times and floats are kept. `json.Marshal` and
`json.Unmarshal` of the four fields kept as JSON are parameters; `Keeps` says of a value that it survives them.
-/
import Jupiter.Evidence.Backends

namespace Jupiter.Evidence.Storage.SQLite.Row

open Jupiter.Go

inductive TableColumn where
  | id | requestID
  | requestTime | policyEvalTime | providerCallTime | responseTime | recordedTime
  | requestHash | requestMethod | requestPath | requestHeaders
  | model | provider | messages | systemPrompt | userPrompt | toolsUsed
  | estimatedTokens | estimatedCost | riskScore | complexityScore | piiDetected | piiTypes
  | policyDecision | matchedRules | blockReason | policyVersion
  | responseHash | responseStatus
  | responseContent | finishReason
  | promptTokens | completionTokens | totalTokens | actualCost
  | providerLatency | providerModel
  | userID | apiKey | ipAddress
  | error | errorType
  | turnNumber | contextUsage
  deriving DecidableEq

inductive Cell where
  | null
  | time (t : Zoned)
  | text (s : String)
  | integer (n : Int)
  | real (q : ℚ)
  | boolean (b : Bool)
  deriving DecidableEq

/-- `json.Marshal` and `json.Unmarshal` for one Go type. -/
structure Codec (α : Type) where
  marshal : α → String
  unmarshal : String → Option α

/-- The value is read back from the JSON text it is written as, and that text is not empty. -/
def Codec.Keeps {α : Type} (c : Codec α) (a : α) : Prop := c.marshal a ≠ "" ∧ c.unmarshal (c.marshal a) = some a

/-- The codecs of the fields that are kept as JSON. -/
structure Codecs where
  headers : Codec (List (String × String))
  strings : Codec (List String)
  rules : Codec (Option (List MatchedRuleRecord))

structure Codecs.Keep (json : Codecs) (r : EvidenceRecord) : Prop where
  requestHeaders : json.headers.Keeps r.requestHeaders
  toolsUsed : json.strings.Keeps r.toolsUsed
  piiTypes : json.strings.Keeps r.piiTypes
  matchedRules : json.rules.Keeps r.matchedRules

/-! ## Store -/

/-- `Schema`: the columns in the order they are declared in, which is that of `SELECT *`. -/
def schema : List TableColumn :=
  [.id, .requestID,
   .requestTime, .policyEvalTime, .providerCallTime, .responseTime, .recordedTime,
   .requestHash, .requestMethod, .requestPath, .requestHeaders,
   .model, .provider, .messages, .systemPrompt, .userPrompt, .toolsUsed,
   .estimatedTokens, .estimatedCost, .riskScore, .complexityScore, .piiDetected, .piiTypes,
   .policyDecision, .matchedRules, .blockReason, .policyVersion,
   .responseHash, .responseStatus,
   .responseContent, .finishReason,
   .promptTokens, .completionTokens, .totalTokens, .actualCost,
   .providerLatency, .providerModel,
   .userID, .apiKey, .ipAddress,
   .error, .errorType,
   .turnNumber, .contextUsage]

def insertColumns : List TableColumn :=
  [.id, .requestID,
   .requestTime, .policyEvalTime, .providerCallTime, .responseTime, .recordedTime,
   .requestHash, .requestMethod, .requestPath, .requestHeaders,
   .model, .provider, .messages, .systemPrompt, .userPrompt, .toolsUsed,
   .estimatedTokens, .estimatedCost, .riskScore, .complexityScore, .piiDetected, .piiTypes,
   .policyDecision, .matchedRules, .blockReason, .policyVersion,
   .responseHash, .responseStatus,
   .responseContent, .finishReason,
   .promptTokens, .completionTokens, .totalTokens, .actualCost,
   .providerLatency, .providerModel,
   .userID, .apiKey, .ipAddress,
   .error, .errorType,
   .turnNumber, .contextUsage]

def nullable (s : String) : Cell := if s = "" then .null else .text s

def insertValues (json : Codecs) (record : EvidenceRecord) : List Cell :=
  [.text record.id, .text record.requestID,
   .time record.requestTime, .time record.policyEvalTime, .time record.providerCallTime, .time record.responseTime,
   .time record.recordedTime,
   .text record.requestHash, .text record.requestMethod, .text record.requestPath,
   .text (json.headers.marshal record.requestHeaders),
   .text record.model, .text record.provider, .integer record.messages, .text record.systemPrompt,
   .text record.userPrompt, .text (json.strings.marshal record.toolsUsed),
   .integer record.estimatedTokens, .real record.estimatedCost, .integer record.riskScore,
   .integer record.complexityScore, .boolean record.piiDetected, .text (json.strings.marshal record.piiTypes),
   .text record.policyDecision, .text (json.rules.marshal record.matchedRules), .text record.blockReason,
   .text record.policyVersion,
   .text record.responseHash, .integer record.responseStatus,
   .text record.responseContent, .text record.finishReason,
   .integer record.promptTokens, .integer record.completionTokens, .integer record.totalTokens,
   .real record.actualCost,
   .integer (milliseconds record.providerLatency), .text record.providerModel,
   .text record.userID, .text record.apiKey, .text record.ipAddress,
   nullable record.error, nullable record.errorType,
   .integer record.turnNumber, .real record.contextUsage]

def store (json : Codecs) (record : EvidenceRecord) (column : TableColumn) : Cell :=
  ((insertColumns.zip (insertValues json record)).lookup column).getD .null

/-! ## scanRow -/

/-- `Scan` reads the cells of a row from left to right and fails on one of another type. -/
abbrev Scan := StateT (List Cell) Option

namespace Scan

def cell : Scan Cell
  | [] => none
  | c :: rest => some (c, rest)

def text : Scan String := do
  match ← cell with
  | .text s => pure s
  | _ => failure

def time : Scan Zoned := do
  match ← cell with
  | .time t => pure t
  | _ => failure

def integer : Scan Int := do
  match ← cell with
  | .integer n => pure n
  | _ => failure

def real : Scan ℚ := do
  match ← cell with
  | .real q => pure q
  | _ => failure

def boolean : Scan Bool := do
  match ← cell with
  | .boolean b => pure b
  | _ => failure

/-- A `sql.NullString`, as the empty text when it is not valid. -/
def nullText : Scan String := do
  match ← cell with
  | .null => pure ""
  | .text s => pure s
  | _ => failure

end Scan

/-- `json.Unmarshal` of a cell into a field that is still zero; an error is logged and the field stays. -/
def unmarshalInto {α : Type} (c : Codec α) (zero : α) (s : String) : α :=
  if s ≠ "" then (c.unmarshal s).getD zero else zero

def scanCells (json : Codecs) : Scan EvidenceRecord := do
  let id ← Scan.text
  let requestID ← Scan.text
  let requestTime ← Scan.time
  let policyEvalTime ← Scan.time
  let providerCallTime ← Scan.time
  let responseTime ← Scan.time
  let recordedTime ← Scan.time
  let requestHash ← Scan.text
  let requestMethod ← Scan.text
  let requestPath ← Scan.text
  let requestHeaders ← Scan.text
  let model ← Scan.text
  let provider ← Scan.text
  let messages ← Scan.integer
  let systemPrompt ← Scan.text
  let userPrompt ← Scan.text
  let toolsUsed ← Scan.text
  let estimatedTokens ← Scan.integer
  let estimatedCost ← Scan.real
  let riskScore ← Scan.integer
  let complexityScore ← Scan.integer
  let piiDetected ← Scan.boolean
  let piiTypes ← Scan.text
  let policyDecision ← Scan.text
  let matchedRules ← Scan.text
  let blockReason ← Scan.text
  let policyVersion ← Scan.text
  let responseHash ← Scan.text
  let responseStatus ← Scan.integer
  let responseContent ← Scan.text
  let finishReason ← Scan.text
  let promptTokens ← Scan.integer
  let completionTokens ← Scan.integer
  let totalTokens ← Scan.integer
  let actualCost ← Scan.real
  let providerLatencyMs ← Scan.integer
  let providerModel ← Scan.text
  let userID ← Scan.text
  let apiKey ← Scan.text
  let ipAddress ← Scan.text
  let errorVal ← Scan.nullText
  let errorTypeVal ← Scan.nullText
  let turnNumber ← Scan.integer
  let contextUsage ← Scan.real
  return { id, requestID, requestTime, policyEvalTime, providerCallTime, responseTime, recordedTime
           requestHash, requestMethod, requestPath
           requestHeaders := unmarshalInto json.headers [] requestHeaders
           model, provider, messages, systemPrompt, userPrompt
           toolsUsed := unmarshalInto json.strings [] toolsUsed
           estimatedTokens, estimatedCost, riskScore, complexityScore, piiDetected
           piiTypes := unmarshalInto json.strings [] piiTypes
           policyDecision
           matchedRules := unmarshalInto json.rules none matchedRules
           blockReason, policyVersion, responseHash, responseStatus, responseContent, finishReason
           promptTokens, completionTokens, totalTokens, actualCost
           providerLatency := providerLatencyMs * 1000000
           providerModel, userID, apiKey, ipAddress
           error := errorVal
           errorType := errorTypeVal
           turnNumber, contextUsage }

/-- `scanRow` on a row of `SELECT *`; there have to be as many cells as destinations. -/
def scanRow (json : Codecs) (row : TableColumn → Cell) : Option EvidenceRecord :=
  match scanCells json (schema.map row) with
  | some (record, []) => some record
  | _ => none

/-! ## Reading back -/

theorem map_lookup_zip {α β : Type} [DecidableEq α] (d : β) (keys : List α) (values : List β) (hkeys : keys.Nodup)
    (hlen : keys.length = values.length) :
    keys.map (fun k => ((keys.zip values).lookup k).getD d) = values := by
  induction keys generalizing values with
  | nil =>
    cases values with
    | nil => rfl
    | cons v values => cases hlen
  | cons k keys ih =>
    cases values with
    | nil => cases hlen
    | cons v values =>
      obtain ⟨hk, hkeys⟩ := List.nodup_cons.1 hkeys
      rw [List.map_cons, List.zip_cons_cons, List.lookup_cons_self, Option.getD_some]
      refine congrArg (v :: ·) ((List.map_congr_left fun k' hk' => ?_).trans (ih values hkeys (Nat.succ.inj hlen)))
      have hne : (k' == k) = false := by
        rw [beq_eq_false_iff_ne]
        rintro rfl
        exact hk hk'
      rw [List.lookup_cons, hne]

theorem map_store (json : Codecs) (r : EvidenceRecord) : schema.map (store json r) = insertValues json r := by
  have hcolumns : insertColumns = schema := rfl
  have hlen : schema.length = (insertValues json r).length := rfl
  have hnodup : schema.Nodup := by decide
  unfold store
  rw [hcolumns, map_lookup_zip .null _ _ hnodup hlen]

section Scan

variable {α : Type} (rest : List Cell)

theorem bind_text (s : String) (k : String → Scan α) : (Scan.text >>= k) (.text s :: rest) = k s rest := rfl

theorem bind_time (t : Zoned) (k : Zoned → Scan α) : (Scan.time >>= k) (.time t :: rest) = k t rest := rfl

theorem bind_integer (n : Int) (k : Int → Scan α) : (Scan.integer >>= k) (.integer n :: rest) = k n rest := rfl

theorem bind_real (q : ℚ) (k : ℚ → Scan α) : (Scan.real >>= k) (.real q :: rest) = k q rest := rfl

theorem bind_boolean (b : Bool) (k : Bool → Scan α) : (Scan.boolean >>= k) (.boolean b :: rest) = k b rest := rfl

theorem bind_nullText (s : String) (k : String → Scan α) : (Scan.nullText >>= k) (nullable s :: rest) = k s rest := by
  unfold nullable
  split
  · next h =>
    subst h
    rfl
  · rfl

end Scan

theorem unmarshalInto_marshal {α : Type} {c : Codec α} {a : α} (h : c.Keeps a) (zero : α) :
    unmarshalInto c zero (c.marshal a) = a := by
  rw [unmarshalInto, if_pos h.1, h.2, Option.getD_some]

theorem scanCells_insertValues (json : Codecs) (r : EvidenceRecord) (hk : json.Keep r) :
    scanCells json (insertValues json r) = some (SQLite.scanRow r, []) := by
  simp only [scanCells, insertValues, bind_text, bind_time, bind_integer, bind_real, bind_boolean, bind_nullText,
    unmarshalInto_marshal hk.requestHeaders, unmarshalInto_marshal hk.toolsUsed, unmarshalInto_marshal hk.piiTypes,
    unmarshalInto_marshal hk.matchedRules]
  rfl

theorem scanRow_store (json : Codecs) (r : EvidenceRecord) (hk : json.Keep r) :
    scanRow json (store json r) = some (SQLite.scanRow r) := by
  rw [scanRow, map_store, scanCells_insertValues json r hk]

/-- A stored record is read back as it was exactly when it has no version info of its policy and its latency is a whole
number of milliseconds. -/
theorem scanRow_store_eq_iff (json : Codecs) (r : EvidenceRecord) (hk : json.Keep r) :
    scanRow json (store json r) = some r ↔ r.policyVersionInfo = none ∧ r.providerLatency % 1000000 = 0 := by
  rw [scanRow_store json r hk, Option.some_inj, scanRow_eq_iff]
  exact and_comm

/-! ## A record with version info -/

/-- Enough JSON for lists of one entry. -/
def codecs : Codecs where
  headers := ⟨fun headers => "".intercalate (headers.map (·.2)), fun s => some [("user-agent", s)]⟩
  strings := ⟨fun strings => "".intercalate strings, fun s => some [s]⟩
  rules := ⟨fun rules => "".intercalate ((rules.getD []).map (·.ruleID)),
    fun s => some (some [⟨"budget", s, "deny", "too expensive", 5⟩])⟩

def deniedRecord : EvidenceRecord :=
  { failedRecord with
    requestHeaders := [("user-agent", "curl")], toolsUsed := ["search"], piiTypes := ["email"], piiDetected := true
    matchedRules := some [⟨"budget", "daily", "deny", "too expensive", 5⟩], actualCost := 3 / 100
    providerLatency := 250000000, errorType := "error", turnNumber := 1 }

theorem codecs_keep : codecs.Keep deniedRecord :=
  ⟨⟨by decide, rfl⟩, ⟨by decide, rfl⟩, ⟨by decide, rfl⟩, ⟨by decide, rfl⟩⟩

theorem scanRow_store_deniedRecord : scanRow codecs (store codecs deniedRecord) = some deniedRecord :=
  (scanRow_store_eq_iff codecs deniedRecord codecs_keep).2 ⟨rfl, by decide⟩

/-- The version info of the policy is lost. -/
theorem versionInfo_lost :
    ∃ r : EvidenceRecord, codecs.Keep r ∧ r.policyVersionInfo = some ⟨"9fceb02", 0, "main", "policies", "ops", "init"⟩ ∧
      (∃ r', scanRow codecs (store codecs r) = some r' ∧ r'.policyVersionInfo = none) ∧
      scanRow codecs (store codecs r) ≠ some r := by
  have hk : codecs.Keep
      { deniedRecord with policyVersionInfo := some ⟨"9fceb02", 0, "main", "policies", "ops", "init"⟩ } :=
    ⟨codecs_keep.requestHeaders, codecs_keep.toolsUsed, codecs_keep.piiTypes, codecs_keep.matchedRules⟩
  refine ⟨_, hk, rfl, ⟨_, scanRow_store _ _ hk, rfl⟩, ?_⟩
  rw [scanRow_store _ _ hk]
  intro h
  exact absurd (congrArg EvidenceRecord.policyVersionInfo (Option.some.inj h)) (by decide)

end Jupiter.Evidence.Storage.SQLite.Row
