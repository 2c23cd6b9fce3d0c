/-
`pkg/evidence/storage` and `pkg/evidence/query`.

The memory backend filters with Go tests, the SQLite backend with a WHERE clause over its columns. Which order a Go map
is read in, and which order SQLite gives rows that are equal in the sort key, is left open: `Returns` holds of every
result a backend can give.
-/
import Jupiter.Evidence.Pruner
import Jupiter.Go.Json
import Jupiter.Lib.Sql

namespace Jupiter.Evidence.Storage

open Jupiter.Go Jupiter.Lib

/-! ## Queries -/

/-- `evidence.Query`; `Evidence.Query` is the part of it that the pruner sets. -/
structure Query where
  startTime : Option Zoned := none
  endTime : Option Zoned := none
  userID : String := ""
  apiKey : String := ""
  provider : String := ""
  model : String := ""
  policyID : String := ""
  ruleID : String := ""
  policyDecision : String := ""
  minCost : Option ℚ := none
  maxCost : Option ℚ := none
  minTokens : Option Int := none
  maxTokens : Option Int := none
  status : String := ""
  limit : Int := 0
  offset : Int := 0
  sortBy : String := ""
  sortOrder : String := ""

def defaultLimit : Int := 100

def maxLimit : Int := 10000

inductive Column where
  | requestTime
  | recordedTime
  | responseTime
  | actualCost
  | totalTokens
  | providerLatency
  | userID
  | apiKey
  | provider
  | model
  | policyDecision
  | matchedRules
  | error
  deriving DecidableEq

/-- `ValidSortFields`, with the column each names. -/
def validSortFields : List (String × Column) :=
  [("request_time", .requestTime), ("recorded_time", .recordedTime), ("response_time", .responseTime),
   ("actual_cost", .actualCost), ("total_tokens", .totalTokens), ("provider_latency", .providerLatency)]

/-- `ValidSortOrders`, with whether each is descending. -/
def validSortOrders : List (String × Bool) := [("asc", false), ("desc", true)]

def validStatuses : List String := ["success", "error", "blocked"]

/-- `Validate`; the text is that of the error wrapped in the query error. -/
def validate (q : Query) : Except String Unit :=
  if q.limit < 0 then .error ("limit must be >= 0, got " ++ toString q.limit)
  else if q.limit > maxLimit then
    .error ("limit must be <= " ++ toString maxLimit ++ ", got " ++ toString q.limit)
  else if q.offset < 0 then .error ("offset must be >= 0, got " ++ toString q.offset)
  else if q.sortBy ≠ "" ∧ validSortFields.lookup q.sortBy = none then
    .error ("invalid sort field: " ++ q.sortBy)
  else if q.sortOrder ≠ "" ∧ validSortOrders.lookup q.sortOrder = none then
    .error ("invalid sort order: " ++ q.sortOrder ++ " (must be 'asc' or 'desc')")
  else if q.startTime.any fun s => q.endTime.any fun e => decide (s.instant > e.instant) then
    .error "start_time must be before end_time"
  else if q.minCost.any fun a => q.maxCost.any fun b => decide (a > b) then
    .error "min_cost must be <= max_cost"
  else if q.minTokens.any fun a => q.maxTokens.any fun b => decide (a > b) then
    .error "min_tokens must be <= max_tokens"
  else if q.status ≠ "" ∧ !validStatuses.contains q.status then
    .error ("invalid status: " ++ q.status ++ " (must be 'success', 'error', or 'blocked')")
  else .ok ()

def applyDefaults (q : Query) : Query :=
  { q with
    limit := if q.limit = 0 then defaultLimit else q.limit
    sortBy := if q.sortBy = "" then "request_time" else q.sortBy
    sortOrder := if q.sortOrder = "" then "desc" else q.sortOrder }

/-! ## The stored records -/

/-- What a backend holds: a map by ID, or a table with the ID as primary key. -/
structure Store where
  records : List EvidenceRecord
  distinct : (records.map (·.id)).Nodup

def Store.without (s : Store) (p : EvidenceRecord → Bool) : Store where
  records := s.records.filter (!p ·)
  distinct := (List.filter_sublist.map _).nodup s.distinct

/-! ## MemoryStorage -/

namespace Memory

/-- One early return for each filter. The policy and rule IDs of the query are not looked at. -/
def matchesQuery (record : EvidenceRecord) (query : Query) : Bool :=
  !(query.startTime.any fun t => decide (record.requestTime.instant < t.instant)) &&
  !(query.endTime.any fun t => decide (record.requestTime.instant > t.instant)) &&
  !(query.userID != "" && record.userID != query.userID) &&
  !(query.apiKey != "" && record.apiKey != query.apiKey) &&
  !(query.provider != "" && record.provider != query.provider) &&
  !(query.model != "" && record.model != query.model) &&
  !(query.policyDecision != "" && record.policyDecision != query.policyDecision) &&
  !(query.minCost.any fun c => decide (record.actualCost < c)) &&
  !(query.maxCost.any fun c => decide (record.actualCost > c)) &&
  !(query.minTokens.any fun n => decide (record.totalTokens < n)) &&
  !(query.maxTokens.any fun n => decide (record.totalTokens > n)) &&
  (if query.status = "success" then record.error == ""
   else if query.status = "error" then record.error != ""
   else if query.status = "blocked" then record.policyDecision == "block"
   else true)

def count (s : Store) (query : Query) : Nat := s.records.countP (matchesQuery · query)

def delete (s : Store) (query : Query) : Nat × Store := (count s query, s.without (matchesQuery · query))

/-- `Query`, the map being read in the order `read`. An offset that `Validate` accepts is not negative. -/
def query (read : List EvidenceRecord) (query : Query) : List EvidenceRecord :=
  let results := read.filter (matchesQuery · query)
  let start := query.offset.toNat
  if start > results.length then []
  else if query.limit > 0 then (results.drop start).take (min (start + query.limit.toNat) results.length - start)
  else results

def Returns (s : Store) (query : Query) (out : List EvidenceRecord) : Prop :=
  ∃ read : List EvidenceRecord, read.Perm s.records ∧ out = Memory.query read query

end Memory

/-! ## SQLiteStorage -/

namespace SQLite

def marshalRule (r : MatchedRuleRecord) : String :=
  Json.object [("policy_id", Json.string r.policyID), ("rule_id", Json.string r.ruleID),
    ("action", Json.string r.action), ("reason", Json.string r.reason), ("evaluation_time", Json.int r.evaluationTime)]

def milliseconds (d : Duration) : Int := d.tdiv 1000000

/-- The columns of the row that `Store` inserts; the driver binds a time as a text, and an empty error is NULL. -/
def columns (r : EvidenceRecord) : Column → Sql.Value
  | .requestTime => .text r.requestTime.text
  | .recordedTime => .text r.recordedTime.text
  | .responseTime => .text r.responseTime.text
  | .actualCost => .number r.actualCost
  | .totalTokens => .number r.totalTokens
  | .providerLatency => .number (milliseconds r.providerLatency)
  | .userID => .text r.userID
  | .apiKey => .text r.apiKey
  | .provider => .text r.provider
  | .model => .text r.model
  | .policyDecision => .text r.policyDecision
  | .matchedRules => .text (Json.slice marshalRule r.matchedRules)
  | .error => if r.error = "" then .null else .text r.error

/-- The record `scanRow` reads from the row that `Store` inserted for `r`. -/
def scanRow (r : EvidenceRecord) : EvidenceRecord :=
  { r with providerLatency := milliseconds r.providerLatency * 1000000, policyVersionInfo := none }

def whenSet (column : Column) (s : String) : List (Sql.Condition Column) :=
  if s = "" then [] else [⟨column, .eq (.text s)⟩]

def whenGiven {α : Type} (column : Column) (x : Option α) (test : α → Sql.Test) : List (Sql.Condition Column) :=
  x.toList.map fun a => ⟨column, test a⟩

def whenContains (s : String) : List (Sql.Condition Column) :=
  if s = "" then [] else [⟨.matchedRules, .like ("%" ++ s ++ "%")⟩]

def buildWhereClause (query : Query) : List (Sql.Condition Column) :=
  whenGiven .requestTime query.startTime (fun t => .ge (.text t.text)) ++
  whenGiven .requestTime query.endTime (fun t => .le (.text t.text)) ++
  whenSet .userID query.userID ++
  whenSet .apiKey query.apiKey ++
  whenSet .provider query.provider ++
  whenSet .model query.model ++
  whenSet .policyDecision query.policyDecision ++
  whenContains query.policyID ++
  whenContains query.ruleID ++
  whenGiven .actualCost query.minCost (fun c => .ge (.number c)) ++
  whenGiven .actualCost query.maxCost (fun c => .le (.number c)) ++
  whenGiven .totalTokens query.minTokens (fun n => .ge (.number n)) ++
  whenGiven .totalTokens query.maxTokens (fun n => .le (.number n)) ++
  (if query.status = "success" then [⟨.error, .isNull⟩]
   else if query.status = "error" then [⟨.error, .isNotNull⟩]
   else if query.status = "blocked" then [⟨.policyDecision, .eq (.text "block")⟩]
   else [])

def selected (query : Query) (r : EvidenceRecord) : Bool := Sql.passes (buildWhereClause query) (columns r)

def count (s : Store) (query : Query) : Nat := s.records.countP (selected query)

def delete (s : Store) (query : Query) : Nat × Store := (count s query, s.without (selected query))

/-- The column and direction of ORDER BY; `none` where `Validate` refuses the names. -/
def orderBy (query : Query) : Option (Column × Bool) := do
  let column ← validSortFields.lookup (if query.sortBy = "" then "request_time" else query.sortBy)
  let descending ← validSortOrders.lookup (if query.sortOrder = "" then "desc" else query.sortOrder)
  return (column, descending)

def limit (query : Query) : Nat := if query.limit > 0 then query.limit.toNat else 100

def Returns (s : Store) (query : Query) (out : List EvidenceRecord) : Prop :=
  ∃ column descending page, orderBy query = some (column, descending) ∧
    Sql.Selects (s.records.filter (selected query)) (columns · column) descending (limit query) query.offset.toNat
      page ∧
    out = page.map scanRow

end SQLite

end Jupiter.Evidence.Storage
