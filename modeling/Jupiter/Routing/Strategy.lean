/-
`pkg/routing/strategies`: round-robin, manual, health-based and sticky selection, nested to any depth.

A strategy is a tree; the counters and caches it changes are in a store that strategies refer to by number, so
two strategies may share one. What the environment decides in a call (the readings of the clock, the order in
which the entries of a cache are read) comes from `Env`, one after the other.
-/
import Jupiter.Go.Int64
import Jupiter.Routing.Types

namespace Jupiter.Routing

open Jupiter.Go

/-- The successive readings of the clock and the successive orders of map iteration. -/
structure Env where
  now : Nat → Time
  order : Nat → List (String × StickyEntry) → List (String × StickyEntry)
  order_perm : ∀ n l, (order n l).Perm l

structure Mem where
  caches : Nat → StickyCache
  counters : Nat → Int
  ticks : Nat := 0

inductive Strategy where
  | roundRobin (counter : Nat) (weights : List (String × Int))
  | manual (fallbackStrategy : Option Strategy) (allowFallback : Bool)
  | healthBased (wrappedStrategy : Strategy) (requireHealthy : Bool)
  | sticky (cache : Nat) (fallbackStrategy : Strategy) (keyType : String)

namespace Strategy

def getName : Strategy → String
  | .roundRobin .. => "round-robin"
  | .manual .. => "manual"
  | .healthBased .. => "health-based"
  | .sticky .. => "sticky"

def findProvider (available : List Provider) (name : String) : Option Provider :=
  available.find? (·.name == name)

/-! ## Round-robin -/

def getWeight (weights : List (String × Int)) (providerName : String) : Int :=
  (weights.lookup providerName).getD 1

def buildWeightedList (weights : List (String × Int)) (providerList : List Provider) : List Provider :=
  if weights.isEmpty then providerList
  else providerList.flatMap fun p => List.replicate (getWeight weights p.name).toNat p

/-- The weighted list, or the list itself when every weight is zero. -/
def weightedProviders (weights : List (String × Int)) (available : List Provider) : List Provider :=
  let weighted := buildWeightedList weights available
  if weighted.isEmpty then available else weighted

/-- The counter after one call that starts at `counter`, and the count the call uses. -/
def nextCount (counter : Int) : Int × Int :=
  let added := wrap64 (counter + 1)
  let count := wrap64 (added - 1)
  if count ≥ 1000000000 then (0, 0) else (added, count)

/-- `slice[count % len(slice)]`; the remainder has the sign of the count. -/
def indexed (slice : List Provider) (count : Int) : Except SelectError Provider :=
  let index := count.tmod slice.length
  if index < 0 then .error .panics
  else
    match slice[index.toNat]? with
    | some p => .ok p
    | none => .error .panics

def selectRoundRobin (counter : Nat) (weights : List (String × Int)) (available : List Provider) (m : Mem) :
    Except SelectError Provider × Mem :=
  match available with
  | [] => (.error (.noProviders "round-robin selection"), m)
  | [p] => (.ok p, m)
  | _ =>
    let next := nextCount (m.counters counter)
    (indexed (weightedProviders weights available) next.2,
      { m with counters := fun i => if i = counter then next.1 else m.counters i })

/-! ## Sticky -/

/-- `NewStickyStrategy` makes an empty key type `"user"`, which is also what any other one means. -/
def buildCacheKey (keyType : String) (req : RoutingRequest) : String :=
  if keyType = "api_key" then req.apiKey
  else if keyType = "session" then req.sessionID
  else if keyType = "composite" then
    if req.user ≠ "" then "user:" ++ req.user
    else if req.apiKey ≠ "" then "apikey:" ++ req.apiKey
    else if req.sessionID ≠ "" then "session:" ++ req.sessionID
    else ""
  else req.user

section Calls

variable (env : Env)

def setCache (m : Mem) (i : Nat) (c : StickyCache) : Mem :=
  { m with caches := fun j => if j = i then c else m.caches j }

def cacheGet (i : Nat) (key : String) (m : Mem) : Option String × Mem :=
  let r := (m.caches i).get (env.now m.ticks) (env.now (m.ticks + 1)) key
  (r.1, { setCache m i r.2 with ticks := m.ticks + 2 })

def cacheSet (i : Nat) (key providerName : String) (m : Mem) : Mem :=
  let c := m.caches i
  { setCache m i (c.set (env.order m.ticks c.entries) (env.now m.ticks) key providerName) with ticks := m.ticks + 1 }

/-! ## Selection -/

def filterHealthy (providerList : List Provider) : List Provider := providerList.filter (·.isHealthy)

def selectProvider : Strategy → RoutingRequest → List Provider → Mem → Except SelectError Provider × Mem
  | .roundRobin counter weights, _, available, m => selectRoundRobin counter weights available m
  | .manual none _, req, available, m =>
    match available with
    | [] => (.error (.noProviders "manual selection"), m)
    | first :: _ =>
      if req.preferredProvider = "" then (.ok first, m)
      else
        match findProvider available req.preferredProvider with
        | some p => (.ok p, m)
        | none => (.error (.notFound req.preferredProvider), m)
  | .manual (some fallbackStrategy) allowFallback, req, available, m =>
    if available.isEmpty then (.error (.noProviders "manual selection"), m)
    else if req.preferredProvider = "" then selectProvider fallbackStrategy req available m
    else
      match findProvider available req.preferredProvider with
      | some p => (.ok p, m)
      | none =>
        if allowFallback then selectProvider fallbackStrategy req available m
        else (.error (.notFound req.preferredProvider), m)
  | .healthBased wrappedStrategy requireHealthy, req, available, m =>
    if available.isEmpty then (.error (.noProviders "health-based routing"), m)
    else if (filterHealthy available).isEmpty then
      if requireHealthy then (.error (.noHealthyProviders available.length), m)
      else selectProvider wrappedStrategy req available m
    else selectProvider wrappedStrategy req (filterHealthy available) m
  | .sticky cache fallbackStrategy keyType, req, available, m =>
    if available.isEmpty then (.error (.noProviders "sticky routing"), m)
    else if buildCacheKey keyType req = "" then selectProvider fallbackStrategy req available m
    else
      let (cached, m) := cacheGet env cache (buildCacheKey keyType req) m
      match cached.bind (findProvider available) with
      | some p => (.ok p, m)
      | none =>
        match selectProvider fallbackStrategy req available m with
        | (.error err, m) => (.error err, m)
        | (.ok p, m) => (.ok p, cacheSet env cache (buildCacheKey keyType req) p.name m)

end Calls

end Strategy

end Jupiter.Routing
