/-
`pkg/routing`: requests, results and errors of the router, and the sticky cache.

Of a provider the router reads the name and the health; `id` tells instances apart. A map is a list of pairs
with distinct keys, and every loop over one is given the order it is read in.
-/
import Jupiter.Engine.Types
import Jupiter.Lib.Table

namespace Jupiter.Routing

open Jupiter.Go Jupiter.Lib

structure Provider where
  id : Nat
  name : String
  isHealthy : Bool
  deriving DecidableEq

/-- `RoutingRequest`, without the metadata, which routing does not look at. -/
structure RoutingRequest where
  requestID : String := ""
  model : String := ""
  user : String := ""
  apiKey : String := ""
  sessionID : String := ""
  preferredProvider : String := ""
  policyDecision : Option Engine.PolicyDecision := none

/-- `RoutingResult`, without the metadata, which is always a new empty map. -/
structure RoutingResult where
  provider : Provider
  providerName : String
  strategy : String
  reason : String
  isHealthy : Bool
  isFallback : Bool
  attemptedProviders : List String
  deriving DecidableEq

/-- "no providers available for …", "no healthy providers available (total providers: …)", "requested provider … not
found in available providers", or an index out of the bounds of a slice. -/
inductive SelectError where
  | noProviders (for_ : String)
  | noHealthyProviders (total : Nat)
  | notFound (preferredProvider : String)
  | panics
  deriving DecidableEq

inductive RoutingError where
  | cancelled
  | noProvidersConfigured
  | modelNotSupported (model : String) (availableModels : List String)
  | noHealthyProviders (attemptedProviders : List String) (model : String)
  | providerNotFound (providerName : String) (availableProviders : List String)
  | allProvidersFailed (attemptedProviders : List String) (model : String) (lastError : String)
  | strategyFailed (err : SelectError)
  deriving DecidableEq

def RoutingRequest.routingTarget (req : RoutingRequest) : Option Engine.RoutingTarget :=
  req.policyDecision.bind (·.routingTarget)

/-! ## The sticky cache -/

structure StickyEntry where
  providerName : String
  expiresAt : Time
  createdAt : Time
  accessCount : Int
  lastAccessedAt : Time
  deriving DecidableEq

structure StickyCache where
  entries : List (String × StickyEntry)
  ttl : Duration
  maxEntries : Int

namespace StickyCache

def entry (c : StickyCache) (key : String) : Option StickyEntry := c.entries.lookup key

def expired (c : StickyCache) (now : Time) (e : StickyEntry) : Bool := decide (c.ttl > 0) && decide (now > e.expiresAt)

def put (c : StickyCache) (key : String) (e : StickyEntry) : StickyCache :=
  { c with entries := (key, e) :: Table.erase key c.entries }

def delete (c : StickyCache) (key : String) : StickyCache :=
  { c with entries := Table.erase key c.entries }

/-- `Get`: the provider name of an entry that has not expired, whose access is recorded at `accessed`. -/
def get (c : StickyCache) (now accessed : Time) (key : String) : Option String × StickyCache :=
  match c.entry key with
  | none => (none, c)
  | some e =>
    if c.expired now e then (none, c)
    else (some e.providerName, c.put key { e with lastAccessedAt := accessed, accessCount := e.accessCount + 1 })

/-- The loop of `evictLRU`: the key and the time of the least recent entry, of those `read` in this order. -/
def leastRecent (read : List (String × StickyEntry)) : String × Time :=
  read.foldl (fun oldest x =>
    if oldest.1 = "" ∨ x.2.lastAccessedAt < oldest.2 then (x.1, x.2.lastAccessedAt) else oldest) ("", 0)

def evictLRU (c : StickyCache) (read : List (String × StickyEntry)) : StickyCache :=
  let oldestKey := (leastRecent read).1
  if oldestKey ≠ "" then c.delete oldestKey else c

/-- `Set`; the entries are read in the order `read` when one has to be evicted. -/
def set (c : StickyCache) (read : List (String × StickyEntry)) (now : Time) (key providerName : String) : StickyCache :=
  let c' := if c.maxEntries > 0 ∧ (c.entries.length : Int) ≥ c.maxEntries ∧ c.entry key = none then c.evictLRU read else c
  c'.put key
    { providerName, expiresAt := if c.ttl > 0 then now + c.ttl else 0, createdAt := now, lastAccessedAt := now,
      accessCount := 1 }

def clear (c : StickyCache) : StickyCache := { c with entries := [] }

def removeExpired (c : StickyCache) (now : Time) : StickyCache :=
  if c.ttl = 0 then c else { c with entries := c.entries.filter fun x => !decide (now > x.2.expiresAt) }

/-! ### Entries after an update -/

variable (c : StickyCache)

@[simp] theorem entry_put_self (key : String) (e : StickyEntry) : (c.put key e).entry key = some e := by
  simp [entry, put]

theorem entry_put_ne {key k : String} (h : k ≠ key) (e : StickyEntry) : (c.put key e).entry k = c.entry k := by
  rw [entry, put, Table.lookup_cons_ite, if_neg (Ne.symm h), Table.lookup_erase_ne h, entry]

end StickyCache

end Jupiter.Routing
