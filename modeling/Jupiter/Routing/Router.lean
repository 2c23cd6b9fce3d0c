/-
`pkg/routing/router_impl.go` and `selector.go`: the provider selector and `RouteRequest`.

The pool is read in some order in each call. What the statistics become is in `Routing.Stats`. Lists of names in errors
stand in the order of the pool.
-/
import Jupiter.Routing.Strategy

namespace Jupiter.Routing

structure Router where
  pool : List (String × Provider)
  modelMapping : List (String × List String)
  strategy : Strategy
  fallbackEnabled : Bool
  distinct : (pool.map (·.1)).Nodup

/-! ## The selector -/

def filterByHealth (providerList : List Provider) : List Provider := providerList.filter (·.isHealthy)

def filterByModel (modelMapping : List (String × List String)) (providerList : List Provider) (model : String) :
    List Provider :=
  if model = "" then providerList
  else
    match modelMapping.lookup model with
    | none => providerList
    | some providerNames => providerList.filter fun p => providerNames.contains p.name

/-! ## The router

The functions of `RouteRequest` give the counters they bump on the way, in order, with the result. `select` is what the
strategy answers for a list of providers and the memory it leaves, `m` the memory that is left without it. -/

inductive Increment where
  | total
  | healthFiltered
  | manualOverride
  | policyOverride
  | errors
  | storeProvider (providerName : String)
  | addProvider (providerName : String)
  | storeStrategy (strategyName : String)
  | addStrategy (strategyName : String)
  deriving DecidableEq

def incrementProvider (providerName : String) : List Increment :=
  [.storeProvider providerName, .addProvider providerName]

def incrementStrategy (strategyName : String) : List Increment :=
  [.storeStrategy strategyName, .addStrategy strategyName]

structure Outcome (σ : Type) where
  bumps : List Increment
  result : Except RoutingError RoutingResult
  mem : σ

namespace Router

variable {σ : Type}

def after (bumps : List Increment) (o : Outcome σ) : Outcome σ := { o with bumps := bumps ++ o.bumps }

def fail (err : RoutingError) (m : σ) : Outcome σ := ⟨[.errors], .error err, m⟩

def routed (result : RoutingResult) (m : σ) : Outcome σ :=
  ⟨incrementProvider result.providerName ++ incrementStrategy result.strategy, .ok result, m⟩

@[simp] theorem after_result (bumps : List Increment) (o : Outcome σ) : (after bumps o).result = o.result := rfl

@[simp] theorem fail_result (err : RoutingError) (m : σ) : (fail err m).result = .error err := rfl

section Calls

variable (r : Router) (select : List Provider → Except SelectError Provider × σ)

def routeWithStrategy (available : List Provider) : Outcome σ :=
  match select available with
  | (.error err, m) => fail (.strategyFailed err) m
  | (.ok p, m) =>
    routed
      { provider := p, providerName := p.name, strategy := r.strategy.getName,
        reason := "selected by " ++ r.strategy.getName ++ " strategy", isHealthy := p.isHealthy,
        isFallback := false, attemptedProviders := [p.name] } m

/-- `attempted` are the fallbacks tried before. -/
def tryFallbacks (req : RoutingRequest) (available : List Provider) (m : σ) (attempted : List String) :
    List String → Outcome σ
  | [] => fail (.allProvidersFailed attempted req.model "no fallback providers available") m
  | fallbackName :: rest =>
    match Strategy.findProvider available fallbackName with
    | some p =>
      routed
        { provider := p, providerName := fallbackName, strategy := "fallback", reason := "fallback provider",
          isHealthy := p.isHealthy, isFallback := true, attemptedProviders := attempted ++ [fallbackName] } m
    | none => tryFallbacks req available m (attempted ++ [fallbackName]) rest

def routeWithPolicy (req : RoutingRequest) (target : Engine.RoutingTarget) (available : List Provider) (m : σ) :
    Outcome σ :=
  after [.policyOverride]
    (match Strategy.findProvider available target.provider with
    | some p =>
      routed
        { provider := p, providerName := target.provider, strategy := "policy", reason := "policy route action",
          isHealthy := p.isHealthy, isFallback := false, attemptedProviders := [target.provider] } m
    | none =>
      if r.fallbackEnabled && !target.fallback.isEmpty then tryFallbacks req available m [] target.fallback
      else fail (.providerNotFound target.provider (available.map (·.name))) m)

def routeManual (req : RoutingRequest) (available : List Provider) (m : σ) : Outcome σ :=
  after [.manualOverride]
    (match Strategy.findProvider available req.preferredProvider with
    | some p =>
      routed
        { provider := p, providerName := req.preferredProvider, strategy := "manual",
          reason := "explicit provider selection", isHealthy := p.isHealthy, isFallback := false,
          attemptedProviders := [req.preferredProvider] } m
    | none =>
      if r.fallbackEnabled then routeWithStrategy r select available
      else fail (.providerNotFound req.preferredProvider (available.map (·.name))) m)

def routeAmong (req : RoutingRequest) (available : List Provider) (m : σ) : Outcome σ :=
  match req.routingTarget with
  | some target => routeWithPolicy r req target available m
  | none =>
    if req.preferredProvider ≠ "" then routeManual r select req available m
    else routeWithStrategy r select available

/-- The pool is read in the order `read`, and `cancelled` is whether the context is. -/
def countedRequest (cancelled : Bool) (read : List (String × Provider)) (req : RoutingRequest) (m : σ) : Outcome σ :=
  after [.total]
    (if cancelled then fail .cancelled m
    else
      let available := read.map (·.2)
      if available.isEmpty then fail .noProvidersConfigured m
      else
        let capable := filterByModel r.modelMapping available req.model
        if capable.isEmpty then fail (.modelNotSupported req.model (r.modelMapping.map (·.1))) m
        else
          let healthy := filterByHealth capable
          after (if healthy.length < capable.length then [.healthFiltered] else [])
            (if healthy.isEmpty then fail (.noHealthyProviders (r.pool.map (·.1)) req.model) m
            else routeAmong r select req healthy m))

end Calls

variable (env : Env) (r : Router)

/-- The router's own strategy in a memory. -/
def selects (req : RoutingRequest) (m : Mem) (available : List Provider) : Except SelectError Provider × Mem :=
  r.strategy.selectProvider env req available m

/-- `RouteRequest`, without its counters. -/
def routeRequest (cancelled : Bool) (read : List (String × Provider)) (req : RoutingRequest) (m : Mem) :
    Except RoutingError RoutingResult × Mem :=
  let o := countedRequest r (selects env r req m) cancelled read req m
  (o.result, o.mem)

end Router

end Jupiter.Routing
