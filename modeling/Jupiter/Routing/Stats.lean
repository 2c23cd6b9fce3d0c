/-
`pkg/routing/stats.go` and the counting in `router_impl.go`: the routing statistics, under any interleaving of calls.

A call bumps the counters that `Router.countedRequest` lists. The strategy is any code that answers with a provider or
an error, so it may be interleaved with other calls in any way.
-/
import Jupiter.Lib.Machine
import Jupiter.Lib.Table
import Jupiter.Routing.Router

namespace Jupiter.Routing

open Jupiter.Lib

/-! ## The counters -/

structure RoutingStats where
  totalRequests : Int := 0
  requestsPerProvider : List (String × Int) := []
  strategyUseCount : List (String × Int) := []
  healthFilteredCount : Int := 0
  manualOverrideCount : Int := 0
  policyOverrideCount : Int := 0
  errors : Int := 0
  deriving DecidableEq

/-- `LoadOrStore(name, &atomic.Int64{})`. -/
def loadOrStore (counters : List (String × Int)) (name : String) : List (String × Int) :=
  Table.upsert name (·.getD 0) counters

def addOne (counters : List (String × Int)) (name : String) : List (String × Int) :=
  Table.upsert name (·.getD 0 + 1) counters

def RoutingStats.apply (s : RoutingStats) : Increment → RoutingStats
  | .total => { s with totalRequests := s.totalRequests + 1 }
  | .healthFiltered => { s with healthFilteredCount := s.healthFilteredCount + 1 }
  | .manualOverride => { s with manualOverrideCount := s.manualOverrideCount + 1 }
  | .policyOverride => { s with policyOverrideCount := s.policyOverrideCount + 1 }
  | .errors => { s with errors := s.errors + 1 }
  | .storeProvider name => { s with requestsPerProvider := loadOrStore s.requestsPerProvider name }
  | .addProvider name => { s with requestsPerProvider := addOne s.requestsPerProvider name }
  | .storeStrategy name => { s with strategyUseCount := loadOrStore s.strategyUseCount name }
  | .addStrategy name => { s with strategyUseCount := addOne s.strategyUseCount name }

/-! ## Runs -/

/-- One call of `RouteRequest`: what it finds and what its strategy answers. -/
structure RouteCall where
  router : Router
  cancelled : Bool
  read : List (String × Provider)
  req : RoutingRequest
  select : List Provider → Except SelectError Provider

def RouteCall.increments (c : RouteCall) : List Increment :=
  (c.router.countedRequest (fun available => (c.select available, ())) c.cancelled c.read c.req ()).bumps

/-- The statistics and, for every call made, the bumps it has not made yet. -/
structure Counting where
  stats : RoutingStats := {}
  calls : List (List Increment) := []

inductive CountingStep where
  | start (c : RouteCall)
  | bump (call : Nat)

namespace Counting

def step (s : Counting) : CountingStep → Option Counting
  | .start c => some { s with calls := s.calls ++ [c.increments] }
  | .bump i =>
    match s.calls[i]? with
    | some (x :: rest) => some { stats := s.stats.apply x, calls := s.calls.set i rest }
    | _ => none

theorem step_cases {s s' : Counting} {l : CountingStep} (h : s.step l = some s') :
    (∃ c : RouteCall, s' = { s with calls := s.calls ++ [c.increments] }) ∨
      ∃ i x rest, s.calls[i]? = some (x :: rest) ∧ s' = { stats := s.stats.apply x, calls := s.calls.set i rest } := by
  cases l with
  | start c =>
    cases h
    exact .inl ⟨c, rfl⟩
  | bump i =>
    simp only [step] at h
    split at h
    · rename_i x rest hi
      cases h
      exact .inr ⟨i, x, rest, hi, rfl⟩
    · cases h

end Counting

/-! ## Balances

A balance is a number read off the statistics that every bump changes by a fixed amount. With the bumps still to come
it moves only when a call starts, by what the whole call is worth. -/

def worth (w : Increment → Int) : List Increment → Int
  | [] => 0
  | x :: l => w x + worth w l

def pendingWorth (w : Increment → Int) : List (List Increment) → Int
  | [] => 0
  | call :: calls => worth w call + pendingWorth w calls

section Worth

variable (w : Increment → Int)

@[simp] theorem worth_cons (x : Increment) (l : List Increment) : worth w (x :: l) = w x + worth w l := rfl

theorem pendingWorth_snoc (call : List Increment) : ∀ calls : List (List Increment),
    pendingWorth w (calls ++ [call]) = pendingWorth w calls + worth w call
  | [] => by simp [pendingWorth]
  | c :: calls => by
    rw [List.cons_append, pendingWorth, pendingWorth, pendingWorth_snoc call calls, Int.add_assoc]

theorem pendingWorth_set {x : Increment} {rest : List Increment} : ∀ {calls : List (List Increment)} {i : Nat},
    calls[i]? = some (x :: rest) → pendingWorth w (calls.set i rest) + w x = pendingWorth w calls
  | c :: calls, 0, h => by
    cases h
    simp only [List.set_cons_zero, pendingWorth, worth_cons]
    omega
  | c :: calls, i + 1, h => by
    have ih : pendingWorth w (calls.set i rest) + w x = pendingWorth w calls := pendingWorth_set h
    simp only [List.set_cons_succ, pendingWorth]
    omega

theorem pendingWorth_idle : ∀ {calls : List (List Increment)}, (∀ c ∈ calls, c = []) → pendingWorth w calls = 0
  | [], _ => rfl
  | c :: calls, h => by
    rw [pendingWorth, h c (.head _), pendingWorth_idle fun c' hc' => h c' (.tail _ hc')]
    rfl

end Worth

/-- What holds of a balance at the start and is kept by adding what a call is worth holds once no call is in
progress. -/
theorem balance_of_idle {f : RoutingStats → Int} {w : Increment → Int} {P : Int → Prop} (hzero : P (f {}))
    (hbump : ∀ s x, f (RoutingStats.apply s x) = f s + w x)
    (hcall : ∀ (c : RouteCall) v, P v → P (v + worth w c.increments))
    {steps : List CountingStep} {s : Counting} (hrun : run Counting.step {} steps = some s)
    (hidle : ∀ c ∈ s.calls, c = []) : P (f s.stats) := by
  have hinv : P (f s.stats + pendingWorth w s.calls) := by
    refine run_invariant (I := fun s => P (f s.stats + pendingWorth w s.calls)) ?_ steps {} s ?_ hrun
    · intro s l s' hs hstep
      rcases Counting.step_cases hstep with ⟨c, rfl⟩ | ⟨i, x, rest, hi, rfl⟩
      · show P (f s.stats + pendingWorth w (s.calls ++ [c.increments]))
        rw [pendingWorth_snoc, ← Int.add_assoc]
        exact hcall c _ hs
      · have hsame : f (s.stats.apply x) + pendingWorth w (s.calls.set i rest) =
            f s.stats + pendingWorth w s.calls := by
          have hset := pendingWorth_set w hi
          rw [hbump]
          omega
        show P (f (s.stats.apply x) + pendingWorth w (s.calls.set i rest))
        rw [hsame]
        exact hs
    · show P (f {} + 0)
      rw [Int.add_zero]
      exact hzero
  rw [pendingWorth_idle w hidle, Int.add_zero] at hinv
  exact hinv

/-! ### What the calls are worth -/

/-- A request is counted as an error or under one provider. -/
def requestBalance (s : RoutingStats) : Int := s.totalRequests - s.errors - Table.total s.requestsPerProvider

def requestWorth : Increment → Int
  | .total => 1
  | .errors | .addProvider _ => -1
  | _ => 0

/-- A provider is counted with a strategy. -/
def strategyBalance (s : RoutingStats) : Int := Table.total s.strategyUseCount - Table.total s.requestsPerProvider

def strategyWorth : Increment → Int
  | .addStrategy _ => 1
  | .addProvider _ => -1
  | _ => 0

/-- A request is overridden at most once. -/
def overrideBalance (s : RoutingStats) : Int := s.totalRequests - (s.policyOverrideCount + s.manualOverrideCount)

def overrideWorth : Increment → Int
  | .total => 1
  | .manualOverride | .policyOverride => -1
  | _ => 0

namespace Router

variable {σ : Type}

/-- What follows the total counts one error or one provider with its strategy, and at most one override. -/
structure Settled (o : Outcome σ) : Prop where
  request : worth requestWorth o.bumps = -1
  strategy : worth strategyWorth o.bumps = 0
  override : -1 ≤ worth overrideWorth o.bumps

/-- The same without an override. -/
structure Direct (o : Outcome σ) : Prop extends Settled o where
  noOverride : worth overrideWorth o.bumps = 0

theorem Direct.fail (err : RoutingError) (m : σ) : Direct (fail err m) :=
  { request := rfl, strategy := rfl, override := show (-1 : Int) ≤ 0 by decide, noOverride := rfl }

theorem Direct.routed (result : RoutingResult) (m : σ) : Direct (routed result m) :=
  { request := rfl, strategy := rfl, override := show (-1 : Int) ≤ 0 by decide, noOverride := rfl }

theorem Direct.after {x : Increment} {o : Outcome σ} (hx : x = .policyOverride ∨ x = .manualOverride) (h : Direct o) :
    Settled (after [x] o) := by
  obtain ⟨⟨hrequest, hstrategy, -⟩, hoverride⟩ := h
  rcases hx with rfl | rfl <;>
    exact ⟨by simp [Router.after, requestWorth, hrequest], by simp [Router.after, strategyWorth, hstrategy],
      by simp [Router.after, overrideWorth, hoverride]⟩

section Settled

variable (r : Router) (select : List Provider → Except SelectError Provider × σ) (req : RoutingRequest)
  (available : List Provider) (m : σ)

theorem routeWithStrategy_direct : Direct (routeWithStrategy r select available) := by
  unfold routeWithStrategy
  split
  · exact .fail _ _
  · exact .routed _ _

theorem tryFallbacks_direct : ∀ (names attempted : List String), Direct (tryFallbacks req available m attempted names)
  | [], _ => .fail _ _
  | name :: rest, attempted => by
    unfold tryFallbacks
    split
    · exact .routed _ _
    · exact tryFallbacks_direct rest _

theorem routeWithPolicy_settled (target : Engine.RoutingTarget) : Settled (routeWithPolicy r req target available m) := by
  refine Direct.after (.inl rfl) ?_
  split
  · exact .routed _ _
  · split
    · exact tryFallbacks_direct ..
    · exact .fail _ _

theorem routeManual_settled : Settled (routeManual r select req available m) := by
  refine Direct.after (.inr rfl) ?_
  split
  · exact .routed _ _
  · split
    · exact routeWithStrategy_direct ..
    · exact .fail _ _

theorem routeAmong_settled : Settled (routeAmong r select req available m) := by
  unfold routeAmong
  split
  · exact routeWithPolicy_settled ..
  · split
    · exact routeManual_settled ..
    · exact (routeWithStrategy_direct ..).toSettled

theorem Settled.healthFiltered {o : Outcome σ} (h : Settled o) (p : Prop) [Decidable p] :
    Settled (Router.after (if p then [.healthFiltered] else []) o) := by
  obtain ⟨hrequest, hstrategy, hoverride⟩ := h
  unfold Router.after
  split
  · exact ⟨by simp [requestWorth, hrequest], by simp [strategyWorth, hstrategy], by simp [overrideWorth, hoverride]⟩
  · exact ⟨hrequest, hstrategy, hoverride⟩

theorem countedRequest_settled (cancelled : Bool) (read : List (String × Provider)) :
    ∃ o, Settled o ∧ countedRequest r select cancelled read req m = Router.after [.total] o := by
  refine ⟨_, ?_, rfl⟩
  split
  · exact (Direct.fail _ _).toSettled
  · dsimp only
    split
    · exact (Direct.fail _ _).toSettled
    · split
      · exact (Direct.fail _ _).toSettled
      · refine Settled.healthFiltered ?_ _
        split
        · exact (Direct.fail _ _).toSettled
        · exact routeAmong_settled ..

end Settled

end Router

theorem RouteCall.worth_increments (c : RouteCall) :
    worth requestWorth c.increments = 0 ∧ worth strategyWorth c.increments = 0 ∧
      0 ≤ worth overrideWorth c.increments := by
  obtain ⟨o, ⟨hrequest, hstrategy, hoverride⟩, heq⟩ :=
    c.router.countedRequest_settled (fun available => (c.select available, ())) c.req () c.cancelled c.read
  rw [RouteCall.increments, heq]
  refine ⟨?_, ?_, ?_⟩
  · show 1 + worth requestWorth o.bumps = 0
    omega
  · show 0 + worth strategyWorth o.bumps = 0
    omega
  · show 0 ≤ 1 + worth overrideWorth o.bumps
    omega

/-! ### What a bump changes -/

theorem total_loadOrStore (counters : List (String × Int)) (name : String) :
    Table.total (loadOrStore counters name) = Table.total counters := by
  rw [loadOrStore, Table.total_upsert]
  omega

theorem total_addOne (counters : List (String × Int)) (name : String) :
    Table.total (addOne counters name) = Table.total counters + 1 := by
  rw [addOne, Table.total_upsert]
  omega

theorem request_bump (s : RoutingStats) (x : Increment) :
    requestBalance (s.apply x) = requestBalance s + requestWorth x := by
  unfold requestBalance
  cases x <;> simp only [RoutingStats.apply, requestWorth, total_loadOrStore, total_addOne] <;> omega

theorem strategy_bump (s : RoutingStats) (x : Increment) :
    strategyBalance (s.apply x) = strategyBalance s + strategyWorth x := by
  unfold strategyBalance
  cases x <;> simp only [RoutingStats.apply, strategyWorth, total_loadOrStore, total_addOne] <;> omega

theorem override_bump (s : RoutingStats) (x : Increment) :
    overrideBalance (s.apply x) = overrideBalance s + overrideWorth x := by
  unfold overrideBalance
  cases x <;> simp only [RoutingStats.apply, overrideWorth] <;> omega

/-- Whenever no call is in progress, every request counts as one error or under one provider, each provider's request
has its strategy, and there are at most as many overrides as requests. -/
theorem routing_stats_balance (steps : List CountingStep) (s : Counting)
    (hrun : run Counting.step {} steps = some s) (hidle : ∀ call ∈ s.calls, call = []) :
    s.stats.totalRequests = s.stats.errors + Table.total s.stats.requestsPerProvider ∧
      Table.total s.stats.strategyUseCount = Table.total s.stats.requestsPerProvider ∧
      s.stats.policyOverrideCount + s.stats.manualOverrideCount ≤ s.stats.totalRequests := by
  have hrequest : requestBalance s.stats = 0 :=
    balance_of_idle (P := (· = 0)) rfl request_bump (fun c v hv => by rw [hv, c.worth_increments.1]; rfl) hrun hidle
  have hstrategy : strategyBalance s.stats = 0 :=
    balance_of_idle (P := (· = 0)) rfl strategy_bump (fun c v hv => by rw [hv, c.worth_increments.2.1]; rfl) hrun hidle
  have hoverride : 0 ≤ overrideBalance s.stats :=
    balance_of_idle (P := (0 ≤ ·)) (Int.le_refl _) override_bump
      (fun c v hv => Int.add_nonneg hv c.worth_increments.2.2) hrun hidle
  unfold requestBalance at hrequest
  unfold strategyBalance at hstrategy
  unfold overrideBalance at hoverride
  omega

def onlyProviderCall (cancelled : Bool) : RouteCall where
  router :=
    { pool := [("a", ⟨0, "a", true⟩)], modelMapping := [], strategy := .roundRobin 0 [], fallbackEnabled := false
      distinct := by decide }
  cancelled := cancelled
  read := [("a", ⟨0, "a", true⟩)]
  req := { preferredProvider := "a" }
  select := fun _ => .error (.noProviders "round-robin selection")

theorem routing_stats_balance_two :
    ∃ s, run Counting.step {} [.start (onlyProviderCall false), .start (onlyProviderCall true), .bump 0, .bump 1,
        .bump 0, .bump 0, .bump 0, .bump 1, .bump 0, .bump 0] = some s ∧
      s.stats.errors = 1 ∧ s.stats.totalRequests = s.stats.errors + Table.total s.stats.requestsPerProvider := by
  have hrun : run Counting.step {} [.start (onlyProviderCall false), .start (onlyProviderCall true), .bump 0, .bump 1,
      .bump 0, .bump 0, .bump 0, .bump 1, .bump 0, .bump 0] =
      some ⟨⟨2, [("a", 1)], [("manual", 1)], 0, 1, 0, 1⟩, [[], []]⟩ := by
    rfl
  exact ⟨_, hrun, rfl, (routing_stats_balance _ _ hrun (by decide)).1⟩

end Jupiter.Routing
