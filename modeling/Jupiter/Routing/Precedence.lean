/-
Which provider `RouteRequest` uses: the order of precedence, stated over the names of the eligible providers.

A policy target comes first, then, with fallback enabled, its fallbacks in their order; without a target the preferred
provider, and then the strategy, which a preferred provider that is not eligible leaves to decide only with fallback
enabled.
-/
import Jupiter.Routing.Eligible

namespace Jupiter.Routing

/-! ## The order of precedence -/

/-- How the provider is found. -/
inductive Rule where
  /-- The provider with the name, by the strategy that the result names. -/
  | named (strategy name : String)
  /-- The choice of the configured strategy. -/
  | strategy
  deriving DecidableEq

/-- The rule that applies when the names of the eligible providers are those for which `eligible` is true. -/
def ruleFor (fallbackEnabled : Bool) (eligible : String → Bool) (req : RoutingRequest) : Option Rule :=
  match req.routingTarget with
  | some target =>
    if eligible target.provider then some (.named "policy" target.provider)
    else if fallbackEnabled then (target.fallback.find? eligible).map (.named "fallback")
    else none
  | none =>
    if req.preferredProvider = "" then some .strategy
    else if eligible req.preferredProvider then some (.named "manual" req.preferredProvider)
    else if fallbackEnabled then some .strategy
    else none

def RoutingRequest.wantedModel (req : RoutingRequest) : String :=
  match req.routingTarget with
  | some target => if target.model = "" then req.model else target.model
  | none => req.model

/-- A provider that is configured, healthy and supports the model. -/
def Usable (r : Router) (req : RoutingRequest) (p : Provider) : Prop := Eligible r { req with model := req.wantedModel } p

namespace Router

variable (env : Env) (r : Router) {req : RoutingRequest} {available : List Provider} {m : Mem}

/-- The result is the one the rule asks for: a provider of the list with the name, or the strategy's choice from the
list. -/
def Follows (req : RoutingRequest) (available : List Provider) (m : Mem) (out : Except RoutingError RoutingResult) :
    Option Rule → Prop
  | some (.named strategy name) =>
    ∃ result, out = .ok result ∧ result.strategy = strategy ∧ result.providerName = name ∧
      result.provider.name = name ∧ result.provider ∈ available
  | some .strategy =>
    match (r.strategy.selectProvider env req available m).1 with
    | .ok p => ∃ result, out = .ok result ∧ result.strategy = r.strategy.getName ∧ result.provider = p
    | .error err => out = .error (.strategyFailed err)
  | none => True

def hasNamed (available : List Provider) (name : String) : Bool := available.any (·.name == name)

theorem hasNamed_eq (name : String) : hasNamed available name = (Strategy.findProvider available name).isSome :=
  (List.isSome_find? ..).symm

theorem routeWithStrategy_follows :
    Follows env r req available m (routeWithStrategy r (selects env r req m) available).result (some .strategy) := by
  unfold Follows routeWithStrategy selects
  rcases r.strategy.selectProvider env req available m with ⟨_ | p, m'⟩
  · rfl
  · exact ⟨_, rfl, rfl, rfl⟩

/-- The first of the names that a provider of the list has. -/
theorem tryFallbacks_follows (attempted names : List String) :
    Follows env r req available m (tryFallbacks req available m attempted names).result
      ((names.find? (hasNamed available)).map (.named "fallback")) := by
  induction names generalizing attempted with
  | nil => trivial
  | cons name names ih =>
    rw [tryFallbacks]
    cases hfind : Strategy.findProvider available name with
    | some p =>
      have hnamed : hasNamed available name = true := by simp [hasNamed_eq, hfind]
      obtain ⟨hmem, hname⟩ := findProvider_some hfind
      rw [List.find?_cons_of_pos hnamed]
      exact ⟨_, rfl, rfl, rfl, hname, hmem⟩
    | none =>
      have hnamed : hasNamed available name = false := by simp [hasNamed_eq, hfind]
      rw [List.find?_cons_of_neg (by simp [hnamed])]
      exact ih (attempted ++ [name])

theorem routeWithPolicy_follows {target : Engine.RoutingTarget} (htarget : req.routingTarget = some target) :
    Follows env r req available m (routeWithPolicy r req target available m).result
      (ruleFor r.fallbackEnabled (hasNamed available) req) := by
  rw [routeWithPolicy, after_result]
  cases hfind : Strategy.findProvider available target.provider with
  | some p =>
    have hrule : ruleFor r.fallbackEnabled (hasNamed available) req = some (.named "policy" target.provider) := by
      simp [ruleFor, htarget, hasNamed_eq, hfind]
    obtain ⟨hmem, hname⟩ := findProvider_some hfind
    rw [hrule]
    exact ⟨_, rfl, rfl, rfl, hname, hmem⟩
  | none =>
    have hrule : ruleFor r.fallbackEnabled (hasNamed available) req =
        if r.fallbackEnabled then (target.fallback.find? (hasNamed available)).map (.named "fallback") else none := by
      simp [ruleFor, htarget, hasNamed_eq, hfind]
    rw [hrule]
    cases r.fallbackEnabled with
    | false => trivial
    | true =>
      cases target.fallback with
      | nil => trivial
      | cons name names => exact tryFallbacks_follows env r [] (name :: names)

theorem routeManual_follows (htarget : req.routingTarget = none) (hpreferred : req.preferredProvider ≠ "") :
    Follows env r req available m (routeManual r (selects env r req m) req available m).result
      (ruleFor r.fallbackEnabled (hasNamed available) req) := by
  rw [routeManual, after_result]
  cases hfind : Strategy.findProvider available req.preferredProvider with
  | some p =>
    have hrule : ruleFor r.fallbackEnabled (hasNamed available) req = some (.named "manual" req.preferredProvider) := by
      simp [ruleFor, htarget, hpreferred, hasNamed_eq, hfind]
    obtain ⟨hmem, hname⟩ := findProvider_some hfind
    rw [hrule]
    exact ⟨_, rfl, rfl, rfl, hname, hmem⟩
  | none =>
    have hrule : ruleFor r.fallbackEnabled (hasNamed available) req =
        if r.fallbackEnabled then some .strategy else none := by
      simp [ruleFor, htarget, hpreferred, hasNamed_eq, hfind]
    rw [hrule]
    cases r.fallbackEnabled with
    | false => trivial
    | true => exact routeWithStrategy_follows env r

theorem routeAmong_follows :
    Follows env r req available m (routeAmong r (selects env r req m) req available m).result
      (ruleFor r.fallbackEnabled (hasNamed available) req) := by
  unfold routeAmong
  cases htarget : req.routingTarget with
  | some target => exact routeWithPolicy_follows env r htarget
  | none =>
    dsimp only
    split
    · next hpreferred => exact routeManual_follows env r htarget hpreferred
    · next hpreferred =>
      have hrule : ruleFor r.fallbackEnabled (hasNamed available) req = some .strategy := by
        rw [ruleFor, htarget]
        exact if_pos (not_not.1 hpreferred)
      rw [hrule]
      exact routeWithStrategy_follows env r

theorem Follows.error {out : Except RoutingError RoutingResult} {rule : Option Rule} {err : RoutingError}
    (h : Follows env r req available m out rule) (hout : out = .error err) :
    rule = none ∨ rule = some .strategy ∧ ∃ e, (r.strategy.selectProvider env req available m).1 = .error e := by
  subst hout
  match rule, h with
  | none, _ => exact .inl rfl
  | some (.named strategy name), h =>
    obtain ⟨result, hresult, -⟩ := h
    cases hresult
  | some .strategy, h =>
    refine .inr ⟨rfl, ?_⟩
    unfold Follows at h
    cases hselect : (r.strategy.selectProvider env req available m).1 with
    | error e => exact ⟨e, rfl⟩
    | ok p =>
      simp only [hselect] at h
      obtain ⟨result, hresult, -⟩ := h
      cases hresult

theorem wantedModel_eq (hmodel : ∀ target, req.routingTarget = some target → target.model = "" ∨ target.model = req.model) :
    req.wantedModel = req.model := by
  unfold RoutingRequest.wantedModel
  cases htarget : req.routingTarget with
  | none => rfl
  | some target =>
    dsimp only
    split
    · rfl
    · next hne => exact (hmodel target htarget).resolve_left hne

/-- For every pool and mapping and every request whose policy target, if it names a model, names the request's: among
the usable providers the router follows the order of precedence, and it returns an error only when no rule applies, when
no provider is usable, or when the strategy that is to choose fails. -/
theorem routeRequest_follows_precedence (read : List (String × Provider)) (hread : read.Perm r.pool)
    (req : RoutingRequest) (m : Mem)
    (hmodel : ∀ target, req.routingTarget = some target → target.model = "" ∨ target.model = req.model) :
    ∃ usable : List Provider, (∀ p, p ∈ usable ↔ Usable r req p) ∧
      (usable ≠ [] → Follows env r req usable m (routeRequest env r false read req m).1
        (ruleFor r.fallbackEnabled (hasNamed usable) req)) ∧
      ∀ err, (routeRequest env r false read req m).1 = .error err →
        ruleFor r.fallbackEnabled (hasNamed usable) req = none ∨ usable = [] ∨
          ruleFor r.fallbackEnabled (hasNamed usable) req = some .strategy ∧
            ∃ e, (r.strategy.selectProvider env req usable m).1 = .error e := by
  have hfollows : r.filtered read req ≠ [] →
      Follows env r req (r.filtered read req) m (routeRequest env r false read req m).1
        (ruleFor r.fallbackEnabled (hasNamed (r.filtered read req)) req) := by
    intro hne
    rw [routeRequest_of_filtered env r hne m]
    exact routeAmong_follows env r
  refine ⟨_, fun p => ?_, hfollows, fun err herr => ?_⟩
  · rw [mem_filtered r hread p, Usable, wantedModel_eq hmodel]
  · by_cases hempty : r.filtered read req = []
    · exact .inr (.inl hempty)
    · exact (Follows.error env r (hfollows hempty) herr).imp_right .inr

def toDown : RoutingRequest :=
  { model := "chat", policyDecision := some { routingTarget := some ⟨"openai", "", ["anthropic"]⟩ } }

theorem routeRequest_follows_downAndUp :
    ∃ usable : List Provider, (∀ p, p ∈ usable ↔ Usable downAndUp toDown p) ∧
      (usable ≠ [] → Follows steadyEnv downAndUp toDown usable emptyMem
        (routeRequest steadyEnv downAndUp false downAndUp.pool toDown emptyMem).1
        (ruleFor true (hasNamed usable) toDown)) ∧
      ∀ err, (routeRequest steadyEnv downAndUp false downAndUp.pool toDown emptyMem).1 = .error err →
        ruleFor true (hasNamed usable) toDown = none ∨ usable = [] ∨
          ruleFor true (hasNamed usable) toDown = some .strategy ∧
            ∃ e, (downAndUp.strategy.selectProvider steadyEnv toDown usable emptyMem).1 = .error e := by
  refine routeRequest_follows_precedence steadyEnv downAndUp downAndUp.pool (.refl _) toDown emptyMem ?_
  intro target htarget
  cases htarget
  exact .inl rfl

def withoutFallback : Router := { downAndUp with fallbackEnabled := false }

/-- With fallback disabled the policy's fallback is not used, though it could be. -/
theorem routeRequest_fallback_disabled :
    Usable withoutFallback toDown ⟨2, "anthropic", true⟩ ∧
      (routeRequest steadyEnv withoutFallback false withoutFallback.pool toDown emptyMem).1 =
        .error (.providerNotFound "openai" ["anthropic"]) := by
  refine ⟨⟨⟨"anthropic", by decide⟩, rfl, ?_⟩, rfl⟩
  intro _ names hnames
  obtain rfl : ["openai", "anthropic"] = names := Option.some.inj hnames
  decide

end Router

end Jupiter.Routing
