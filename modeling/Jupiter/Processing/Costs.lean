/-
`pkg/processing/costs/calculator.go`: the price of a model and the cost of a request or a response.

A lookup reads the configuration under the read lock, so `UpdatePricing` can replace it between two lookups of one
calculation but not within one. Each lookup therefore has its own configuration, and its own `range` over the
provider's prices. A price that is missing is a nil pointer: the calculation that reads it panics.
-/
import Jupiter.Config.Types
import Jupiter.Processing.ModelTable
import Jupiter.Processing.Types

namespace Jupiter.Processing

open Jupiter.Go Jupiter.Config

structure ModelPricing where
  model : String
  provider : String
  promptCostPer1KTokens : ℚ
  completionCostPer1KTokens : ℚ
  cachedPromptCostPer1KTokens : ℚ := 0
  currency : String
  deriving DecidableEq

inductive CostError where
  | nilEstimate
  | nilUsage
  | noPricing (model provider : String)
  /-- A nil pointer was dereferenced: no error is returned. -/
  | panics
  deriving DecidableEq

/-- `config.Pricing[provider]`; a map that is not there has no entries. -/
def providerPricing (config : CostsConfig) (provider : String) : List (String × ModelPricingConfig) :=
  ((config.pricing.getD []).lookup provider).getD []

def modelPricing (model provider : String) (modelConfig : ModelPricingConfig) : ModelPricing :=
  { model, provider
    promptCostPer1KTokens := modelConfig.prompt
    completionCostPer1KTokens := modelConfig.completion
    cachedPromptCostPer1KTokens := modelConfig.cachedPrompt
    currency := "USD" }

def defaultEntry (config : CostsConfig) : Option ModelPricingConfig :=
  (providerPricing config "default").lookup "default"

/-- The last part of `GetModelPricing`; the cached price of the default entry is not copied. -/
def defaultPricing (config : CostsConfig) (model provider : String) : Except CostError ModelPricing :=
  match defaultEntry config with
  | some defaultModel => .ok (modelPricing model provider { defaultModel with cachedPrompt := 0 })
  | none => .error (.noPricing model provider)

def getModelPricing (config : CostsConfig) (model provider : String)
    (visit : MapRange (providerPricing config provider)) : Except CostError ModelPricing :=
  match findModel model visit with
  | some modelConfig => .ok (modelPricing model provider modelConfig)
  | none => defaultPricing config model provider

/-- What a calculation meets: the configuration at the lookup of the model, and the one at the lookup of the default
prices, if it gets there. -/
structure PricingReads (provider : String) where
  config : CostsConfig
  visit : MapRange (providerPricing config provider)
  fallback : CostsConfig
  fallbackVisit : MapRange (providerPricing fallback "default")

/-- The prices a calculation uses, `none` for a nil pointer: the error of the second lookup is dropped. -/
def PricingReads.pricing {provider : String} (r : PricingReads provider) (model : String) : Option ModelPricing :=
  match getModelPricing r.config model provider r.visit with
  | .ok pricing => some pricing
  | .error _ => (getModelPricing r.fallback "default" "default" r.fallbackVisit).toOption

def calculateTokenCost (tokens : Int) (costPer1K : ℚ) : ℚ :=
  if tokens ≤ 0 then 0 else tokens / 1000 * costPer1K

def requestCost (estimate : TokenEstimate) (model provider : String) (pricing : ModelPricing) : CostEstimate :=
  let promptCost := calculateTokenCost estimate.promptTokens pricing.promptCostPer1KTokens
  let completionCost := calculateTokenCost estimate.estimatedCompletionTokens pricing.completionCostPer1KTokens
  { promptCost, completionCost, totalCost := promptCost + completionCost
    model, provider, pricingTier := "standard", currency := "USD" }

def calculateRequestCost {provider : String} (r : PricingReads provider) (estimate : Option TokenEstimate)
    (model : String) : Except CostError CostEstimate :=
  match estimate with
  | none => .error .nilEstimate
  | some estimate =>
    match r.pricing model with
    | none => .error .panics
    | some pricing => .ok (requestCost estimate model provider pricing)

/-- Cached tokens have a price of their own if there are any and the price is positive. -/
def responsePromptCost (usage : TokenUsage) (pricing : ModelPricing) : ℚ :=
  if 0 < usage.cachedTokens ∧ 0 < pricing.cachedPromptCostPer1KTokens then
    calculateTokenCost (max (usage.promptTokens - usage.cachedTokens) 0) pricing.promptCostPer1KTokens +
      calculateTokenCost usage.cachedTokens pricing.cachedPromptCostPer1KTokens
  else calculateTokenCost usage.promptTokens pricing.promptCostPer1KTokens

def responseCost (usage : TokenUsage) (model provider : String) (pricing : ModelPricing) : CostEstimate :=
  let promptCost := responsePromptCost usage pricing
  let completionCost := calculateTokenCost usage.completionTokens pricing.completionCostPer1KTokens
  { promptCost, completionCost, totalCost := promptCost + completionCost
    model, provider, pricingTier := "standard", currency := "USD" }

def calculateResponseCost {provider : String} (r : PricingReads provider) (usage : Option TokenUsage)
    (model : String) : Except CostError CostEstimate :=
  match usage with
  | none => .error .nilUsage
  | some usage =>
    match r.pricing model with
    | none => .error .panics
    | some pricing => .ok (responseCost usage model provider pricing)

/-! ## Models that have a price -/

/-- Some name in the provider's table is the model or the beginning of it, or there is a default entry. -/
def Prices (config : CostsConfig) (model provider : String) : Prop :=
  (∃ e ∈ providerPricing config provider, Strings.startsWith model e.1 = true) ∨ (defaultEntry config).isSome

theorem getModelPricing_fails_iff (config : CostsConfig) (model provider : String)
    (visit : MapRange (providerPricing config provider)) :
    (getModelPricing config model provider visit).toOption = none ↔ ¬Prices config model provider := by
  have hnames : findModel model visit = none ↔
      ¬∃ e ∈ providerPricing config provider, Strings.startsWith model e.1 = true := by
    simp only [findModel_eq_none_iff, not_exists, not_and, Bool.not_eq_true]
  rw [getModelPricing, Prices, not_or, ← hnames]
  cases findModel model visit with
  | some modelConfig => exact iff_of_false nofun nofun
  | none =>
    rw [and_iff_right rfl, defaultPricing]
    cases defaultEntry config with
    | some defaultModel => exact iff_of_false nofun fun h => h rfl
    | none => exact iff_of_true rfl nofun

theorem PricingReads.pricing_eq_none_iff {provider : String} (r : PricingReads provider) (model : String) :
    r.pricing model = none ↔ ¬Prices r.config model provider ∧ ¬Prices r.fallback "default" "default" := by
  rw [← getModelPricing_fails_iff _ _ _ r.visit, ← getModelPricing_fails_iff _ _ _ r.fallbackVisit, pricing]
  cases getModelPricing r.config model provider r.visit with
  | ok p => exact iff_of_false nofun fun h => nomatch h.1
  | error e => exact (and_iff_right rfl).symm

theorem calculateRequestCost_panics_iff {provider : String} (r : PricingReads provider)
    (estimate : Option TokenEstimate) (model : String) :
    calculateRequestCost r estimate model = .error .panics ↔ estimate ≠ none ∧ r.pricing model = none := by
  cases estimate with
  | none => exact iff_of_false nofun fun h => h.1 rfl
  | some estimate =>
    rw [calculateRequestCost]
    cases r.pricing model <;> simp

theorem calculateResponseCost_panics_iff {provider : String} (r : PricingReads provider)
    (usage : Option TokenUsage) (model : String) :
    calculateResponseCost r usage model = .error .panics ↔ usage ≠ none ∧ r.pricing model = none := by
  cases usage with
  | none => exact iff_of_false nofun fun h => h.1 rfl
  | some usage =>
    rw [calculateResponseCost]
    cases r.pricing model <;> simp

/-- The two calculations return exactly when there is nothing to price, or the model has a price at the first lookup,
or `default` has one at the second. -/
theorem cost_never_panics_iff {provider : String} (r : PricingReads provider) (estimate : Option TokenEstimate)
    (usage : Option TokenUsage) (model : String) :
    calculateRequestCost r estimate model ≠ .error .panics ∧
        calculateResponseCost r usage model ≠ .error .panics ↔
      (estimate = none ∧ usage = none) ∨ Prices r.config model provider ∨ Prices r.fallback "default" "default" := by
  rw [Ne, Ne, calculateRequestCost_panics_iff, calculateResponseCost_panics_iff, r.pricing_eq_none_iff]
  by_cases hp : Prices r.config model provider ∨ Prices r.fallback "default" "default"
  · refine iff_of_true ⟨?_, ?_⟩ (.inr hp)
    · rintro ⟨-, h⟩
      exact not_or.2 h hp
    · rintro ⟨-, h⟩
      exact not_or.2 h hp
  · rw [or_iff_left hp, and_iff_left (not_or.1 hp), and_iff_left (not_or.1 hp), not_not, not_not]

/-- A table without a default entry, asked for a model that is not in it. -/
theorem cost_panics_without_default :
    let config : CostsConfig := { pricing := some [("openai", [("gpt-4", { prompt := 3 / 100 })])] }
    let visit : MapRange (providerPricing config "openai") := { order := _, perm := .refl _ }
    let fallbackVisit : MapRange (providerPricing config "default") := { order := _, perm := .refl _ }
    let r : PricingReads "openai" := { config, visit, fallback := config, fallbackVisit }
    calculateRequestCost r (some { promptTokens := 10 }) "o3" = .error .panics ∧
      calculateResponseCost r (some { promptTokens := 10 }) "o3" = .error .panics := by
  exact ⟨rfl, rfl⟩

end Jupiter.Processing
