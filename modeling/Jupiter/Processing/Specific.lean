/-
The most specific entry of the tables of prices, of characters-per-token ratios and of context windows
(`getContextWindowLimit` of `pkg/processing/conversation/analyzer.go`).

The prices and the ratios are looked up by `findModel`, the context windows by the longest name.
-/
import Jupiter.Config.Defaults
import Jupiter.Processing.Costs
import Jupiter.Processing.Tokens

namespace Jupiter.Processing

open Jupiter.Go Jupiter.Config Jupiter.Lib

/-! ## Prices -/

def specificPricing (config : CostsConfig) (model provider : String) : Except CostError ModelPricing :=
  match specificEntry (providerPricing config provider) model with
  | some modelConfig => .ok (modelPricing model provider modelConfig)
  | none =>
    match defaultEntry config with
    | some defaultModel => .ok (modelPricing model provider defaultModel)
    | none => .error (.noPricing model provider)

/-- The default entry has no price for cached tokens, where it is used. -/
def NoCachedDefault (config : CostsConfig) (model provider : String) : Prop :=
  (∀ e ∈ providerPricing config provider, Strings.startsWith model e.1 = false) →
    ∀ d ∈ defaultEntry config, d.cachedPrompt = 0

theorem modelPricing_injective {model provider : String} {c d : ModelPricingConfig}
    (h : modelPricing model provider c = modelPricing model provider d) : c = d := by
  cases c
  cases d
  cases h
  rfl

section Pricing

variable {config : CostsConfig} {model provider : String}

theorem defaultPricing_specific_iff (hnone : specificEntry (providerPricing config provider) model = none) :
    defaultPricing config model provider = specificPricing config model provider ↔
      ∀ d ∈ defaultEntry config, d.cachedPrompt = 0 := by
  rw [specificPricing, hnone, defaultPricing]
  cases defaultEntry config with
  | none =>
    refine iff_of_true rfl ?_
    intro d hd
    cases hd
  | some d =>
    constructor
    · intro h d' hd'
      cases hd'
      rw [← modelPricing_injective (Except.ok.inj h)]
    · intro h
      have hd : d.cachedPrompt = 0 := h d rfl
      obtain ⟨prompt, completion, cachedPrompt⟩ := d
      cases hd
      rfl

theorem getModelPricing_specific_iff (hk : ((providerPricing config provider).map Prod.fst).Nodup) :
    (∀ visit, getModelPricing config model provider visit = specificPricing config model provider) ↔
      Unambiguous (providerPricing config provider) model ∧ NoCachedDefault config model provider := by
  cases hs : specificEntry (providerPricing config provider) model with
  | none =>
    -- No name applies: every `range` ends at the default entry.
    have hno := specificEntry_eq_none_iff.1 hs
    have hget : ∀ visit, getModelPricing config model provider visit = defaultPricing config model provider :=
      fun visit => by rw [getModelPricing, (findModel_eq_none_iff visit).2 hno]
    have hunamb : Unambiguous (providerPricing config provider) model :=
      .inr fun e he _ _ ha => by rw [hno e he] at ha; cases ha
    simp only [hget, defaultPricing_specific_iff hs, and_iff_right hunamb, NoCachedDefault]
    exact ⟨fun h _ => h ⟨_, .refl _⟩, fun h _ => h hno⟩
  | some c =>
    have hcached : NoCachedDefault config model provider := fun hno =>
      absurd (hs.symm.trans (specificEntry_eq_none_iff.2 hno)) (Option.some_ne_none c)
    rw [and_iff_left hcached, ← findModel_specific_iff hk, hs]
    refine forall_congr' fun visit => ?_
    rw [getModelPricing, specificPricing, hs]
    cases hf : findModel model visit with
    | none =>
      have hno := specificEntry_eq_none_iff.2 ((findModel_eq_none_iff visit).1 hf)
      exact absurd (hs.symm.trans hno) (Option.some_ne_none c)
    | some d =>
      refine ⟨fun h => ?_, fun h => by cases h; rfl⟩
      rw [modelPricing_injective (Except.ok.inj h)]

end Pricing

/-! ## Ratios -/

def specificRatio (config : TokensConfig) (model : String) : ℚ :=
  (specificEntry (tokenModels config) model).getD (((tokenModels config).lookup "default").getD 4)

theorem getCharsPerToken_specific_iff {config : TokensConfig} {model : String}
    (hk : ((tokenModels config).map Prod.fst).Nodup) :
    (∀ visit, getCharsPerToken config model visit = specificRatio config model) ↔
      Unambiguous (tokenModels config) model := by
  rw [← findModel_specific_iff hk]
  refine forall_congr' fun visit => ?_
  have hnone : findModel model visit = none ↔ specificEntry (tokenModels config) model = none :=
    (findModel_eq_none_iff visit).trans specificEntry_eq_none_iff.symm
  rw [getCharsPerToken, specificRatio]
  cases hf : findModel model visit with
  | none => exact iff_of_true (by rw [hnone.1 hf]; rfl) (hnone.1 hf).symm
  | some ratio =>
    cases hs : specificEntry (tokenModels config) model with
    | none => exact nomatch hf.symm.trans (hnone.2 hs)
    | some ratio' => exact (Option.some.injEq ratio ratio').symm ▸ Iff.rfl

/-- `EstimateRequest`: every text is estimated with the ratio that the `range` at its position finds. -/
def estimateWith (rt : Runtime) (marshal : List (String × Value) → Option String) (config : TokensConfig)
    (visits : List Nat → MapRange (tokenModels config)) (req : Proxy.ChatCompletionRequest) :
    Except EstimateError TokenEstimate :=
  estimateRequest rt marshal (fun at_ => getCharsPerToken config req.model (visits at_)) (some req)

/-! ## One price and one estimate -/

/-- In every order of the maps, a model gets the most specific price and the most specific ratio. -/
structure MostSpecificWins (costs : CostsConfig) (tokens : TokensConfig) (model provider : String) : Prop where
  price : ∀ visit, getModelPricing costs model provider visit = specificPricing costs model provider
  ratio : ∀ visit, getCharsPerToken tokens model visit = specificRatio tokens model

/-- The two lookups of a calculation, both with the configuration `costs`. -/
def PricingReads.Of {provider : String} (r : PricingReads provider) (costs : CostsConfig) : Prop :=
  r.config = costs ∧ r.fallback = costs

theorem PricingReads.pricing_eq {provider : String} {costs : CostsConfig} {model : String}
    (hprice : ∀ visit, getModelPricing costs model provider visit = specificPricing costs model provider)
    (hdefault : ∀ visit, getModelPricing costs "default" "default" visit = specificPricing costs "default" "default")
    {r r' : PricingReads provider} (h : r.Of costs) (h' : r'.Of costs) : r.pricing model = r'.pricing model := by
  obtain ⟨config, visit, fallback, fallbackVisit⟩ := r
  obtain ⟨config', visit', fallback', fallbackVisit'⟩ := r'
  obtain ⟨rfl, rfl⟩ : costs = config ∧ costs = fallback := ⟨h.1.symm, h.2.symm⟩
  obtain ⟨rfl, rfl⟩ : costs = config' ∧ costs = fallback' := ⟨h'.1.symm, h'.2.symm⟩
  simp only [pricing, hprice, hdefault]

/-- The most specific entries win exactly when the model is unambiguous in both tables and the default entry, where it
is used, has no cached price (which the code does not read). Then a request has one cost and one estimate. -/
theorem most_specific_wins_iff (costs : CostsConfig) (tokens : TokensConfig) (model provider : String)
    (hc : ((providerPricing costs provider).map Prod.fst).Nodup) (ht : ((tokenModels tokens).map Prod.fst).Nodup) :
    (MostSpecificWins costs tokens model provider ↔
      Unambiguous (providerPricing costs provider) model ∧ NoCachedDefault costs model provider ∧
        Unambiguous (tokenModels tokens) model) ∧
    (MostSpecificWins costs tokens model provider → MostSpecificWins costs tokens "default" "default" →
      (∀ r r' : PricingReads provider, r.Of costs → r'.Of costs → ∀ estimate usage,
        calculateRequestCost r estimate model = calculateRequestCost r' estimate model ∧
          calculateResponseCost r usage model = calculateResponseCost r' usage model) ∧
      ∀ rt marshal visits visits' req, req.model = model →
        estimateWith rt marshal tokens visits req = estimateWith rt marshal tokens visits' req) := by
  refine ⟨?_, ?_⟩
  · rw [← and_assoc, ← getModelPricing_specific_iff hc, ← getCharsPerToken_specific_iff ht]
    exact ⟨fun h => ⟨h.price, h.ratio⟩, fun h => ⟨h.1, h.2⟩⟩
  · intro h hdefault
    refine ⟨?_, ?_⟩
    · intro r r' hr hr' estimate usage
      have hpricing : r.pricing model = r'.pricing model := PricingReads.pricing_eq h.price hdefault.price hr hr'
      constructor
      · simp only [calculateRequestCost, hpricing]
      · simp only [calculateResponseCost, hpricing]
    · rintro rt marshal visits visits' req rfl
      simp only [estimateWith, h.ratio]

theorem gpt4_has_one_price :
    (∀ visit, getModelPricing { pricing := some defaultCostsPricing } "gpt-4" "openai" visit =
      .ok (modelPricing "gpt-4" "openai" { prompt := 3 / 100, completion := 6 / 100 })) ∧
    ∀ visit, getCharsPerToken { models := some defaultTokensModels } "gpt-4" visit = 4 := by
  have h := (most_specific_wins_iff { pricing := some defaultCostsPricing } { models := some defaultTokensModels }
    "gpt-4" "openai" (by decide) (by decide)).1.2
    ⟨.inl ⟨_, List.mem_cons_self, rfl⟩, fun hno => absurd (hno _ List.mem_cons_self) (by decide),
      .inl ⟨_, List.mem_cons_self, rfl⟩⟩
  refine ⟨fun visit => (h.price visit).trans ?_, fun visit => (h.ratio visit).trans ?_⟩
  · have hlookup : (providerPricing { pricing := some defaultCostsPricing } "openai").lookup "gpt-4" =
        some { prompt := 3 / 100, completion := 6 / 100 } := rfl
    rw [specificPricing, specificEntry_of_lookup (by decide) hlookup]
  · have hlookup : (tokenModels { models := some defaultTokensModels }).lookup "gpt-4" = some 4 := rfl
    rw [specificRatio, specificEntry_of_lookup (by decide) hlookup]
    rfl

/-- The default prices, asked for a dated `gpt-4-turbo`: the order of the map decides between one cent and three. -/
theorem turbo_price_depends_on_order :
    let costs : CostsConfig := { pricing := some defaultCostsPricing }
    let model := "gpt-4-turbo-2024-04-09"
    ∃ visit visit' : MapRange (providerPricing costs "openai"),
      getModelPricing costs model "openai" visit =
        .ok (modelPricing model "openai" { prompt := 3 / 100, completion := 6 / 100 }) ∧
      getModelPricing costs model "openai" visit' =
        .ok (modelPricing model "openai" { prompt := 1 / 100, completion := 3 / 100 }) ∧
      specificEntry (providerPricing costs "openai") model = some { prompt := 1 / 100, completion := 3 / 100 } := by
  intro costs model
  exact ⟨⟨_, .refl _⟩, ⟨_, .swap _ _ _⟩, by decide +kernel, by decide +kernel, by decide +kernel⟩

/-! ## Context windows -/

def contextWindows (config : ConversationConfig) : List (String × Int) := config.maxContextWindow.getD []

def longerMatch (model : String) (longest : String × Int) (e : String × Int) : String × Int :=
  if e.1 = "default" then longest
  else if Strings.startsWith model e.1 ∧ longest.1.utf8ByteSize < e.1.utf8ByteSize then e
  else longest

def getContextWindowLimit (config : ConversationConfig) (model : String) (visit : MapRange (contextWindows config)) :
    Int :=
  match (contextWindows config).lookup model with
  | some limit => limit
  | none =>
    let (longestMatch, matchedLimit) := visit.order.foldl (longerMatch model) ("", 0)
    if longestMatch ≠ "" then matchedLimit
    else ((contextWindows config).lookup "default").getD 4096

/-- The names the loop looks at: neither `default` nor the empty name. -/
def matchesWindow (model name : String) : Bool :=
  Strings.startsWith model name && decide (name ≠ "default") && decide (name ≠ "")

/-- What the loop has found after some entries: nothing that applies, or the longest name among them. -/
def LongestOf (model : String) (seen : List (String × Int)) (longest : String × Int) : Prop :=
  (longest = ("", 0) ∧ ∀ e ∈ seen, matchesWindow model e.1 = false) ∨
    (longest ∈ seen ∧ matchesWindow model longest.1 = true ∧
      ∀ e ∈ seen, matchesWindow model e.1 = true → e.1.utf8ByteSize ≤ longest.1.utf8ByteSize)

theorem ne_empty_of_matchesWindow {model name : String} (h : matchesWindow model name = true) : name ≠ "" := by
  simp only [matchesWindow, Bool.and_eq_true, decide_eq_true_eq] at h
  exact h.2

theorem longerMatch_eq (model : String) (longest e : String × Int) :
    longerMatch model longest e =
      if matchesWindow model e.1 = true ∧ longest.1.utf8ByteSize < e.1.utf8ByteSize then e else longest := by
  by_cases hlt : longest.1.utf8ByteSize < e.1.utf8ByteSize
  · have hne : e.1 ≠ "" := by
      intro hempty
      rw [hempty] at hlt
      exact absurd hlt (Nat.not_lt_zero _)
    by_cases hdefault : e.1 = "default"
    · simp [longerMatch, matchesWindow, hdefault]
    · simp [longerMatch, matchesWindow, hdefault, hne, hlt]
  · simp [longerMatch, hlt]

theorem LongestOf.step {model : String} {seen : List (String × Int)} {longest : String × Int}
    (h : LongestOf model seen longest) (e : String × Int) :
    LongestOf model (seen ++ [e]) (longerMatch model longest e) := by
  have hseen : ∀ {p : String × Int → Prop}, (∀ x ∈ seen, p x) → p e → ∀ x ∈ seen ++ [e], p x := by
    intro p hs he x hx
    rcases List.mem_append.1 hx with hx | hx
    · exact hs x hx
    · rw [List.mem_singleton.1 hx]
      exact he
  rw [longerMatch_eq]
  split
  · rename_i ha
    obtain ⟨hm, hlt⟩ := ha
    refine .inr ⟨List.mem_append_right _ (List.mem_singleton_self e), hm, hseen ?_ fun _ => le_rfl⟩
    intro x hx hmx
    rcases h with ⟨-, hno⟩ | ⟨-, -, hmax⟩
    · rw [hno x hx] at hmx
      cases hmx
    · exact (hmax x hx hmx).trans hlt.le
  · rename_i ha
    rcases h with ⟨rfl, hno⟩ | ⟨hmem, hm, hmax⟩
    · refine .inl ⟨rfl, hseen hno ?_⟩
      by_contra hm
      rw [Bool.not_eq_false] at hm
      have hne := ne_empty_of_matchesWindow hm
      exact ha ⟨hm, Nat.pos_of_ne_zero fun hzero => hne (String.utf8ByteSize_eq_zero_iff.1 hzero)⟩
    · exact .inr ⟨List.mem_append_left _ hmem, hm, hseen hmax fun hme => not_lt.1 fun hlt => ha ⟨hme, hlt⟩⟩

theorem LongestOf.foldl {model : String} : ∀ (l seen : List (String × Int)) {longest : String × Int},
    LongestOf model seen longest → LongestOf model (seen ++ l) (l.foldl (longerMatch model) longest)
  | [], seen, _, h => by rwa [List.append_nil]
  | e :: l, seen, _, h => by
    have htail := LongestOf.foldl l (seen ++ [e]) (h.step e)
    rwa [List.append_assoc] at htail

theorem graded_matchesWindow (model : String) :
    MostSpecific.Graded (matchesWindow model) String.utf8ByteSize := by
  intro a b ha hb
  simp only [matchesWindow, Bool.and_eq_true] at ha hb
  exact graded_startsWith model a b ha.1.1 hb.1.1

/-- The context window of a model does not depend on the order of the map: it is that of the model itself, or of the
longest name, not empty and other than `default`, that the model begins with, or of `default`, or 4096. -/
theorem getContextWindowLimit_longest (config : ConversationConfig) (model : String)
    (hk : ((contextWindows config).map Prod.fst).Nodup) (visit : MapRange (contextWindows config)) :
    getContextWindowLimit config model visit =
      ((contextWindows config).lookup model).getD
        (((MostSpecific.best (matchesWindow model) String.utf8ByteSize (contextWindows config)).map Prod.snd).getD
          (((contextWindows config).lookup "default").getD 4096)) := by
  rw [getContextWindowLimit]
  cases (contextWindows config).lookup model with
  | some limit => rfl
  | none =>
    have hfold : LongestOf model ([] ++ visit.order) (visit.order.foldl (longerMatch model) ("", 0)) :=
      LongestOf.foldl visit.order [] (.inl ⟨rfl, by simp⟩)
    rw [List.nil_append] at hfold
    generalize visit.order.foldl (longerMatch model) ("", 0) = longest at hfold
    rcases hfold with ⟨rfl, hno⟩ | ⟨hmem, hm, hmax⟩
    · rw [MostSpecific.best_eq_none.2 fun e he => hno e (visit.perm.mem_iff.2 he)]
      rfl
    · have hbest := (MostSpecific.best_eq_some_iff (graded_matchesWindow model) hk).2
        ⟨visit.perm.mem_iff.1 hmem, hm, fun e he => hmax e (visit.perm.mem_iff.2 he)⟩
      rw [hbest]
      exact if_pos (ne_empty_of_matchesWindow hm)

theorem getContextWindowLimit_gpt4 :
    getContextWindowLimit { maxContextWindow := some [("gpt-4", 8192), ("gpt-4-32k", 32768)] } "gpt-4-32k-0613"
      ⟨_, .refl _⟩ = 32768 := by
  rw [getContextWindowLimit_longest _ _ (by decide)]
  decide +kernel

end Jupiter.Processing
