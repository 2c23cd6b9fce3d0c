/-
`pkg/limits/enforcement` and `pkg/limits`: the enforcer, and the manager that checks a request against an identifier's
rate limits and budget and records its usage.

Maps from identifiers are functions to `Option`. `RecordUsage` also starts a goroutine that stores an empty state for
the identifier, which nothing modelled here reads back.
-/
import Jupiter.Limits.Budget
import Jupiter.Limits.RateLimit

namespace Jupiter.Limits

open Jupiter.Go

/-! ## Enforcement -/

/-- `enforcement.Action`, a string in the source: the empty one, the five constants, any other. -/
inductive Action where
  | unset
  | allow
  | block
  | queue
  | downgrade
  | alert
  | other (name : String)
  deriving DecidableEq, Repr

/-- `enforcement.Config`. A missing downgrade table is an empty one. -/
structure Enforcement where
  defaultAction : Action
  queueDepth : Int := 0
  queueTimeout : Duration := 0
  modelDowngrades : String → Option String := fun _ => none

structure EnforcementResult where
  allowed : Bool
  action : Action
  reason : String := ""
  downgradedModel : String := ""
  retryAfter : Duration := 0
  alertMessage : String := ""
  deriving DecidableEq

structure Enforcer where
  config : Enforcement

def newEnforcer (config : Enforcement) : Enforcer where
  config := { config with
    defaultAction := if config.defaultAction = .unset then .block else config.defaultAction
    queueDepth := if config.queueDepth = 0 then 100 else config.queueDepth
    queueTimeout := if config.queueTimeout = 0 then 30 * Duration.second else config.queueTimeout }

namespace Enforcer

def enforceBlock (reason : String) (retryAfter : Duration) : EnforcementResult :=
  { allowed := false, action := .block, reason, retryAfter }

def enforceDowngrade (e : Enforcer) (model reason : String) : EnforcementResult :=
  match e.config.modelDowngrades model with
  | none => { allowed := false, action := .block
              reason := reason ++ " (no downgrade available for model " ++ model ++ ")" }
  | some downgradedModel => { allowed := true, action := .downgrade, downgradedModel }

def enforce (e : Enforcer) (action : Action) (reason model : String) (retryAfter : Duration) :
    EnforcementResult :=
  match if action = .unset then e.config.defaultAction else action with
  | .allow => { allowed := true, action := .allow }
  | .block => enforceBlock reason retryAfter
  | .queue => { allowed := false, action := .queue, reason, retryAfter }
  | .downgrade => e.enforceDowngrade model reason
  | .alert => { allowed := true, action := .alert, alertMessage := reason }
  | .unset | .other _ => enforceBlock reason retryAfter

end Enforcer

/-! ## The manager -/

structure RateLimitInfo where
  dimension : String
  identifier : String
  limit : Int
  remaining : Int
  reset : Time
  window : Duration
  deriving DecidableEq

structure BudgetInfo (F : Type) where
  dimension : String
  identifier : String
  limit : F
  used : F
  remaining : F
  percentage : F
  reset : Time
  window : Duration

structure LimitCheckResult (F : Type) where
  allowed : Bool
  reason : String := ""
  rateLimit : Option RateLimitInfo := none
  budget : Option (BudgetInfo F) := none
  action : Action := .unset
  retryAfter : Duration := 0
  downgradeTo : String := ""

/-- The part of `limits.UsageRecord` that `RecordUsage` reads. -/
structure UsageRecord (F : Type) where
  identifier : String
  totalTokens : Int
  cost : F

structure Config (F : Type) where
  rateLimits : String → Option RateLimit.Config
  budgets : String → Option (Budget.Config F)
  enforcement : Enforcement

structure Manager (F : Type) [Zero F] [LT F] where
  rateLimiters : String → Option RateLimit.Limiter
  budgets : String → Option (Budget.Tracker F)
  enforcer : Enforcer
  rateLimitConfigs : String → Option RateLimit.Config
  budgetConfigs : String → Option (Budget.Config F)
  enforcementConfig : Enforcement

def store {V : Type} (m : String → Option V) (k : String) (v : V) : String → Option V :=
  fun k' => if k' = k then some v else m k'

@[simp] theorem store_self {V : Type} (m : String → Option V) (k : String) (v : V) : store m k v k = some v := by
  simp [store]

theorem store_ne {V : Type} (m : String → Option V) {k k' : String} (v : V) (h : k' ≠ k) :
    store m k v k' = m k' := by
  simp [store, h]

def adjust {V : Type} (m : String → Option V) (k : String) (f : V → V) : String → Option V :=
  fun k' => if k' = k then (m k').map f else m k'

@[simp] theorem adjust_self {V : Type} (m : String → Option V) (k : String) (f : V → V) :
    adjust m k f k = (m k).map f := by
  simp [adjust]

theorem adjust_ne {V : Type} (m : String → Option V) {k k' : String} (f : V → V) (h : k' ≠ k) :
    adjust m k f k' = m k' := by
  simp [adjust, h]

theorem adjust_none {V : Type} {m : String → Option V} {k : String} (f : V → V) (h : m k = none) :
    adjust m k f = m := by
  funext k'
  by_cases hk : k' = k
  · subst hk; rw [adjust_self, h]; rfl
  · exact adjust_ne m f hk

theorem adjust_some {V : Type} {m : String → Option V} {k : String} {v : V} (f : V → V) (h : m k = some v) :
    adjust m k f = store m k (f v) := by
  funext k'
  by_cases hk : k' = k
  · subst hk; rw [adjust_self, store_self, h]; rfl
  · rw [adjust_ne m f hk, store_ne m _ hk]

theorem map_adjust {V W : Type} (m : String → Option V) (k k' : String) {f : V → V} {g : V → W}
    (h : ∀ v, g (f v) = g v) : (adjust m k f k').map g = (m k').map g := by
  by_cases hk : k' = k
  · subst hk; rw [adjust_self, Option.map_map]; congr 1; exact funext h
  · rw [adjust_ne m f hk]

section Manager

variable {F : Type} [LinearOrder F] [Zero F] [Add F] [Sub F] [Div F]

def newManager (now : Time) (config : Config F) : Manager F where
  rateLimiters := fun identifier => (config.rateLimits identifier).map (RateLimit.newLimiter now)
  budgets := fun identifier => (config.budgets identifier).map Budget.newTracker
  enforcer := newEnforcer config.enforcement
  rateLimitConfigs := config.rateLimits
  budgetConfigs := config.budgets
  enforcementConfig := config.enforcement

namespace Manager

def getRateLimiter (m : Manager F) (now : Time) (identifier : String) : Option RateLimit.Limiter × Manager F :=
  match m.rateLimiters identifier with
  | some limiter => (some limiter, m)
  | none =>
    match m.rateLimitConfigs identifier with
    | none => (none, m)
    | some config =>
      let limiter := RateLimit.newLimiter now config
      (some limiter, { m with rateLimiters := store m.rateLimiters identifier limiter })

def getBudgetTracker (m : Manager F) (identifier : String) : Option (Budget.Tracker F) × Manager F :=
  match m.budgets identifier with
  | some tracker => (some tracker, m)
  | none =>
    match m.budgetConfigs identifier with
    | none => (none, m)
    | some config =>
      let tracker := Budget.newTracker config
      (some tracker, { m with budgets := store m.budgets identifier tracker })

def rejectRate (m : Manager F) (identifier model : String) (result : RateLimit.CheckResult) :
    LimitCheckResult F :=
  let enforced := m.enforcer.enforce m.enforcementConfig.defaultAction result.reason model result.retryAfter
  { allowed := enforced.allowed
    reason := result.reason
    rateLimit := some { dimension := "api_key", identifier, limit := result.limit,
                        remaining := result.remaining, reset := result.reset, window := 0 }
    action := enforced.action
    retryAfter := enforced.retryAfter
    downgradeTo := enforced.downgradedModel }

/-- The rate-limit half of `CheckLimits`: the result, if a limit is exceeded, and the limiter left
behind. -/
def checkRate (m : Manager F) (now : Time) (identifier : String) (estimatedTokens : Int) (model : String)
    (limiter : RateLimit.Limiter) : Option (LimitCheckResult F) × RateLimit.Limiter :=
  let (result, limiter) := limiter.checkRequest now
  if result.allowed then
    let (result, limiter) := limiter.checkTokens now estimatedTokens
    if result.allowed then (none, limiter) else (some (m.rejectRate identifier model result), limiter)
  else (some (m.rejectRate identifier model result), limiter)

def budgetInfo (identifier : String) (status : Budget.Status F) : BudgetInfo F :=
  { dimension := "api_key", identifier, limit := status.limit, used := status.used,
    remaining := status.remaining, percentage := status.percentage, reset := status.reset,
    window := status.window }

def budgetResult (m : Manager F) (identifier model : String) (status : Budget.Status F) : LimitCheckResult F :=
  if status.allowed then
    if status.alertTriggered then
      { allowed := true, budget := some (budgetInfo identifier status), action := .alert }
    else { allowed := true }
  else
    let enforced := m.enforcer.enforce m.enforcementConfig.defaultAction status.reason model 0
    { allowed := enforced.allowed
      reason := status.reason
      budget := some (budgetInfo identifier status)
      action := enforced.action
      downgradeTo := enforced.downgradedModel }

def checkRateLimits (m : Manager F) (now : Time) (identifier : String) (estimatedTokens : Int)
    (model : String) (rateLimiter : Option RateLimit.Limiter) : Option (LimitCheckResult F) × Manager F :=
  match rateLimiter with
  | none => (none, m)
  | some limiter =>
    let (result, limiter) := m.checkRate now identifier estimatedTokens model limiter
    (result, { m with rateLimiters := store m.rateLimiters identifier limiter })

def checkBudget (m : Manager F) (now : Time) (identifier model : String)
    (budgetTracker : Option (Budget.Tracker F)) : LimitCheckResult F × Manager F :=
  match budgetTracker with
  | none => ({ allowed := true }, m)
  | some tracker =>
    let (status, tracker) := tracker.check now
    (m.budgetResult identifier model status, { m with budgets := store m.budgets identifier tracker })

/-- `CheckLimits`. The estimated cost is a parameter the source does not use; the error is always
nil. -/
def checkLimits (m : Manager F) (now : Time) (identifier : String) (estimatedTokens : Int)
    (_estimatedCost : F) (model : String) : LimitCheckResult F × Manager F :=
  let (rateLimiter, m) := m.getRateLimiter now identifier
  let (budgetTracker, m) := m.getBudgetTracker identifier
  match m.checkRateLimits now identifier estimatedTokens model rateLimiter with
  | (some result, m) => (result, m)
  | (none, m) => m.checkBudget now identifier model budgetTracker

def recordUsage (m : Manager F) (now : Time) (record : UsageRecord F) : Manager F :=
  let (rateLimiter, m) := m.getRateLimiter now record.identifier
  let m := match rateLimiter with
    | none => m
    | some limiter =>
      { m with rateLimiters := store m.rateLimiters record.identifier
                 (limiter.recordTokens now record.totalTokens) }
  let (budgetTracker, m) := m.getBudgetTracker record.identifier
  match budgetTracker with
  | none => m
  | some tracker => { m with budgets := store m.budgets record.identifier (tracker.add now record.cost) }

def acquireConcurrent (m : Manager F) (now : Time) (identifier : String) : Bool × Manager F :=
  let (rateLimiter, m) := m.getRateLimiter now identifier
  match rateLimiter with
  | none => (true, m)
  | some limiter =>
    let (acquired, limiter) := limiter.acquireConcurrent
    (acquired, { m with rateLimiters := store m.rateLimiters identifier limiter })

def releaseConcurrent (m : Manager F) (now : Time) (identifier : String) : Manager F :=
  let (rateLimiter, m) := m.getRateLimiter now identifier
  match rateLimiter with
  | none => m
  | some limiter => { m with rateLimiters := store m.rateLimiters identifier limiter.releaseConcurrent }

end Manager

/-! ## Runs -/

inductive Call (F : Type) where
  | checkLimits (identifier : String) (estimatedTokens : Int) (estimatedCost : F) (model : String)
  | recordUsage (record : UsageRecord F)
  | acquireConcurrent (identifier : String)
  | releaseConcurrent (identifier : String)

namespace Manager

def call (m : Manager F) (now : Time) : Call F → Manager F
  | .checkLimits identifier tokens cost model => (m.checkLimits now identifier tokens cost model).2
  | .recordUsage record => m.recordUsage now record
  | .acquireConcurrent identifier => (m.acquireConcurrent now identifier).2
  | .releaseConcurrent identifier => m.releaseConcurrent now identifier

def calls (m : Manager F) (cs : List (Time × Call F)) : Manager F := cs.foldl (fun m c => m.call c.1 c.2) m

end Manager

end Manager

/-! ## Ready managers

`NewManager` creates a limiter and a tracker for every configured identifier and no call removes one,
so the branches of `getRateLimiter` and `getBudgetTracker` that create them are not taken in a run,
and each call changes the entries of its own identifier only. -/

namespace Manager

section Ready

variable {F : Type} [LinearOrder F] [Zero F]

/-- Every configured identifier has its limiter and its tracker, each with its own configuration. -/
structure Ready (config : Config F) (m : Manager F) : Prop where
  enforcer : m.enforcer = newEnforcer config.enforcement
  enforcement : m.enforcementConfig = config.enforcement
  rateLimitConfigs : m.rateLimitConfigs = config.rateLimits
  budgetConfigs : m.budgetConfigs = config.budgets
  limiter : ∀ i, (m.rateLimiters i).map (·.config) = config.rateLimits i
  tracker : ∀ i, (m.budgets i).map (·.config) = config.budgets i

theorem newManager_ready (now : Time) (config : Config F) : Ready config (newManager now config) := by
  refine ⟨rfl, rfl, rfl, rfl, ?_, ?_⟩
  · intro i; simp [newManager, RateLimit.newLimiter, Function.comp_def]
  · intro i; simp [newManager, Budget.newTracker, Function.comp_def]

variable {config : Config F} {m : Manager F}

theorem Ready.getRateLimiter_eq (h : Ready config m) (now : Time) (i : String) :
    m.getRateLimiter now i = (m.rateLimiters i, m) := by
  unfold getRateLimiter
  cases hl : m.rateLimiters i with
  | some l => rfl
  | none =>
    have hc : m.rateLimitConfigs i = none := by rw [h.rateLimitConfigs, ← h.limiter i, hl]; rfl
    rw [hc]

theorem Ready.getBudgetTracker_eq (h : Ready config m) (i : String) :
    m.getBudgetTracker i = (m.budgets i, m) := by
  unfold getBudgetTracker
  cases ht : m.budgets i with
  | some t => rfl
  | none =>
    have hc : m.budgetConfigs i = none := by rw [h.budgetConfigs, ← h.tracker i, ht]; rfl
    rw [hc]

theorem Ready.adjust_limiter (h : Ready config m) (i : String) {f : RateLimit.Limiter → RateLimit.Limiter}
    (hf : ∀ l, (f l).config = l.config) :
    Ready config { m with rateLimiters := adjust m.rateLimiters i f } :=
  ⟨h.enforcer, h.enforcement, h.rateLimitConfigs, h.budgetConfigs,
    fun j => (map_adjust m.rateLimiters i j hf).trans (h.limiter j), h.tracker⟩

theorem Ready.adjust_tracker (h : Ready config m) (i : String) {f : Budget.Tracker F → Budget.Tracker F}
    (hf : ∀ t, (f t).config = t.config) :
    Ready config { m with budgets := adjust m.budgets i f } :=
  ⟨h.enforcer, h.enforcement, h.rateLimitConfigs, h.budgetConfigs, h.limiter,
    fun j => (map_adjust m.budgets i j hf).trans (h.tracker j)⟩

theorem Ready.acquireConcurrent_eq (h : Ready config m) (now : Time) (i : String) :
    (m.acquireConcurrent now i).2 =
      { m with rateLimiters := adjust m.rateLimiters i fun l => l.acquireConcurrent.2 } := by
  unfold acquireConcurrent
  rw [h.getRateLimiter_eq]
  cases hl : m.rateLimiters i with
  | none => rw [adjust_none _ hl]
  | some l => rw [adjust_some _ hl]

theorem Ready.releaseConcurrent_eq (h : Ready config m) (now : Time) (i : String) :
    m.releaseConcurrent now i = { m with rateLimiters := adjust m.rateLimiters i (·.releaseConcurrent) } := by
  unfold releaseConcurrent
  rw [h.getRateLimiter_eq]
  cases hl : m.rateLimiters i with
  | none => rw [adjust_none _ hl]
  | some l => rw [adjust_some _ hl]

theorem checkRateLimits_eq (m : Manager F) (now : Time) (i : String) (tokens : Int) (model : String) :
    m.checkRateLimits now i tokens model (m.rateLimiters i) =
      ((m.rateLimiters i).bind fun l => (m.checkRate now i tokens model l).1,
        { m with rateLimiters := adjust m.rateLimiters i fun l => (m.checkRate now i tokens model l).2 }) := by
  unfold checkRateLimits
  cases hl : m.rateLimiters i with
  | none => rw [adjust_none _ hl]; rfl
  | some l => rw [adjust_some _ hl]; rfl

theorem checkRate_config (m : Manager F) (now : Time) (i : String) (tokens : Int) (model : String)
    (l : RateLimit.Limiter) : (m.checkRate now i tokens model l).2.config = l.config := by
  unfold checkRate
  simp only []
  split
  · split <;> simp
  · simp

theorem Ready.enforce_block (h : Ready config m) (hb : config.enforcement.defaultAction = .block)
    (reason model : String) (retryAfter : Duration) :
    (m.enforcer.enforce m.enforcementConfig.defaultAction reason model retryAfter).allowed = false := by
  rw [h.enforcement, hb]; rfl

theorem Ready.checkRate_rejects (h : Ready config m) (hb : config.enforcement.defaultAction = .block)
    {now : Time} {i : String} {tokens : Int} {model : String} {l : RateLimit.Limiter} {r : LimitCheckResult F}
    (hr : (m.checkRate now i tokens model l).1 = some r) : r.allowed = false := by
  unfold checkRate at hr
  simp only [] at hr
  split at hr
  · split at hr
    · cases hr
    · cases hr; exact h.enforce_block hb _ _ _
  · cases hr; exact h.enforce_block hb _ _ _

variable [Add F]

theorem Ready.recordUsage_eq (h : Ready config m) (now : Time) (r : UsageRecord F) :
    m.recordUsage now r =
      { m with
        rateLimiters := adjust m.rateLimiters r.identifier (·.recordTokens now r.totalTokens)
        budgets := adjust m.budgets r.identifier (·.add now r.cost) } := by
  have h' := h.adjust_limiter r.identifier fun l => RateLimit.Limiter.recordTokens_config l now r.totalTokens
  unfold recordUsage
  rw [h.getRateLimiter_eq]
  cases hl : m.rateLimiters r.identifier with
  | none =>
    rw [adjust_none _ hl]
    simp only [h.getBudgetTracker_eq]
    cases ht : m.budgets r.identifier with
    | none => rw [adjust_none _ ht]
    | some t => rw [adjust_some _ ht]
  | some l =>
    rw [adjust_some _ hl] at h' ⊢
    simp only [h'.getBudgetTracker_eq]
    cases ht : m.budgets r.identifier with
    | none => rw [adjust_none _ ht]
    | some t => rw [adjust_some _ ht]

variable [Sub F] [Div F]

theorem checkBudget_eq (m : Manager F) (now : Time) (i model : String) :
    m.checkBudget now i model (m.budgets i) =
      (match m.budgets i with
        | none => { allowed := true }
        | some t => m.budgetResult i model (t.check now).1,
        { m with budgets := adjust m.budgets i fun t => (t.check now).2 }) := by
  unfold checkBudget
  cases ht : m.budgets i with
  | none => rw [adjust_none _ ht]
  | some t => rw [adjust_some _ ht]

/-- `CheckLimits` on a ready manager: the rejection of the identifier's limiter, if there is one, or
else the verdict of its tracker. -/
theorem Ready.checkLimits_eq (h : Ready config m) (now : Time) (i : String) (tokens : Int) (cost : F)
    (model : String) :
    m.checkLimits now i tokens cost model =
      let m' : Manager F :=
        { m with rateLimiters := adjust m.rateLimiters i fun l => (m.checkRate now i tokens model l).2 }
      match (m.rateLimiters i).bind fun l => (m.checkRate now i tokens model l).1 with
      | some result => (result, m')
      | none => m'.checkBudget now i model (m.budgets i) := by
  unfold checkLimits
  rw [h.getRateLimiter_eq]
  simp only [h.getBudgetTracker_eq, checkRateLimits_eq]
  cases (m.rateLimiters i).bind fun l => (m.checkRate now i tokens model l).1 <;> rfl

theorem Ready.checkLimits_entries (h : Ready config m) (now : Time) (i : String) (tokens : Int) (cost : F)
    (model : String) :
    let verdict := (m.rateLimiters i).bind fun l => (m.checkRate now i tokens model l).1
    (m.checkLimits now i tokens cost model).1 = (match verdict, m.budgets i with
      | some result, _ => result
      | none, none => { allowed := true }
      | none, some t => m.budgetResult i model (t.check now).1) ∧
    (m.checkLimits now i tokens cost model).2 = { m with
      rateLimiters := adjust m.rateLimiters i fun l => (m.checkRate now i tokens model l).2
      budgets := if verdict.isSome then m.budgets else adjust m.budgets i fun t => (t.check now).2 } := by
  simp only [h.checkLimits_eq]
  cases hv : (m.rateLimiters i).bind fun l => (m.checkRate now i tokens model l).1 with
  | some result => exact ⟨rfl, rfl⟩
  | none =>
    have hbudget := checkBudget_eq
      { m with rateLimiters := adjust m.rateLimiters i fun l => (m.checkRate now i tokens model l).2 } now i model
    dsimp only at hbudget ⊢
    rw [hbudget]
    cases m.budgets i with
    | none => exact ⟨rfl, rfl⟩
    | some t => exact ⟨rfl, rfl⟩

theorem Ready.call (h : Ready config m) (now : Time) (c : Call F) : Ready config (m.call now c) := by
  cases c with
  | checkLimits i tokens cost model =>
    have h' := h.adjust_limiter i (m.checkRate_config now i tokens model)
    show Ready config (m.checkLimits now i tokens cost model).2
    rw [h.checkLimits_eq]
    simp only []
    split
    · exact h'
    · exact (congrArg (Ready config ·.2) (checkBudget_eq _ now i model)).mpr
        (h'.adjust_tracker i fun t => Budget.Tracker.check_config t now)
  | recordUsage r =>
    show Ready config (m.recordUsage now r)
    rw [h.recordUsage_eq]
    exact (h.adjust_limiter _ fun l => RateLimit.Limiter.recordTokens_config l now _).adjust_tracker _
      fun t => Budget.Tracker.add_config t now _
  | acquireConcurrent i =>
    show Ready config (m.acquireConcurrent now i).2
    rw [h.acquireConcurrent_eq]
    exact h.adjust_limiter i RateLimit.Limiter.acquireConcurrent_config
  | releaseConcurrent i =>
    show Ready config (m.releaseConcurrent now i)
    rw [h.releaseConcurrent_eq]
    exact h.adjust_limiter i RateLimit.Limiter.releaseConcurrent_config

theorem Ready.calls (h : Ready config m) (cs : List (Time × Call F)) : Ready config (m.calls cs) := by
  induction cs generalizing m with
  | nil => exact h
  | cons c cs ih => exact ih (h.call c.1 c.2)

end Ready

end Manager

end Jupiter.Limits
