/-
`pkg/proxy/middleware/limits.go`: the middleware that asks the limits manager before it forwards a request.

The handler behind the middleware is any that leaves the manager alone: nothing in the repository outside the limits
package calls `RecordUsage`, the middleware included.

`CheckLimits` never returns an error, so the reply for one is left out.
-/
import Jupiter.Go.Value
import Jupiter.Limits.Unused

namespace Jupiter.Proxy

open Jupiter.Go Jupiter.Limits

/-! ## Requests -/

structure EnrichedRequest (F : Type) where
  estimatedTokens : Int
  estimatedCost : F
  model : String

/-- What the middleware reads of a request; a header that is not there is the empty string. -/
structure HttpRequest (F : Type) where
  authorization : String := ""
  userID : String := ""
  enriched : Option (EnrichedRequest F) := none

/-- `proxy.ExtractAPIKey`: what follows `Bearer` and a space, in any capitalization. -/
def extractAPIKey (authorization : String) : String :=
  match authorization.toList.span (· ≠ ' ') with
  | (scheme, _ :: key) =>
    if scheme.map Char.toLower = "bearer".toList then String.ofList (Strings.trimSpace key) else ""
  | (_, []) => ""

def extractIdentifier {F : Type} (r : HttpRequest F) : String :=
  if extractAPIKey r.authorization ≠ "" then extractAPIKey r.authorization else r.userID

/-! ## Replies -/

/-- What becomes of a request: the next handler gets it, with the model it is downgraded to, or the client gets a
status and a body. -/
inductive Reply where
  | forwarded (downgradeTo : Option String)
  | refused (status : Nat) (body : String)

structure Response where
  headers : List (String × String) := []
  reply : Reply

def Response.isForwarded (r : Response) : Bool :=
  match r.reply with
  | .forwarded _ => true
  | .refused _ _ => false

def setHeader (headers : List (String × String)) (key value : String) : List (String × String) :=
  headers.filter (·.1 ≠ key) ++ [(key, value)]

section Replies

variable {F : Type} (format : F → String)

def setLimitHeaders (result : LimitCheckResult F) : List (String × String) :=
  (match result.rateLimit with
    | none => []
    | some info => [("X-RateLimit-Limit", info.limit.repr), ("X-RateLimit-Remaining", info.remaining.repr),
        ("X-RateLimit-Reset", (Time.unix info.reset).repr)]) ++
  (match result.budget with
    | none => []
    | some info => [("X-Budget-Limit", format info.limit), ("X-Budget-Used", format info.used),
        ("X-Budget-Remaining", format info.remaining), ("X-Budget-Reset", (Time.unix info.reset).repr)]) ++
  if 0 < result.retryAfter then [("Retry-After", (result.retryAfter / Duration.second).repr)] else []

def violation (result : LimitCheckResult F) : Reply :=
  .refused 429 ("\x7b\"error\": \x7b\"message\": \"" ++ result.reason ++ "\", \"type\": \"rate_limit_exceeded\"\x7d\x7d")

end Replies

/-! ## The middleware -/

/-- A request and the instants of the three calls the middleware makes for it. The request is forwarded between the
second and the third. -/
structure Visit (F : Type) where
  request : HttpRequest F
  checkedAt : Time
  acquiredAt : Time
  releasedAt : Time

section Middleware

variable {F : Type} [LinearOrder F] [Zero F] [Add F] [Sub F] [Div F] (format : F → String) (cent : F)

def HttpRequest.estimate (r : HttpRequest F) : EnrichedRequest F :=
  r.enriched.getD { estimatedTokens := 1000, estimatedCost := cent, model := "gpt-4" }

def limitsMiddleware (m : Limits.Manager F) (v : Visit F) : Response × Limits.Manager F :=
  let identifier := extractIdentifier v.request
  if identifier = "" then ({ reply := .forwarded none }, m)
  else
    let enriched := v.request.estimate cent
    let (result, m) := m.checkLimits v.checkedAt identifier enriched.estimatedTokens enriched.estimatedCost enriched.model
    let headers := setLimitHeaders format result
    if result.allowed then
      let downgradeTo := if result.action = .downgrade ∧ result.downgradeTo ≠ "" then some result.downgradeTo else none
      let (acquired, m) := m.acquireConcurrent v.acquiredAt identifier
      if acquired then
        ({ headers, reply := .forwarded downgradeTo }, m.releaseConcurrent v.releasedAt identifier)
      else
        ({ headers := setHeader headers "X-RateLimit-Limit" "concurrent"
           reply := .refused 429 "Too many concurrent requests\n" }, m)
    else ({ headers, reply := violation result }, m)

/-- A request the next handler got, with its estimates. -/
structure Forwarded (F : Type) where
  time : Time
  tokens : Int
  cost : F
  deriving DecidableEq

def Visit.entry (v : Visit F) : Forwarded F :=
  { time := v.acquiredAt
    tokens := (v.request.estimate cent).estimatedTokens
    cost := (v.request.estimate cent).estimatedCost }

def forwarded (m : Limits.Manager F) : List (Visit F) → List (Forwarded F)
  | [] => []
  | v :: vs =>
    if (limitsMiddleware format cent m v).1.isForwarded then
      v.entry cent :: forwarded (limitsMiddleware format cent m v).2 vs
    else forwarded (limitsMiddleware format cent m v).2 vs

end Middleware

/-! ## What is forwarded -/

section Load

variable {F : Type} (cent : F)

/-- The requests of a sequence that are let through while nothing is recorded. -/
def admitted (l : Option RateLimit.Limiter) : List (Visit F) → List (Forwarded F)
  | [] => []
  | v :: vs =>
    if RateLimit.letsThrough l v.checkedAt (v.entry cent).tokens then
      v.entry cent :: admitted (l.map fun l => (l.checkRequest v.checkedAt).2) vs
    else admitted (l.map fun l => (l.checkRequest v.checkedAt).2) vs

/-- The load a sequence of requests puts on a key: its requests that are within the request counts and, each on its
own, within the token limits. -/
def load (config : Limits.Config F) (start : Time) (key : String) (vs : List (Visit F)) : List (Forwarded F) :=
  admitted cent ((config.rateLimits key).map (RateLimit.newLimiter start)) vs

end Load

section Run

variable {F : Type} [LinearOrder F] [Zero F] [Add F] [Sub F] [Div F] (format : F → String) (cent : F)
  {config : Limits.Config F} {key : String} {m : Limits.Manager F}

theorem limitsMiddleware_idle (h : m.Idle config key) (hb : config.enforcement.defaultAction = .block) (hk : key ≠ "")
    {v : Visit F} (hv : extractAPIKey v.request.authorization = key) :
    (limitsMiddleware format cent m v).1.isForwarded =
        RateLimit.letsThrough (m.rateLimiters key) v.checkedAt (v.entry cent).tokens ∧
      (limitsMiddleware format cent m v).2.Idle config key ∧
      (limitsMiddleware format cent m v).2.rateLimiters key =
        (m.rateLimiters key).map fun l => (l.checkRequest v.checkedAt).2 := by
  have hid : extractIdentifier v.request = key := by
    unfold extractIdentifier
    rw [hv, if_pos hk]
  have hentry : (v.entry cent).tokens = (v.request.estimate cent).estimatedTokens := rfl
  obtain ⟨hallowed, hidle, hlimiter⟩ := h.checkLimits hb v.checkedAt (v.request.estimate cent).estimatedTokens
    (v.request.estimate cent).estimatedCost (v.request.estimate cent).model
  obtain ⟨hslot, hidle', hlimiter'⟩ := hidle.slot v.acquiredAt v.releasedAt
  unfold limitsMiddleware
  simp only [hid, if_neg hk, hallowed, hslot, if_true, hentry]
  cases RateLimit.letsThrough (m.rateLimiters key) v.checkedAt (v.request.estimate cent).estimatedTokens with
  | false => exact ⟨rfl, hidle, hlimiter⟩
  | true => exact ⟨rfl, hidle', hlimiter'.trans hlimiter⟩

theorem forwarded_idle (hb : config.enforcement.defaultAction = .block) (hk : key ≠ "") :
    ∀ (vs : List (Visit F)) {m : Limits.Manager F}, (∀ v ∈ vs, extractAPIKey v.request.authorization = key) →
      m.Idle config key → forwarded format cent m vs = admitted cent (m.rateLimiters key) vs
  | [], _, _, _ => rfl
  | v :: vs, m, hvs, h => by
    obtain ⟨hforward, hidle, hlimiter⟩ := limitsMiddleware_idle format cent h hb hk (hvs v List.mem_cons_self)
    have hrest := forwarded_idle hb hk vs (fun w hw => hvs w (List.mem_cons_of_mem _ hw)) hidle
    rw [forwarded, admitted, hforward, hrest, hlimiter]

/-- The middleware forwards the load: what was forwarded before makes no difference. -/
theorem forwarded_eq_load (hb : config.enforcement.defaultAction = .block) (hk : key ≠ "") (start : Time)
    (vs : List (Visit F)) (hvs : ∀ v ∈ vs, extractAPIKey v.request.authorization = key) :
    forwarded format cent (newManager start config) vs = load cent config start key vs :=
  forwarded_idle format cent hb hk vs hvs (Manager.newManager_idle start config key)

end Run

/-! ## Limits -/

section Enforced

variable {F α : Type} [Zero α] [Add α]

def inWindow (span : Duration) (t : Time) (log : List (Forwarded F)) : List (Forwarded F) :=
  log.filter fun f => t - span < f.time && f.time ≤ t

def sumOf (amount : Forwarded F → α) (log : List (Forwarded F)) : α := log.foldl (fun s f => s + amount f) 0

/-- In no window do the amounts of a log exceed the limit by more than one of them. -/
def Enforced [LE α] (limit : α) (span : Duration) (amount : Forwarded F → α) (log : List (Forwarded F)) : Prop :=
  ∀ t, sumOf amount (inWindow span t log) ≤ limit ∨
    ∃ f ∈ inWindow span t log, sumOf amount (inWindow span t log) ≤ limit + amount f

end Enforced

/-- The middleware keeps a key within its token limit, and within its hourly budget, exactly when the load on the
key is within it already. -/
theorem limits_enforced_iff {F : Type} [LinearOrder F] [Zero F] [Add F] [Sub F] [Div F] (format : F → String) (cent : F)
    (config : Limits.Config F) (hb : config.enforcement.defaultAction = .block) (start : Time) (key : String)
    (hk : key ≠ "") (vs : List (Visit F)) (hvs : ∀ v ∈ vs, extractAPIKey v.request.authorization = key) :
    (∀ c, config.rateLimits key = some c → 0 < c.tokensPerMinute →
      (Enforced c.tokensPerMinute Duration.minute Forwarded.tokens
          (forwarded format cent (newManager start config) vs) ↔
        Enforced c.tokensPerMinute Duration.minute Forwarded.tokens (load cent config start key vs))) ∧
    ∀ b, config.budgets key = some b → 0 < b.hourly →
      (Enforced b.hourly Duration.hour Forwarded.cost (forwarded format cent (newManager start config) vs) ↔
        Enforced b.hourly Duration.hour Forwarded.cost (load cent config start key vs)) := by
  have heq := forwarded_eq_load format cent hb hk start vs hvs
  rw [heq]
  exact ⟨fun _ _ _ => Iff.rfl, fun _ _ _ => Iff.rfl⟩

def smallLimits : Limits.Config ℚ where
  rateLimits i := if i = "k" then some { tokensPerMinute := 100 } else none
  budgets i := if i = "k" then some { hourly := 1, daily := 0, monthly := 0, alertThreshold := 0 } else none
  enforcement := { defaultAction := .block }

def wholeLimit (t : Time) : Visit ℚ where
  request := { authorization := "Bearer k", enriched := some ⟨100, 1, "gpt-4"⟩ }
  checkedAt := t
  acquiredAt := t
  releasedAt := t + Duration.second

def thrice : List (Visit ℚ) :=
  [Duration.minute, 90 * Duration.second, 4 * Duration.minute].map fun t =>
    { wholeLimit t with request := { authorization := "Bearer k", enriched := some ⟨100, 1 / 4, "gpt-4"⟩ } }

/-- Two requests within one minute, of which one is over the limit, and a third one later. -/
theorem limits_enforced_thrice :
    let log := forwarded (fun _ => "") (1 / 100) (newManager Duration.second smallLimits) thrice
    Enforced 100 Duration.minute Forwarded.tokens log ∧ Enforced 1 Duration.hour Forwarded.cost log := by
  have hload : load (1 / 100) smallLimits Duration.second "k" thrice =
      [⟨Duration.minute, 100, 1 / 4⟩, ⟨90 * Duration.second, 100, 1 / 4⟩, ⟨4 * Duration.minute, 100, 1 / 4⟩] := by
    decide +kernel
  obtain ⟨htokens, hcost⟩ := limits_enforced_iff (fun _ => "") (1 / 100) smallLimits rfl Duration.second "k" (by decide)
    thrice (by decide +kernel)
  refine ⟨(htokens _ rfl (by decide)).2 fun t => ?_, (hcost _ rfl (by decide)).2 fun t => ?_⟩
  · rw [hload]
    have hapart : ∀ t : Int, t - 60000000000 < 60000000000 → ¬ 240000000000 ≤ t := by omega
    simp only [inWindow, List.filter_cons, List.filter_nil]
    split <;> split <;> split
    · -- no window of a minute has all three
      rename_i hfirst _ hthird
      simp only [Bool.and_eq_true, decide_eq_true_eq] at hfirst hthird
      exact absurd hthird.2 (hapart t hfirst.1)
    all_goals first
      | exact .inl (by decide)
      | exact .inr ⟨_, List.mem_cons_self, by decide⟩
  · rw [hload]
    left
    simp only [inWindow, List.filter_cons, List.filter_nil]
    split <;> split <;> split <;> decide +kernel

/-- Three requests, each as large as both limits, within three seconds: all are forwarded. -/
theorem three_times_the_limit :
    let log := forwarded (fun _ => "") (1 / 100) (newManager Duration.second smallLimits)
      [wholeLimit Duration.minute, wholeLimit (Duration.minute + Duration.second),
        wholeLimit (Duration.minute + 2 * Duration.second)]
    log.map Forwarded.tokens = [100, 100, 100] ∧ log.map Forwarded.cost = [1, 1, 1] ∧
      ¬ Enforced 100 Duration.minute Forwarded.tokens log ∧ ¬ Enforced 1 Duration.hour Forwarded.cost log := by
  have hlog : forwarded (fun _ => "") (1 / 100) (newManager Duration.second smallLimits)
      [wholeLimit Duration.minute, wholeLimit (Duration.minute + Duration.second),
        wholeLimit (Duration.minute + 2 * Duration.second)] =
      [⟨Duration.minute, 100, 1⟩, ⟨Duration.minute + Duration.second, 100, 1⟩,
        ⟨Duration.minute + 2 * Duration.second, 100, 1⟩] := by decide +kernel
  intro log
  rw [show log = _ from hlog]
  refine ⟨rfl, rfl, ?_, ?_⟩
  · intro h
    exact absurd (h (Duration.minute + 2 * Duration.second)) (by decide +kernel)
  · intro h
    exact absurd (h (Duration.minute + 2 * Duration.second)) (by decide +kernel)

end Jupiter.Proxy
