/-
What a rejected request leaves behind in the request buckets.

`CheckRequest` takes a token from each configured bucket in turn and does not put it back when a later bucket, a token
window or the budget rejects the request.
-/
import Jupiter.Limits.Manager

namespace Jupiter.Limits

open Jupiter.Go

namespace RateLimit

/-! ## One bucket -/

namespace TokenBucket

/-- How many requests the bucket still admits at `now`. -/
def admits (tb : TokenBucket) (now : Time) : Nat := (tb.remaining now).1.toNat

theorem refillLocked_again (tb : TokenBucket) (now : Time) (n : Int) :
    ({ tb.refillLocked now with tokens := n } : TokenBucket).refillLocked now =
      { tb.refillLocked now with tokens := n } := by
  unfold refillLocked
  dsimp only
  split
  · -- the first refill has moved `lastRefill` to `now`
    simp [int64]
  · rfl

theorem refillLocked_twice (tb : TokenBucket) (now : Time) :
    (tb.refillLocked now).refillLocked now = tb.refillLocked now :=
  tb.refillLocked_again now (tb.refillLocked now).tokens

theorem refillLocked_capacity (tb : TokenBucket) (now : Time) : (tb.refillLocked now).capacity = tb.capacity := by
  unfold refillLocked
  dsimp only
  split <;> rfl

theorem admits_refilled (tb : TokenBucket) (now : Time) (n : Int) :
    ({ tb.refillLocked now with tokens := n } : TokenBucket).admits now = n.toNat := by
  unfold admits remaining
  rw [refillLocked_again]

theorem take_spec (tb : TokenBucket) (now : Time) :
    (tb.admits now = 0 ∧ tb.take now 1 = (false, tb.refillLocked now)) ∨
      ∃ tb' : TokenBucket, tb.admits now = tb'.admits now + 1 ∧ tb.take now 1 = (true, tb') := by
  by_cases h : 1 ≤ (tb.refillLocked now).tokens
  · refine .inr ⟨{ tb.refillLocked now with tokens := (tb.refillLocked now).tokens - 1 }, ?_, if_pos h⟩
    rw [admits_refilled]
    show (tb.refillLocked now).tokens.toNat = _
    omega
  · refine .inl ⟨?_, if_neg h⟩
    show (tb.refillLocked now).tokens.toNat = 0
    omega

end TokenBucket

namespace Limiter

theorem checkBucket_none (now : Time) (reason : String) (span : Duration) :
    checkBucket now reason span none = (none, none) := rfl

theorem checkBucket_of_empty (now : Time) (reason : String) (span : Duration) {tb : TokenBucket}
    (h : tb.take now 1 = (false, tb.refillLocked now)) :
    checkBucket now reason span (some tb) =
      (some { allowed := false, reason, limit := (tb.refillLocked now).capacity
              remaining := (tb.refillLocked now).tokens, reset := now + span
              retryAfter := ((tb.refillLocked now).timeUntilAvailable now 1).1 }, some (tb.refillLocked now)) := by
  -- `TimeUntilAvailable` and `Remaining` refill once more
  have hwait : ((tb.refillLocked now).timeUntilAvailable now 1).2 = tb.refillLocked now := by
    unfold TokenBucket.timeUntilAvailable
    simp only [TokenBucket.refillLocked_twice]
    split <;> rfl
  simp only [checkBucket, h, hwait, TokenBucket.remaining, TokenBucket.refillLocked_twice, Bool.false_eq_true, if_false]

theorem checkBucket_spec (now : Time) (reason : String) (span : Duration) (tb : TokenBucket) :
    (tb.admits now = 0 ∧ ∃ r tb', checkBucket now reason span (some tb) = (some r, some tb') ∧
        r.allowed = false ∧ tb'.admits now = 0) ∨
      ∃ tb', tb.admits now = tb'.admits now + 1 ∧ checkBucket now reason span (some tb) = (none, some tb') := by
  rcases tb.take_spec now with ⟨h0, ht⟩ | ⟨tb', hs, ht⟩
  · refine .inl ⟨h0, ?_⟩
    refine ⟨_, _, checkBucket_of_empty now reason span ht, rfl, ?_⟩
    rw [← h0]
    exact tb.admits_refilled now (tb.refillLocked now).tokens
  · refine .inr ⟨tb', hs, ?_⟩
    simp only [checkBucket, ht]
    rfl

end Limiter

/-! ## The buckets of a limiter -/

/-- The spans of the request buckets, in the order `CheckRequest` consults them. -/
inductive Span where
  | second
  | minute
  | hour
  deriving DecidableEq

namespace Limiter

def bucket (l : Limiter) : Span → Option TokenBucket
  | .second => l.reqPerSecond
  | .minute => l.reqPerMinute
  | .hour => l.reqPerHour

/-- How many requests the bucket of a span still admits, if it is configured. -/
def admits (l : Limiter) (now : Time) (span : Span) : Option Nat := (l.bucket span).map (·.admits now)

def firstBucket (l : Limiter) : Option TokenBucket := l.reqPerSecond <|> l.reqPerMinute <|> l.reqPerHour

theorem checkRequest_admits_iff (l : Limiter) (now : Time) :
    (∀ span, (l.checkRequest now).2.admits now span = l.admits now span) ↔
      ∀ tb ∈ l.firstBucket, tb.admits now = 0 := by
  cases hs : l.reqPerSecond with
  | some tb =>
    have hfirst : l.firstBucket = some tb := by simp [firstBucket, hs]
    rcases checkBucket_spec now "requests per second limit exceeded" Duration.second tb with
      ⟨h0, r, tb', hc, -, h0'⟩ | ⟨tb', hless, hc⟩
    · refine iff_of_true ?_ (by simp [hfirst, h0])
      rintro (_ | _ | _) <;> simp [checkRequest, admits, bucket, hs, hc, h0, h0']
    · refine iff_of_false ?_ (by simp [hfirst, hless])
      intro h
      have hsecond := h .second
      have hkept : (l.checkRequest now).2.reqPerSecond = some tb' := by
        simp only [checkRequest, hs, hc]
        split
        · rfl
        · split <;> rfl
      simp [admits, bucket, hs, hkept, hless] at hsecond
  | none =>
    cases hm : l.reqPerMinute with
    | some tb =>
      have hfirst : l.firstBucket = some tb := by simp [firstBucket, hs, hm]
      rcases checkBucket_spec now "requests per minute limit exceeded" Duration.minute tb with
        ⟨h0, r, tb', hc, -, h0'⟩ | ⟨tb', hless, hc⟩
      · refine iff_of_true ?_ (by simp [hfirst, h0])
        rintro (_ | _ | _) <;> simp [checkRequest, admits, bucket, hs, hm, checkBucket_none, hc, h0, h0']
      · refine iff_of_false ?_ (by simp [hfirst, hless])
        intro h
        have hminute := h .minute
        have hkept : (l.checkRequest now).2.reqPerMinute = some tb' := by
          simp only [checkRequest, hs, hm, checkBucket_none, hc]
          split <;> rfl
        simp [admits, bucket, hm, hkept, hless] at hminute
    | none =>
      cases hh : l.reqPerHour with
      | some tb =>
        have hfirst : l.firstBucket = some tb := by simp [firstBucket, hs, hm, hh]
        rcases checkBucket_spec now "requests per hour limit exceeded" Duration.hour tb with
          ⟨h0, r, tb', hc, -, h0'⟩ | ⟨tb', hless, hc⟩
        · refine iff_of_true ?_ (by simp [hfirst, h0])
          rintro (_ | _ | _) <;> simp [checkRequest, admits, bucket, hs, hm, hh, checkBucket_none, hc, h0, h0']
        · refine iff_of_false ?_ (by simp [hfirst, hless])
          intro h
          have hhour := h .hour
          simp [checkRequest, admits, bucket, hs, hm, hh, checkBucket_none, hc, hless] at hhour
      | none =>
        refine iff_of_true ?_ (by simp [firstBucket, hs, hm, hh])
        rintro (_ | _ | _) <;> simp [checkRequest, admits, bucket, hs, hm, hh, checkBucket_none]

theorem checkTokens_admits (l : Limiter) (now : Time) (n : Int) (span : Span) :
    (l.checkTokens now n).2.admits now span = l.admits now span := by
  unfold checkTokens
  dsimp only
  split
  · cases span <;> rfl
  · split <;> cases span <;> rfl

end Limiter

end RateLimit

/-! ## The manager -/

theorem store_store {V : Type} (m : String → Option V) (k : String) (v w : V) :
    store (store m k v) k w = store m k w := by
  funext k'
  by_cases hk : k' = k
  · rw [hk, store_self, store_self]
  · rw [store_ne _ _ hk, store_ne _ _ hk, store_ne _ _ hk]

theorem store_eq_self {V : Type} {m : String → Option V} {k : String} {v : V} (h : m k = some v) :
    store m k v = m := by
  funext k'
  by_cases hk : k' = k
  · rw [hk, store_self, h]
  · exact store_ne m v hk

namespace Manager

section Admits

variable {F : Type} [LinearOrder F] [Zero F]

/-- How many requests of an identifier the bucket of a span would still admit at `now`: those of its limiter, which
`getRateLimiter` creates from the configuration if there is none yet. -/
def admits (m : Manager F) (now : Time) (identifier : String) (span : RateLimit.Span) : Option Nat :=
  (m.getRateLimiter now identifier).1.bind fun l => l.admits now span

/-- No request bucket of the identifier is debited at `now`: it has none, or the first consulted is empty. -/
def FirstBucketEmpty (m : Manager F) (now : Time) (identifier : String) : Prop :=
  ∀ l ∈ (m.getRateLimiter now identifier).1, ∀ tb ∈ l.firstBucket, tb.admits now = 0

instance (m : Manager F) (now : Time) (identifier : String) : Decidable (m.FirstBucketEmpty now identifier) :=
  inferInstanceAs (Decidable (∀ l ∈ (m.getRateLimiter now identifier).1, ∀ tb ∈ l.firstBucket, tb.admits now = 0))

theorem checkRate_admits_iff (m : Manager F) (now : Time) (i : String) (tokens : Int) (model : String)
    (l : RateLimit.Limiter) :
    (∀ span, (m.checkRate now i tokens model l).2.admits now span = l.admits now span) ↔
      ∀ tb ∈ l.firstBucket, tb.admits now = 0 := by
  rw [← l.checkRequest_admits_iff now]
  refine forall_congr' fun span => ?_
  unfold checkRate
  dsimp only
  split
  · split <;> rw [RateLimit.Limiter.checkTokens_admits]
  · rfl

theorem getRateLimiter_fst (m : Manager F) (now : Time) (i : String) :
    (m.getRateLimiter now i).1 =
      (m.rateLimiters i <|> (m.rateLimitConfigs i).map (RateLimit.newLimiter now)) := by
  unfold getRateLimiter
  cases m.rateLimiters i with
  | some l => rfl
  | none => cases m.rateLimitConfigs i <;> rfl

theorem getRateLimiter_snd (m : Manager F) (now : Time) (i : String) :
    (m.getRateLimiter now i).2.rateLimiters =
        (match (m.getRateLimiter now i).1 with
          | none => m.rateLimiters
          | some l => store m.rateLimiters i l) ∧
      (m.getRateLimiter now i).2.rateLimitConfigs = m.rateLimitConfigs := by
  unfold getRateLimiter
  cases hl : m.rateLimiters i with
  | some l => exact ⟨(store_eq_self hl).symm, rfl⟩
  | none => cases m.rateLimitConfigs i <;> exact ⟨rfl, rfl⟩

theorem getRateLimiter_congr {m m' : Manager F} {i : String} {l : RateLimit.Limiter} (now : Time) (j : String)
    (hl : m'.rateLimiters = store m.rateLimiters i l) (hc : m'.rateLimitConfigs = m.rateLimitConfigs) :
    (m'.getRateLimiter now j).1 = if j = i then some l else (m.getRateLimiter now j).1 := by
  rw [getRateLimiter_fst, getRateLimiter_fst, hl, hc]
  by_cases hj : j = i
  · simp [hj]
  · simp [hj, store_ne]

theorem getBudgetTracker_rateLimiters (m : Manager F) (i : String) :
    (m.getBudgetTracker i).2.rateLimiters = m.rateLimiters ∧
      (m.getBudgetTracker i).2.rateLimitConfigs = m.rateLimitConfigs := by
  unfold getBudgetTracker
  split
  · exact ⟨rfl, rfl⟩
  · split <;> exact ⟨rfl, rfl⟩

theorem checkRate_snd (m m' : Manager F) (now : Time) (i : String) (tokens : Int) (model : String)
    (l : RateLimit.Limiter) :
    (m.checkRate now i tokens model l).2 = (m'.checkRate now i tokens model l).2 := by
  unfold checkRate
  dsimp only
  split
  · split <;> rfl
  · rfl

variable [Add F] [Sub F] [Div F]

theorem checkBudget_rateLimiters (m : Manager F) (now : Time) (i model : String) (t : Option (Budget.Tracker F)) :
    (m.checkBudget now i model t).2.rateLimiters = m.rateLimiters ∧
      (m.checkBudget now i model t).2.rateLimitConfigs = m.rateLimitConfigs := by
  cases t <;> exact ⟨rfl, rfl⟩

/-- `CheckLimits` for an identifier without a limiter leaves the limiters alone; otherwise it stores what the
rate-limit half makes of the limiter. -/
theorem checkLimits_stored (m : Manager F) (now : Time) (i : String) (tokens : Int) (cost : F)
    (model : String) :
    (m.checkLimits now i tokens cost model).2.rateLimiters =
        (match (m.getRateLimiter now i).1 with
          | none => m.rateLimiters
          | some l => store m.rateLimiters i (m.checkRate now i tokens model l).2) ∧
      (m.checkLimits now i tokens cost model).2.rateLimitConfigs = m.rateLimitConfigs := by
  obtain ⟨hl₁, hc₁⟩ := m.getRateLimiter_snd now i
  obtain ⟨hl₂, hc₂⟩ := (m.getRateLimiter now i).2.getBudgetTracker_rateLimiters i
  unfold checkLimits
  generalize m.getRateLimiter now i = looked at hl₁ hc₁ hl₂ hc₂ ⊢
  rcases looked with ⟨_ | l, m₁⟩
  · -- no limiter: only the budget half runs
    obtain ⟨hl₃, hc₃⟩ := (m₁.getBudgetTracker i).2.checkBudget_rateLimiters now i model (m₁.getBudgetTracker i).1
    exact ⟨hl₃.trans (hl₂.trans hl₁), hc₃.trans (hc₂.trans hc₁)⟩
  · simp only [] at hl₁ hc₁ hl₂ hc₂ ⊢
    generalize m₁.getBudgetTracker i = found at hl₂ hc₂ ⊢
    obtain ⟨t, m₂⟩ := found
    simp only [checkRateLimits] at hl₂ hc₂ ⊢
    rw [m.checkRate_snd m₂]
    have hstored : store m₂.rateLimiters i (m₂.checkRate now i tokens model l).2 =
        store m.rateLimiters i (m₂.checkRate now i tokens model l).2 := by
      rw [hl₂, hl₁, store_store]
    cases (m₂.checkRate now i tokens model l).1 with
    | some result => exact ⟨hstored, hc₂.trans hc₁⟩
    | none =>
      exact ⟨(checkBudget_rateLimiters _ now i model t).1.trans hstored,
        (checkBudget_rateLimiters _ now i model t).2.trans (hc₂.trans hc₁)⟩

theorem checkLimits_getRateLimiter (m : Manager F) (now : Time) (i j : String) (tokens : Int) (cost : F)
    (model : String) :
    ((m.checkLimits now i tokens cost model).2.getRateLimiter now j).1 =
      if j = i then (m.getRateLimiter now i).1.map fun l => (m.checkRate now i tokens model l).2
      else (m.getRateLimiter now j).1 := by
  obtain ⟨hl, hc⟩ := m.checkLimits_stored now i tokens cost model
  cases hfound : (m.getRateLimiter now i).1 with
  | none =>
    simp only [hfound] at hl
    by_cases hj : j = i
    · rw [getRateLimiter_fst, hl, hc, ← getRateLimiter_fst, if_pos hj, hj, hfound]
      rfl
    · rw [getRateLimiter_fst, hl, hc, ← getRateLimiter_fst, if_neg hj]
  | some l =>
    simp only [hfound] at hl
    exact getRateLimiter_congr now j hl hc

theorem checkLimits_admits_iff (m : Manager F) (now : Time) (i : String) (tokens : Int) (cost : F)
    (model : String) :
    (∀ j span, (m.checkLimits now i tokens cost model).2.admits now j span = m.admits now j span) ↔
      m.FirstBucketEmpty now i := by
  have hlook := fun j => m.checkLimits_getRateLimiter now i j tokens cost model
  -- only the limiter of `i` can have changed
  have hown : (∀ j span, (m.checkLimits now i tokens cost model).2.admits now j span = m.admits now j span) ↔
      ∀ span, ((m.getRateLimiter now i).1.map fun l => (m.checkRate now i tokens model l).2).bind
        (fun l => l.admits now span) = m.admits now i span := by
    constructor
    · intro h span
      rw [← h i span, admits, hlook i, if_pos rfl]
    · intro h j span
      by_cases hj : j = i
      · rw [hj, ← h span, admits, hlook i, if_pos rfl]
      · rw [admits, hlook j, if_neg hj, admits]
  rw [hown]
  unfold admits FirstBucketEmpty
  cases (m.getRateLimiter now i).1 with
  | none => simp
  | some l => simpa using m.checkRate_admits_iff now i tokens model l

/-- A rejected request leaves no trace in the request buckets exactly when the first one consulted was empty. -/
theorem rejection_traceless_iff (m : Manager F) (now : Time) (i : String) (tokens : Int) (cost : F)
    (model : String) :
    (m.checkLimits now i tokens cost model).1.allowed = false →
      ((∀ j span, (m.checkLimits now i tokens cost model).2.admits now j span = m.admits now j span) ↔
        m.FirstBucketEmpty now i) :=
  fun _ => m.checkLimits_admits_iff now i tokens cost model

end Admits

def onceAMinute (perSecond : Int) : Manager ℚ :=
  (newManager 0
    { rateLimits := fun k =>
        if k = "key" then some { requestsPerSecond := perSecond, requestsPerMinute := 1 } else none
      budgets := fun _ => none
      enforcement := { defaultAction := .block } }).call 0 (.checkLimits "key" 1 0 "model")

/-- With ten requests per second allowed too, the next request is rejected for the minute and takes a token from
the bucket of the second. -/
theorem rejection_takes_token :
    ((onceAMinute 10).checkLimits 0 "key" 1 0 "model").1.allowed = false ∧
      (onceAMinute 10).admits 0 "key" .second = some 19 ∧
      ((onceAMinute 10).checkLimits 0 "key" 1 0 "model").2.admits 0 "key" .second = some 18 := by
  decide +kernel

theorem rejection_traceless_minute :
    ((onceAMinute 0).checkLimits 0 "key" 1 0 "model").1.allowed = false ∧
      ∀ j span, ((onceAMinute 0).checkLimits 0 "key" 1 0 "model").2.admits 0 j span =
        (onceAMinute 0).admits 0 j span := by
  have hrejected : ((onceAMinute 0).checkLimits 0 "key" 1 0 "model").1.allowed = false := by decide +kernel
  have hempty : (onceAMinute 0).FirstBucketEmpty 0 "key" := by decide +kernel
  exact ⟨hrejected, (rejection_traceless_iff (onceAMinute 0) 0 "key" 1 0 "model" hrejected).2 hempty⟩

end Manager

end Jupiter.Limits
