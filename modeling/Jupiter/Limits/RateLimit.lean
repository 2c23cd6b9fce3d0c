/-
`pkg/limits/ratelimit`: the token bucket, the sliding window, the concurrency counter and the limiter that combines
them.

As in the budget package, calls take the clock reading and return the new state. Refill rates are rational, so that
elapsed time times rate is exact. Request counts are taken to stay below the machine range; sums of token counts wrap
around where the source adds them in an `int64`.
-/
import Jupiter.Go.Int64
import Jupiter.Go.Time
import Jupiter.Lib.Buckets

namespace Jupiter.Limits.RateLimit

open Jupiter.Go Jupiter.Lib.Buckets

/-! ## Token bucket -/

/-- `int64(x)`: the integer part, rounded towards zero. -/
def int64 (x : ℚ) : Int := x.num.tdiv x.den

structure TokenBucket where
  capacity : Int
  tokens : Int
  refillRate : ℚ
  lastRefill : Time
  deriving DecidableEq

def newTokenBucket (now : Time) (capacity : Int) (refillRate : ℚ) : TokenBucket :=
  { capacity, tokens := capacity, refillRate, lastRefill := now }

namespace TokenBucket

def refillLocked (tb : TokenBucket) (now : Time) : TokenBucket :=
  let elapsed : Duration := now - tb.lastRefill
  let tokensToAdd := int64 ((elapsed : ℚ) / (Duration.second : ℚ) * tb.refillRate)
  if 0 < tokensToAdd then
    { tb with
      tokens := if tb.capacity < tb.tokens + tokensToAdd then tb.capacity else tb.tokens + tokensToAdd
      lastRefill := now }
  else tb

def take (tb : TokenBucket) (now : Time) (n : Int) : Bool × TokenBucket :=
  let tb := tb.refillLocked now
  if n ≤ tb.tokens then (true, { tb with tokens := tb.tokens - n }) else (false, tb)

def remaining (tb : TokenBucket) (now : Time) : Int × TokenBucket :=
  let tb := tb.refillLocked now
  (tb.tokens, tb)

def reset (tb : TokenBucket) (now : Time) : TokenBucket :=
  { tb with tokens := tb.capacity, lastRefill := now }

def timeUntilAvailable (tb : TokenBucket) (now : Time) (n : Int) : Duration × TokenBucket :=
  let tb := tb.refillLocked now
  if n ≤ tb.tokens then (0, tb)
  else
    let tokensNeeded := n - tb.tokens
    let secondsNeeded := (tokensNeeded : ℚ) / tb.refillRate
    (int64 (secondsNeeded * (Duration.second : ℚ)), tb)

end TokenBucket

/-! ## Sliding window -/

/-- `ratelimit.SlidingWindow`; `head` is the bucket created last. A bucket keeps its exact amount and only the sum wraps
around, which comes to what buckets of `int64` add up to (`wrap64_total`). -/
structure SlidingWindow where
  window : Duration
  bucketSize : Duration
  buckets : List (Bucket Int)
  head : Nat
  head_lt : head < buckets.length

def newSlidingWindow (window bucketSize : Duration) : SlidingWindow :=
  let numBuckets := (window / bucketSize).toNat
  { window, bucketSize
    buckets := List.replicate (if numBuckets = 0 then 1 else numBuckets) .empty
    head := 0
    head_lt := by rw [List.length_replicate]; split <;> omega }

namespace SlidingWindow

def pruneLocked (sw : SlidingWindow) (now : Time) : SlidingWindow :=
  { sw with
    buckets := prune (now - sw.window) sw.buckets
    head_lt := by rw [length_prune]; exact sw.head_lt }

/-- `findOrCreateBucketLocked`: the bucket of the current time, the last one created being tried
first, and its index. -/
def findOrCreateBucketLocked (sw : SlidingWindow) (now : Time) : Nat × SlidingWindow :=
  let bucketTime := Time.truncate now sw.bucketSize
  if (sw.buckets.get ⟨sw.head, sw.head_lt⟩).timestamp = bucketTime then (sw.head, sw)
  else
    match findStamp bucketTime sw.buckets with
    | some i => (i, sw)
    | none =>
      (freeSlot sw.buckets,
        { sw with
          buckets := sw.buckets.set (freeSlot sw.buckets) ⟨bucketTime, 0⟩
          head := freeSlot sw.buckets
          head_lt := by rw [List.length_set]; exact freeSlot_lt (Nat.zero_lt_of_lt sw.head_lt) })

def add (sw : SlidingWindow) (now : Time) (value : Int) : SlidingWindow :=
  let (i, sw) := (sw.pruneLocked now).findOrCreateBucketLocked now
  { sw with
    buckets := addAt i value sw.buckets
    head_lt := by rw [length_addAt]; exact sw.head_lt }

/-- What is left in the window, before the sum wraps around. -/
def held (sw : SlidingWindow) (now : Time) : Int := total (sw.pruneLocked now).buckets

def sum (sw : SlidingWindow) (now : Time) : Int × SlidingWindow := (wrap64 (sw.held now), sw.pruneLocked now)

theorem wrap64_total (bs : List (Bucket Int)) :
    wrap64 (total (bs.map fun b => { b with amount := wrap64 b.amount })) = wrap64 (total bs) := by
  suffices h : ∀ m n : Int, wrap64 m = wrap64 n →
      wrap64 ((bs.map fun b => { b with amount := wrap64 b.amount }).foldl
        (fun sum b => if b.timestamp = 0 then sum else sum + b.amount) m) =
      wrap64 (bs.foldl (fun sum b => if b.timestamp = 0 then sum else sum + b.amount) n) from h 0 0 rfl
  induction bs with
  | nil => exact fun _ _ h => h
  | cons b bs ih =>
    intro m n h
    refine ih _ _ ?_
    by_cases hb : b.timestamp = 0
    · simpa only [hb, if_true] using h
    · simp only [hb, if_false]
      rw [← wrap64_wrap64_add m, h, wrap64_wrap64_add, Int.add_comm, wrap64_wrap64_add, Int.add_comm]

end SlidingWindow

/-! ## Concurrency counter -/

structure ConcurrentLimiter where
  limit : Int
  current : Int
  deriving DecidableEq

def newConcurrentLimiter (limit : Int) : ConcurrentLimiter := { limit, current := 0 }

namespace ConcurrentLimiter

/-- `Acquire`, run without another call between its increment and its undo. -/
def acquire (cl : ConcurrentLimiter) : Bool × ConcurrentLimiter :=
  let current := cl.current + 1
  if cl.limit < current then (false, { cl with current := current - 1 }) else (true, { cl with current })

def release (cl : ConcurrentLimiter) : ConcurrentLimiter := { cl with current := cl.current - 1 }

end ConcurrentLimiter

/-! ## Limiter -/

structure Config where
  requestsPerSecond : Int := 0
  requestsPerMinute : Int := 0
  requestsPerHour : Int := 0
  tokensPerMinute : Int := 0
  tokensPerHour : Int := 0
  maxConcurrent : Int := 0
  deriving DecidableEq

structure CheckResult where
  allowed : Bool
  reason : String := ""
  limit : Int := 0
  remaining : Int := 0
  reset : Time := 0
  retryAfter : Duration := 0
  deriving DecidableEq

/-- The token windows are there exactly when their limits are positive. -/
structure Limiter where
  reqPerSecond : Option TokenBucket
  reqPerMinute : Option TokenBucket
  reqPerHour : Option TokenBucket
  tokensPerMinute : Option SlidingWindow
  tokensPerHour : Option SlidingWindow
  concurrent : Option ConcurrentLimiter
  config : Config
  tokensPerMinute_iff : tokensPerMinute.isSome ↔ 0 < config.tokensPerMinute
  tokensPerHour_iff : tokensPerHour.isSome ↔ 0 < config.tokensPerHour

def newLimiter (now : Time) (config : Config) : Limiter where
  reqPerSecond := if 0 < config.requestsPerSecond then
    some (newTokenBucket now (config.requestsPerSecond * 2) config.requestsPerSecond) else none
  reqPerMinute := if 0 < config.requestsPerMinute then
    some (newTokenBucket now config.requestsPerMinute ((config.requestsPerMinute : ℚ) / 60)) else none
  reqPerHour := if 0 < config.requestsPerHour then
    some (newTokenBucket now (config.requestsPerHour / 12) ((config.requestsPerHour : ℚ) / 3600)) else none
  tokensPerMinute := if 0 < config.tokensPerMinute then
    some (newSlidingWindow Duration.minute Duration.second) else none
  tokensPerHour := if 0 < config.tokensPerHour then
    some (newSlidingWindow Duration.hour Duration.minute) else none
  concurrent := if 0 < config.maxConcurrent then some (newConcurrentLimiter config.maxConcurrent) else none
  config := config
  tokensPerMinute_iff := by split <;> simp [*]
  tokensPerHour_iff := by split <;> simp [*]

namespace Limiter

/-- The block of `CheckRequest` for one token bucket: the rejection, if there is one, and the bucket
left behind. -/
def checkBucket (now : Time) (reason : String) (span : Duration) (bucket : Option TokenBucket) :
    Option CheckResult × Option TokenBucket :=
  match bucket with
  | none => (none, none)
  | some tb =>
    let (taken, tb) := tb.take now 1
    if taken then (none, some tb)
    else
      let (retryAfter, tb) := tb.timeUntilAvailable now 1
      let (remaining, tb) := tb.remaining now
      (some { allowed := false, reason, limit := tb.capacity, remaining, reset := now + span, retryAfter },
        some tb)

/-- `CheckRequest`: a token is taken from each bucket in turn, up to the first that has none. -/
def checkRequest (l : Limiter) (now : Time) : CheckResult × Limiter :=
  let second := checkBucket now "requests per second limit exceeded" Duration.second l.reqPerSecond
  let l := { l with reqPerSecond := second.2 }
  match second.1 with
  | some result => (result, l)
  | none =>
    let minute := checkBucket now "requests per minute limit exceeded" Duration.minute l.reqPerMinute
    let l := { l with reqPerMinute := minute.2 }
    match minute.1 with
    | some result => (result, l)
    | none =>
      let hour := checkBucket now "requests per hour limit exceeded" Duration.hour l.reqPerHour
      let l := { l with reqPerHour := hour.2 }
      match hour.1 with
      | some result => (result, l)
      | none => ({ allowed := true }, l)

def checkTokenWindow (now : Time) (reason : String) (span : Duration) (limit estimatedTokens : Int)
    (window : Option SlidingWindow) : Option CheckResult × Option SlidingWindow :=
  match window with
  | none => (none, none)
  | some sw =>
    let (currentUsage, sw) := sw.sum now
    if limit < wrap64 (currentUsage + estimatedTokens) then
      (some { allowed := false, reason, limit, remaining := wrap64 (limit - currentUsage), reset := now + span,
              retryAfter := span }, some sw)
    else (none, some sw)

theorem isSome_checkTokenWindow (now : Time) (reason : String) (span : Duration) (limit estimatedTokens : Int)
    (window : Option SlidingWindow) :
    (checkTokenWindow now reason span limit estimatedTokens window).2.isSome = window.isSome := by
  unfold checkTokenWindow
  split
  · rfl
  · simp only []
    split <;> rfl

def checkTokens (l : Limiter) (now : Time) (estimatedTokens : Int) : CheckResult × Limiter :=
  let minute := checkTokenWindow now "tokens per minute limit exceeded" Duration.minute
    l.config.tokensPerMinute estimatedTokens l.tokensPerMinute
  let l := { l with
    tokensPerMinute := minute.2
    tokensPerMinute_iff := by rw [isSome_checkTokenWindow]; exact l.tokensPerMinute_iff }
  match minute.1 with
  | some result => (result, l)
  | none =>
    let hour := checkTokenWindow now "tokens per hour limit exceeded" Duration.hour
      l.config.tokensPerHour estimatedTokens l.tokensPerHour
    let l := { l with
      tokensPerHour := hour.2
      tokensPerHour_iff := by rw [isSome_checkTokenWindow]; exact l.tokensPerHour_iff }
    match hour.1 with
    | some result => (result, l)
    | none => ({ allowed := true }, l)

def recordTokens (l : Limiter) (now : Time) (actualTokens : Int) : Limiter :=
  { l with
    tokensPerMinute := l.tokensPerMinute.map (·.add now actualTokens)
    tokensPerHour := l.tokensPerHour.map (·.add now actualTokens)
    tokensPerMinute_iff := by rw [Option.isSome_map]; exact l.tokensPerMinute_iff
    tokensPerHour_iff := by rw [Option.isSome_map]; exact l.tokensPerHour_iff }

def acquireConcurrent (l : Limiter) : Bool × Limiter :=
  match l.concurrent with
  | none => (true, l)
  | some cl => (cl.acquire.1, { l with concurrent := some cl.acquire.2 })

def releaseConcurrent (l : Limiter) : Limiter := { l with concurrent := l.concurrent.map (·.release) }

/-! A limiter keeps its configuration, and `CheckRequest` leaves the token windows alone. -/

@[simp] theorem checkRequest_config (l : Limiter) (now : Time) : (l.checkRequest now).2.config = l.config := by
  unfold checkRequest
  simp only []
  split
  · rfl
  · split
    · rfl
    · split <;> rfl

theorem checkRequest_windows (l : Limiter) (now : Time) :
    (l.checkRequest now).2.tokensPerMinute = l.tokensPerMinute ∧
      (l.checkRequest now).2.tokensPerHour = l.tokensPerHour := by
  unfold checkRequest
  simp only []
  split
  · exact ⟨rfl, rfl⟩
  · split
    · exact ⟨rfl, rfl⟩
    · split <;> exact ⟨rfl, rfl⟩

@[simp] theorem checkTokens_config (l : Limiter) (now : Time) (n : Int) :
    (l.checkTokens now n).2.config = l.config := by
  unfold checkTokens
  simp only []
  split
  · rfl
  · split <;> rfl

@[simp] theorem recordTokens_config (l : Limiter) (now : Time) (n : Int) :
    (l.recordTokens now n).config = l.config := rfl

@[simp] theorem acquireConcurrent_config (l : Limiter) : l.acquireConcurrent.2.config = l.config := by
  unfold acquireConcurrent; split <;> rfl

@[simp] theorem releaseConcurrent_config (l : Limiter) : l.releaseConcurrent.config = l.config := rfl

end Limiter

end Jupiter.Limits.RateLimit
