/-
`pkg/providers/http_provider.go` and `health.go`: requests with retries, health checks, and the count of
consecutive failures they keep.

An attempt's outcome is the environment's. `Ending` has one constructor for each way `DoRequest` returns. The
times of the last check and the last success are left out: they are stored and nothing here reads them. The number
of retries is not negative in a configuration that is accepted.
-/
import Jupiter.Lib.Machine

namespace Jupiter.Providers

open Jupiter.Lib

/-! ## Health -/

/-- What `LastError` and the results of requests carry. A rate limit keeps the text of its `Retry-After` header. -/
inductive Failure where
  | authenticationFailed
  | network
  | provider (statusCode : Int) (message : String)
  | auth (message : String)
  | rateLimit (retryAfter message : String)
  | timeout
  | cancelled
  | createRequest
  deriving DecidableEq

structure ProviderHealth where
  isHealthy : Bool := true
  lastError : Option Failure := none
  consecutiveFailures : Nat := 0
  totalRequests : Nat := 0
  failedRequests : Nat := 0
  deriving DecidableEq

namespace ProviderHealth

def updateHealth (h : ProviderHealth) (success : Bool) (err : Option Failure) : ProviderHealth :=
  if success then { h with isHealthy := true, consecutiveFailures := 0, lastError := none }
  else
    { h with
      consecutiveFailures := h.consecutiveFailures + 1
      lastError := err
      isHealthy := if h.consecutiveFailures + 1 ≥ 3 then false else h.isHealthy }

def recordRequest (h : ProviderHealth) (success : Bool) : ProviderHealth :=
  { h with
    totalRequests := h.totalRequests + 1
    failedRequests := if success then h.failedRequests else h.failedRequests + 1 }

end ProviderHealth

/-! ## Requests -/

/-- What an attempt meets: the request cannot be made, the client fails (with the context done or not), or a
response comes. -/
inductive Outcome where
  | createFails
  | clientFails (contextDone : Bool)
  | response (statusCode : Int) (retryAfter body : String)

/-- An attempt; after the first one the context may end the wait before it. -/
structure Attempt where
  cancelledInBackoff : Bool := false
  outcome : Outcome

/-- How `DoRequest` returns. -/
inductive Ending where
  | response (statusCode : Int)
  | authError (message : String)
  | rateLimitError (retryAfter message : String)
  | badRequest (message : String)
  | timeoutError
  | cancelled
  | createFailed
  | exhausted (lastErr : Option Failure)
  deriving DecidableEq

def Ending.error : Ending → Option Failure
  | .response _ => none
  | .authError message => some (.auth message)
  | .rateLimitError retryAfter message => some (.rateLimit retryAfter message)
  | .badRequest message => some (.provider 400 message)
  | .timeoutError => some .timeout
  | .cancelled => some .cancelled
  | .createFailed => some .createRequest
  | .exhausted lastErr => lastErr

def attempts (upstream : Nat → Attempt) : Nat → Nat → Option Failure → ProviderHealth → Ending × ProviderHealth
  | 0, _, lastErr, h => (.exhausted lastErr, h.updateHealth false lastErr)
  | n + 1, attempt, _, h =>
    if decide (attempt > 0) && (upstream attempt).cancelledInBackoff then (.cancelled, h)
    else
      match (upstream attempt).outcome with
      | .createFails => (.createFailed, h)
      | .clientFails contextDone =>
        if contextDone then (.timeoutError, h.recordRequest false)
        else attempts upstream n (attempt + 1) (some .network) (h.recordRequest false)
      | .response statusCode retryAfter body =>
        if 200 ≤ statusCode ∧ statusCode < 300 then
          (.response statusCode, (h.recordRequest true).updateHealth true none)
        else if statusCode = 401 ∨ statusCode = 403 then
          (.authError body, (h.recordRequest false).updateHealth false (some .authenticationFailed))
        else if statusCode = 429 then (.rateLimitError retryAfter body, h.recordRequest false)
        else if statusCode = 400 then (.badRequest body, h.recordRequest false)
        else attempts upstream n (attempt + 1) (some (.provider statusCode body)) (h.recordRequest false)

def doRequest (maxRetries : Nat) (upstream : Nat → Attempt) (h : ProviderHealth) : Ending × ProviderHealth :=
  attempts upstream (maxRetries + 1) 0 none h

/-- `performHealthCheck`: a request, and then an update of its own. -/
def performHealthCheck (maxRetries : Nat) (upstream : Nat → Attempt) (h : ProviderHealth) : Ending × ProviderHealth :=
  match doRequest maxRetries upstream h with
  | (ending, h) =>
    match ending.error with
    | some err => (ending, h.updateHealth false (some err))
    | none => (ending, h.updateHealth true none)

/-! ## What a request does to the health -/

namespace Ending

def succeeded : Ending → Bool
  | .response _ => true
  | _ => false

/-- The failures that count: authentication, or no attempt left. -/
def counted : Ending → Bool
  | .authError _ => true
  | .exhausted _ => true
  | _ => false

theorem not_counted_of_succeeded {e : Ending} (h : e.succeeded = true) : e.counted = false := by
  cases e with
  | response _ => rfl
  | _ => cases h

end Ending

/-- The health as the counter and the flag see it: a success resets them, a counted failure counts, any other
ending leaves them. -/
def Effect (ending : Ending) (h h' : ProviderHealth) : Prop :=
  if ending.succeeded then h'.consecutiveFailures = 0 ∧ h'.isHealthy = true
  else if ending.counted then
    h'.consecutiveFailures = h.consecutiveFailures + 1 ∧
      h'.isHealthy = if h.consecutiveFailures + 1 ≥ 3 then false else h.isHealthy
  else h'.consecutiveFailures = h.consecutiveFailures ∧ h'.isHealthy = h.isHealthy

/-- What the loop does from an attempt on, for any two states of the health: its effect, that how it ends does not
depend on the health, and that it reports an error unless it succeeded. -/
theorem attempts_spec (upstream : Nat → Attempt) :
    ∀ (n attempt : Nat) (lastErr : Option Failure) (h h' : ProviderHealth), 0 < n ∨ lastErr ≠ none →
      Effect (attempts upstream n attempt lastErr h).1 h (attempts upstream n attempt lastErr h).2 ∧
      (attempts upstream n attempt lastErr h).1 = (attempts upstream n attempt lastErr h').1 ∧
      ((attempts upstream n attempt lastErr h).1.error = none ↔
        (attempts upstream n attempt lastErr h).1.succeeded = true)
  | 0, _, lastErr, _, _, hn => by
    have hne := hn.resolve_left (Nat.lt_irrefl 0)
    exact ⟨⟨rfl, rfl⟩, rfl, by simp [attempts, Ending.error, Ending.succeeded, hne]⟩
  | n + 1, attempt, lastErr, h, h', _ => by
    have hretry := fun err => attempts_spec upstream n (attempt + 1) (some err) (h.recordRequest false)
      (h'.recordRequest false) (.inr (by simp))
    unfold attempts
    -- an attempt is followed by another one or ends the loop
    repeat' split
    all_goals first
      | exact hretry _
      | exact ⟨⟨rfl, rfl⟩, rfl, by simp [Ending.error, Ending.succeeded]⟩

def ending (maxRetries : Nat) (upstream : Nat → Attempt) : Ending := (doRequest maxRetries upstream {}).1

theorem doRequest_spec (maxRetries : Nat) (upstream : Nat → Attempt) (h : ProviderHealth) :
    Effect (ending maxRetries upstream) h (doRequest maxRetries upstream h).2 ∧
      (doRequest maxRetries upstream h).1 = ending maxRetries upstream ∧
      ((ending maxRetries upstream).error = none ↔ (ending maxRetries upstream).succeeded = true) := by
  obtain ⟨heffect, hending, herr⟩ := attempts_spec upstream (maxRetries + 1) 0 none h {} (.inl (Nat.succ_pos _))
  have heq : (doRequest maxRetries upstream h).1 = ending maxRetries upstream := hending
  unfold doRequest at heq ⊢
  rw [heq] at heffect herr
  exact ⟨heffect, heq, herr⟩

/-- A health check ends as its request does; a failed one adds a failure to what the request has counted. -/
theorem performHealthCheck_spec (maxRetries : Nat) (upstream : Nat → Attempt) (h : ProviderHealth) :
    (performHealthCheck maxRetries upstream h).1 = ending maxRetries upstream ∧
      ((ending maxRetries upstream).succeeded = true →
        (performHealthCheck maxRetries upstream h).2.consecutiveFailures = 0 ∧
        (performHealthCheck maxRetries upstream h).2.isHealthy = true) ∧
      ((ending maxRetries upstream).succeeded = false →
        (performHealthCheck maxRetries upstream h).2.consecutiveFailures =
          (doRequest maxRetries upstream h).2.consecutiveFailures + 1) := by
  obtain ⟨-, hending, herr⟩ := doRequest_spec maxRetries upstream h
  unfold performHealthCheck
  rcases hreq : doRequest maxRetries upstream h with ⟨e, h'⟩
  rw [hreq] at hending
  obtain rfl : e = ending maxRetries upstream := hending
  cases he : (ending maxRetries upstream).error with
  | none =>
    have hok := herr.1 he
    refine ⟨?_, fun _ => ?_, fun hno => ?_⟩
    · simp [he]
    · simp [he, ProviderHealth.updateHealth]
    · rw [hok] at hno
      cases hno
  | some err =>
    refine ⟨?_, fun hok => ?_, fun _ => ?_⟩
    · simp [he]
    · rw [herr.2 hok] at he
      cases he
    · simp [he, ProviderHealth.updateHealth]

/-! ## Runs of operations -/

inductive Operation where
  | request (upstream : Nat → Attempt)
  | healthCheck (upstream : Nat → Attempt)

/-- A provider in use; `history` holds how its operations ended, the latest first, and no code reads it. -/
structure Breaker where
  health : ProviderHealth := {}
  history : List Ending := []

variable (maxRetries : Nat)

namespace Breaker

def next (b : Breaker) : Operation → Breaker
  | .request upstream =>
    let r := doRequest maxRetries upstream b.health
    { health := r.2, history := r.1 :: b.history }
  | .healthCheck upstream =>
    let r := performHealthCheck maxRetries upstream b.health
    { health := r.2, history := r.1 :: b.history }

def step (b : Breaker) (op : Operation) : Option Breaker := some (b.next maxRetries op)

def failuresInARow : List Ending → Nat
  | [] => 0
  | e :: rest => if e.counted then failuresInARow rest + 1 else 0

/-- The count is that number, and the provider is unhealthy exactly from three on. -/
def Counts (b : Breaker) : Prop :=
  b.health.consecutiveFailures = failuresInARow b.history ∧
    (b.health.isHealthy = false ↔ 3 ≤ failuresInARow b.history)

/-- A health check succeeds; a request succeeds, fails with a failure that counts, or comes when nothing is counted. -/
def Sound (b : Breaker) : Operation → Prop
  | .request upstream => (ending maxRetries upstream).succeeded = true ∨ (ending maxRetries upstream).counted = true ∨
      b.health.consecutiveFailures = 0
  | .healthCheck upstream => (ending maxRetries upstream).succeeded = true

theorem counts_request_iff {b : Breaker} (hb : b.Counts) (upstream : Nat → Attempt) :
    (b.next maxRetries (.request upstream)).Counts ↔ b.Sound maxRetries (.request upstream) := by
  obtain ⟨hcount, hhealthy⟩ := hb
  obtain ⟨heffect, hending, -⟩ := doRequest_spec maxRetries upstream b.health
  unfold Counts next Sound failuresInARow
  dsimp only
  rw [hending]
  unfold Effect at heffect
  by_cases hs : (ending maxRetries upstream).succeeded = true
  · rw [if_pos hs] at heffect
    simp [hs, Ending.not_counted_of_succeeded hs, heffect.1, heffect.2]
  · rw [if_neg hs] at heffect
    by_cases hc : (ending maxRetries upstream).counted = true
    · rw [if_pos hc] at heffect
      obtain ⟨hcf, hflag⟩ := heffect
      refine iff_of_true ?_ (.inr (.inl hc))
      rw [if_pos hc, hcf, hflag, hcount]
      refine ⟨rfl, ?_⟩
      split
      · exact iff_of_true rfl ‹_›
      · -- below three the flag has not been cleared before either
        rw [hhealthy]
        omega
    · rw [if_neg hc] at heffect
      obtain ⟨hcf, hflag⟩ := heffect
      rw [if_neg hc, hcf, hflag, hhealthy, hcount]
      constructor
      · rintro ⟨hzero, -⟩
        exact .inr (.inr hzero)
      · rintro (h | h | h)
        · exact absurd h hs
        · exact absurd h hc
        · exact ⟨h, by omega⟩

theorem counts_healthCheck_iff {b : Breaker} (hb : b.Counts) (upstream : Nat → Attempt) :
    (b.next maxRetries (.healthCheck upstream)).Counts ↔ b.Sound maxRetries (.healthCheck upstream) := by
  obtain ⟨hcount, -⟩ := hb
  obtain ⟨heffect, -, -⟩ := doRequest_spec maxRetries upstream b.health
  obtain ⟨hending, hok, hfail⟩ := performHealthCheck_spec maxRetries upstream b.health
  unfold Counts next Sound failuresInARow
  dsimp only
  rw [hending]
  by_cases hs : (ending maxRetries upstream).succeeded = true
  · obtain ⟨hcf, hflag⟩ := hok hs
    simp [hs, Ending.not_counted_of_succeeded hs, hcf, hflag]
  · -- the count goes up by two for one counted failure, and by one for a failure that does not count
    refine iff_of_false ?_ hs
    rintro ⟨hcf, -⟩
    rw [hfail (by simpa using hs)] at hcf
    unfold Effect at heffect
    rw [if_neg hs] at heffect
    by_cases hc : (ending maxRetries upstream).counted = true
    · rw [if_pos hc] at heffect hcf
      omega
    · rw [if_neg hc] at heffect hcf
      omega

theorem counts_next_iff {b : Breaker} (hb : b.Counts) (op : Operation) :
    (b.next maxRetries op).Counts ↔ b.Sound maxRetries op := by
  cases op with
  | request upstream => exact counts_request_iff maxRetries hb upstream
  | healthCheck upstream => exact counts_healthCheck_iff maxRetries hb upstream

/-- From a state in which the count is right, it is right after every operation of a run exactly when every
operation is sound. -/
theorem counts_along_iff : ∀ (ops : List Operation) (b : Breaker), b.Counts →
    ((∀ done rest b', ops = done ++ rest → run (step maxRetries) b done = some b' → b'.Counts) ↔
      Meets (step maxRetries) (Sound maxRetries) b ops)
  | [], b, hb => by
    refine iff_of_true ?_ trivial
    intro done rest b' hops hrun
    obtain ⟨rfl, rfl⟩ := List.append_eq_nil_iff.1 hops.symm
    cases hrun
    exact hb
  | op :: ops, b, hb => by
    have hstep : step maxRetries b op = some (b.next maxRetries op) := rfl
    constructor
    · intro h
      have hnext : (b.next maxRetries op).Counts := h [op] ops _ rfl rfl
      refine ⟨(counts_next_iff maxRetries hb op).1 hnext, ?_⟩
      rintro b' hb'
      cases hb'
      refine (counts_along_iff ops _ hnext).1 ?_
      intro done rest b' hops hrun
      exact h (op :: done) rest b' (by rw [hops]; rfl) (by rw [run_cons, hstep]; exact hrun)
    · rintro ⟨hsound, hmeets⟩
      have hnext := (counts_next_iff maxRetries hb op).2 hsound
      have hrest := (counts_along_iff ops _ hnext).2 (hmeets _ hstep)
      intro done rest b' hops hrun
      cases done with
      | nil =>
        cases hrun
        exact hb
      | cons op' done =>
        obtain ⟨rfl, rfl⟩ := List.cons.inj hops
        exact hrest done rest b' rfl (by rw [run_cons, hstep] at hrun; exact hrun)

/-- A new provider counts its failures right after every operation of a run exactly when every health check
succeeds and no request ends in an error that does not count while failures are counted. -/
theorem breaker_counts_iff (ops : List Operation) :
    (∀ done rest b, ops = done ++ rest → run (step maxRetries) {} done = some b → b.Counts) ↔
      Meets (step maxRetries) (Sound maxRetries) {} ops :=
  counts_along_iff maxRetries ops {} ⟨rfl, by simp [failuresInARow]⟩

/-- Two failed health checks, each with one attempt answered by a server error, open the breaker. -/
theorem two_failed_checks_unhealthy :
    ∃ b, run (step 0) {} [.healthCheck fun _ => ⟨false, .response 500 "" ""⟩,
        .healthCheck fun _ => ⟨false, .response 500 "" ""⟩] = some b ∧
      failuresInARow b.history = 2 ∧ b.health.consecutiveFailures = 4 ∧ b.health.isHealthy = false ∧ ¬ b.Counts := by
  refine ⟨_, rfl, by decide, by decide, by decide, ?_⟩
  rintro ⟨hcount, -⟩
  exact absurd hcount (by decide)

end Breaker

end Jupiter.Providers
