/-
`pkg/providers/http_provider.go`: which outcomes of an attempt `DoRequest` tries again after, and what it returns.

An attempt is counted by the requests on record: every attempt adds one, unless its request cannot be made.
-/
import Jupiter.Providers.Health

namespace Jupiter.Providers

namespace Outcome

def transient : Outcome → Bool
  | .createFails => false
  | .clientFails contextDone => !contextDone
  | .response statusCode _ _ => decide (500 ≤ statusCode ∧ statusCode < 600)

/-- A network error while the context is live, or any status that is neither 2xx nor one of 400, 401, 403, 429. -/
def retried : Outcome → Bool
  | .createFails => false
  | .clientFails contextDone => !contextDone
  | .response statusCode _ _ =>
    !decide (200 ≤ statusCode ∧ statusCode < 300) && !([400, 401, 403, 429].contains statusCode)

def result : Outcome → Ending
  | .createFails => .createFailed
  | .clientFails contextDone => if contextDone then .timeoutError else .exhausted (some .network)
  | .response statusCode retryAfter body =>
    if 200 ≤ statusCode ∧ statusCode < 300 then .response statusCode
    else if statusCode = 401 ∨ statusCode = 403 then .authError body
    else if statusCode = 429 then .rateLimitError retryAfter body
    else if statusCode = 400 then .badRequest body
    else .exhausted (some (.provider statusCode body))

def requests : Outcome → Nat
  | .createFails => 0
  | _ => 1

end Outcome

/-- From an attempt on, with `n` more after it, a request goes on after the outcomes that `again` holds of and no
other: the attempts up to `last` are made, `ending` is the result of the last one, or the context ended the wait
for the next, and `sent` requests were recorded. -/
structure Retries (again : Outcome → Bool) (upstream : Nat → Attempt) (attempt n : Nat) (ending : Ending)
    (sent : Nat) (last : Nat) : Prop where
  first_le : attempt ≤ last
  le_max : last ≤ attempt + n
  sent_eq : sent = last - attempt + (upstream last).outcome.requests
  goes_on : ∀ i, attempt ≤ i → i < last →
    again (upstream i).outcome = true ∧ (upstream (i + 1)).cancelledInBackoff = false
  stops : (again (upstream last).outcome = false ∨ last = attempt + n) ∧ ending = (upstream last).outcome.result ∨
    again (upstream last).outcome = true ∧ last < attempt + n ∧ (upstream (last + 1)).cancelledInBackoff = true ∧
      ending = .cancelled

/-- A request goes on after the outcomes that `again` holds of, with at most `maxRetries` attempts after the first. -/
def RetriesOn (again : Outcome → Bool) (maxRetries : Nat) (upstream : Nat → Attempt) (h : ProviderHealth) : Prop :=
  ∃ last sent, last ≤ maxRetries ∧
    Retries again upstream 0 maxRetries (doRequest maxRetries upstream h).1 sent last ∧
    (doRequest maxRetries upstream h).2.totalRequests = h.totalRequests + sent

/-! ## One attempt -/

theorem attempts_succ (upstream : Nat → Attempt) (n attempt : Nat) (lastErr : Option Failure) (h : ProviderHealth)
    (hlive : (decide (attempt > 0) && (upstream attempt).cancelledInBackoff) = false) :
    (∃ h', attempts upstream (n + 1) attempt lastErr h = ((upstream attempt).outcome.result, h') ∧
        (upstream attempt).outcome.retried = false ∧
        h'.totalRequests = h.totalRequests + (upstream attempt).outcome.requests) ∨
      ∃ err, (upstream attempt).outcome.retried = true ∧ (upstream attempt).outcome.requests = 1 ∧
        (upstream attempt).outcome.result = .exhausted (some err) ∧
        attempts upstream (n + 1) attempt lastErr h =
          attempts upstream n (attempt + 1) (some err) (h.recordRequest false) := by
  rw [attempts, hlive, if_neg Bool.false_ne_true]
  cases houtcome : (upstream attempt).outcome with
  | createFails => exact .inl ⟨h, rfl, rfl, rfl⟩
  | clientFails contextDone =>
    cases contextDone with
    | true => exact .inl ⟨_, rfl, rfl, rfl⟩
    | false => exact .inr ⟨_, rfl, rfl, rfl, rfl⟩
  | response statusCode retryAfter body =>
    simp only [Outcome.result, Outcome.retried]
    split
    · next hok => exact .inl ⟨_, rfl, by simp [hok], rfl⟩
    · split
      · next hauth =>
        refine .inl ⟨_, rfl, ?_, rfl⟩
        rcases hauth with rfl | rfl <;> rfl
      · split
        · next hlimit =>
          subst hlimit
          exact .inl ⟨_, rfl, rfl, rfl⟩
        · split
          · next hbad =>
            subst hbad
            exact .inl ⟨_, rfl, rfl, rfl⟩
          · next hok hauth hlimit hbad =>
            refine .inr ⟨_, ?_, rfl, rfl, rfl⟩
            simp only [not_or] at hauth
            simp [hok, hauth.1, hauth.2, hlimit, hbad]

/-! ## The whole request -/

theorem attempts_retries (upstream : Nat → Attempt) :
    ∀ (n attempt : Nat) (lastErr : Option Failure) (h : ProviderHealth),
      (decide (attempt > 0) && (upstream attempt).cancelledInBackoff) = false →
      ∃ last sent,
        Retries Outcome.retried upstream attempt n (attempts upstream (n + 1) attempt lastErr h).1 sent last ∧
        (attempts upstream (n + 1) attempt lastErr h).2.totalRequests = h.totalRequests + sent
  | n, attempt, lastErr, h, hlive => by
    rcases attempts_succ upstream n attempt lastErr h hlive with
      ⟨h', heq, hfinal, hcount⟩ | ⟨err, hagain, hone, hresult, heq⟩
    · refine ⟨attempt, _, ⟨Nat.le_refl _, Nat.le_add_right _ _, rfl, ?_, ?_⟩, ?_⟩
      · intro i hi hlt
        omega
      · rw [heq]
        exact .inl ⟨.inl hfinal, rfl⟩
      · rw [heq, Nat.sub_self, Nat.zero_add]
        exact hcount
    · rw [heq]
      cases n with
      | zero =>
        refine ⟨attempt, _, ⟨Nat.le_refl _, Nat.le_refl _, rfl, ?_, ?_⟩, ?_⟩
        · intro i hi hlt
          omega
        · exact .inl ⟨.inr rfl, hresult.symm⟩
        · rw [Nat.sub_self, Nat.zero_add, hone]
          rfl
      | succ n =>
        by_cases hcancel : (upstream (attempt + 1)).cancelledInBackoff = true
        · have hcond : (decide (attempt + 1 > 0) && (upstream (attempt + 1)).cancelledInBackoff) = true := by
            simp [hcancel]
          have hend : attempts upstream (n + 1) (attempt + 1) (some err) (h.recordRequest false) =
              (.cancelled, h.recordRequest false) := by
            unfold attempts
            rw [if_pos hcond]
          rw [hend]
          refine ⟨attempt, _, ⟨Nat.le_refl _, Nat.le_add_right _ _, rfl, ?_, ?_⟩, ?_⟩
          · intro i hi hlt
            omega
          · exact .inr ⟨hagain, by omega, hcancel, rfl⟩
          · rw [Nat.sub_self, Nat.zero_add, hone]
            rfl
        · have hlive' : (decide (attempt + 1 > 0) && (upstream (attempt + 1)).cancelledInBackoff) = false := by
            simp [hcancel]
          obtain ⟨last, sent, hr, hcount⟩ :=
            attempts_retries upstream n (attempt + 1) (some err) (h.recordRequest false) hlive'
          have hfirst := hr.first_le
          have hmax := hr.le_max
          have hsent := hr.sent_eq
          refine ⟨last, sent + 1, ⟨by omega, by omega, by omega, ?_, ?_⟩, ?_⟩
          · intro i hi hlt
            by_cases hia : i = attempt
            · subst hia
              exact ⟨hagain, by simpa using hcancel⟩
            · exact hr.goes_on i (by omega) hlt
          · have hsum : attempt + (n + 1) = attempt + 1 + n := by omega
            rw [hsum]
            exact hr.stops
          · rw [hcount]
            show h.totalRequests + 1 + sent = h.totalRequests + (sent + 1)
            omega

/-- A request retries every outcome but a 2xx response, the statuses 400, 401, 403 and 429, a request that cannot be
made and a context that is done; it makes at most `maxRetries` more attempts and returns what the last one gave. -/
theorem doRequest_retries (maxRetries : Nat) (upstream : Nat → Attempt) (h : ProviderHealth) :
    RetriesOn Outcome.retried maxRetries upstream h := by
  obtain ⟨last, sent, hr, hcount⟩ := attempts_retries upstream maxRetries 0 none h rfl
  have hmax := hr.le_max
  exact ⟨last, sent, by omega, hr, hcount⟩

/-- A 404 is tried again, though it is neither a network error nor a 5xx status. -/
theorem doRequest_retries_not_found :
    ∃ upstream : Nat → Attempt, (upstream 0).outcome = .response 404 "" "" ∧
      (doRequest 1 upstream {}).1 = .response 200 ∧ (doRequest 1 upstream {}).2.totalRequests = 2 ∧
      ¬ RetriesOn Outcome.transient 1 upstream {} := by
  refine ⟨fun i => ⟨false, if i = 0 then .response 404 "" "" else .response 200 "" ""⟩, rfl, by decide, by decide, ?_⟩
  rintro ⟨last, sent, -, hr, -⟩
  cases last with
  | zero =>
    rcases hr.stops with ⟨-, h⟩ | ⟨-, -, -, h⟩
    · exact absurd h (by decide)
    · exact absurd h (by decide)
  | succ last => exact absurd (hr.goes_on 0 (Nat.le_refl 0) (Nat.succ_pos last)).1 (by decide)

end Jupiter.Providers
