/-
What asking a token bucket costs.

Every method but `Capacity` and `Reset` refills first, and a refill moves `lastRefill` to the current time while the
fraction of a token earned until then is dropped.
-/
import Jupiter.Lib.Unwinding
import Jupiter.Limits.BucketBound
import Jupiter.Limits.Rejection

namespace Jupiter.Limits.RateLimit

open Jupiter.Go Jupiter.Lib

/-! ## Calls -/

inductive BucketMethod where
  | take (n : Int)
  | remaining
  | capacity
  | reset
  | timeUntilAvailable (n : Int)
  deriving DecidableEq

inductive BucketAnswer where
  | taken (ok : Bool)
  | tokens (n : Int)
  | wait (d : Duration)
  | done
  deriving DecidableEq

/-- A call of a run, which the run has of its own or which was inserted. -/
structure PolledCall where
  time : Time
  method : BucketMethod
  own : Bool := true
  deriving DecidableEq

namespace TokenBucket

def serve (tb : TokenBucket) (c : PolledCall) : BucketAnswer × TokenBucket :=
  match c.method with
  | .take n => (.taken (tb.take c.time n).1, (tb.take c.time n).2)
  | .remaining => (.tokens (tb.remaining c.time).1, (tb.remaining c.time).2)
  | .capacity => (.tokens tb.capacity, tb)
  | .reset => (.done, tb.reset c.time)
  | .timeUntilAvailable n => (.wait (tb.timeUntilAvailable c.time n).1, (tb.timeUntilAvailable c.time n).2)

/-- The call asks for the tokens or for the time until some are there, or takes some and is rejected. -/
def polls (tb : TokenBucket) (c : PolledCall) : Bool :=
  match c.method with
  | .take n => !(tb.take c.time n).1
  | .remaining | .timeUntilAvailable _ => true
  | .capacity | .reset => false

def Polls (tb : TokenBucket) (c : PolledCall) (_ : List PolledCall) : Prop := c.own = false → tb.polls c = true

instance (tb : TokenBucket) (c : PolledCall) (calls : List PolledCall) : Decidable (tb.Polls c calls) :=
  inferInstanceAs (Decidable (c.own = false → tb.polls c = true))

end TokenBucket

/-- The next call of the run's own that is not `Capacity`, the one method that leaves the bucket alone. -/
def nextChange (calls : List PolledCall) : Option PolledCall :=
  calls.find? fun c => c.own && c.method != .capacity

/-- An inserted call comes before a whole token has been earned since the last refill, or at the time of the run's next
call if there is one. -/
def TokenBucket.Harmless (tb : TokenBucket) (c : PolledCall) (calls : List PolledCall) : Prop :=
  c.own = false →
    earned tb.refillRate (c.time - tb.lastRefill) < 1 ∨ ∀ next ∈ nextChange calls, next.time = c.time

instance (tb : TokenBucket) (c : PolledCall) (calls : List PolledCall) : Decidable (tb.Harmless c calls) :=
  inferInstanceAs (Decidable (c.own = false →
    earned tb.refillRate (c.time - tb.lastRefill) < 1 ∨ ∀ next ∈ nextChange calls, next.time = c.time))

/-! ## Refilling -/

theorem int64_nonpos {x : ℚ} (h : x < 1) : int64 x ≤ 0 := by
  rcases le_or_gt 0 x with hx | hx
  · rw [int64_eq_floor hx]
    have hfloor := Int.floor_lt.2 (show x < ((1 : Int) : ℚ) by exact_mod_cast h)
    omega
  · have hnum : 0 ≤ -x.num := Int.neg_nonneg.2 (Rat.num_neg.2 hx).le
    have hdiv := Int.tdiv_nonneg hnum (Int.natCast_nonneg x.den)
    rw [Int.neg_tdiv] at hdiv
    unfold int64
    omega

namespace TokenBucket

variable {tb p o : TokenBucket} {c : PolledCall} {calls : List PolledCall} {now : Time}

theorem refillLocked_of_earned_lt (h : earned tb.refillRate (now - tb.lastRefill) < 1) : tb.refillLocked now = tb := by
  unfold earned at h
  rw [mul_comm] at h
  unfold refillLocked
  exact if_neg (Int.not_lt.2 (int64_nonpos h))

theorem Polls.serve_snd (h : tb.Polls c calls) (hown : c.own = false) : (tb.serve c).2 = tb.refillLocked c.time := by
  have hpolls := h hown
  unfold polls at hpolls
  unfold serve
  cases hm : c.method with
  | take n =>
    simp only [hm, take] at hpolls ⊢
    split
    · rw [if_pos ‹_›] at hpolls
      cases hpolls
    · rfl
  | remaining => rfl
  | capacity =>
    rw [hm] at hpolls
    cases hpolls
  | reset =>
    rw [hm] at hpolls
    cases hpolls
  | timeUntilAvailable n =>
    simp only [timeUntilAvailable]
    split <;> rfl

theorem serve_refilled (tb : TokenBucket) (hm : c.method ≠ .capacity) :
    (tb.refillLocked c.time).serve c = tb.serve c := by
  unfold serve
  cases hc : c.method with
  | take n => simp only [take, refillLocked_twice]
  | remaining => simp only [remaining, refillLocked_twice]
  | capacity => exact absurd hc hm
  | reset =>
    simp only [reset, refillLocked_capacity]
    unfold refillLocked
    dsimp only
    split <;> rfl
  | timeUntilAvailable n => simp only [timeUntilAvailable, refillLocked_twice]

/-! ## The two runs -/

/-- How the bucket `p` of the run with the insertions stands to the bucket `o` of the run without: they are equal, or
equal up to the refill that the next call makes anyway, or no call is left that a difference could matter to. -/
def Keeps (p o : TokenBucket) (calls : List PolledCall) : Prop :=
  p = o ∨ (∃ next ∈ nextChange calls, p = o.refillLocked next.time) ∨
    nextChange calls = none ∧ p.capacity = o.capacity

theorem Keeps.capacity_eq (h : Keeps p o calls) : p.capacity = o.capacity := by
  rcases h with rfl | ⟨next, -, rfl⟩ | ⟨-, hcap⟩
  · rfl
  · exact refillLocked_capacity _ _
  · exact hcap

theorem nextChange_cons_of_ne (h : (c.own && c.method != .capacity) = false) :
    nextChange (c :: calls) = nextChange calls := by
  unfold nextChange
  rw [List.find?_cons, h]

theorem Keeps.poll (h : Keeps p o (c :: calls)) (hown : c.own = false) (hpolls : p.Polls c calls)
    (hharmless : p.Harmless c calls) : Keeps (p.serve c).2 o calls := by
  have hnext : nextChange (c :: calls) = nextChange calls := nextChange_cons_of_ne (by rw [hown]; rfl)
  have hcap := h.capacity_eq
  rw [hpolls.serve_snd hown]
  rcases hharmless hown with hearned | htime
  · rw [refillLocked_of_earned_lt hearned]
    unfold Keeps at h ⊢
    rwa [hnext] at h
  · cases hn : nextChange calls with
    | none => exact .inr (.inr ⟨hn, by rw [refillLocked_capacity, hcap]⟩)
    | some next =>
      have hsame : next.time = c.time := htime next hn
      refine .inr (.inl ⟨next, hn, ?_⟩)
      rcases h with rfl | ⟨next', hn', rfl⟩ | ⟨hnone, -⟩
      · rw [hsame]
      · rw [hnext, hn] at hn'
        cases hn'
        rw [← hsame, refillLocked_twice]
      · rw [hnext, hn] at hnone
        cases hnone

theorem Keeps.own (h : Keeps p o (c :: calls)) (hown : c.own = true) :
    (p.serve c).1 = (o.serve c).1 ∧ Keeps (p.serve c).2 (o.serve c).2 calls := by
  by_cases hm : c.method = .capacity
  · have hnext : nextChange (c :: calls) = nextChange calls := nextChange_cons_of_ne (by rw [hm]; simp)
    have hserve : ∀ tb : TokenBucket, tb.serve c = (.tokens tb.capacity, tb) := fun tb => by simp only [serve, hm]
    rw [hserve, hserve]
    refine ⟨by rw [h.capacity_eq], ?_⟩
    unfold Keeps at h ⊢
    rwa [hnext] at h
  · have hnext : nextChange (c :: calls) = some c := by
      unfold nextChange
      rw [List.find?_cons_of_pos]
      simp [hown, hm]
    rcases h with rfl | ⟨next, hn, rfl⟩ | ⟨hnone, -⟩
    · exact ⟨rfl, .inl rfl⟩
    · rw [hnext] at hn
      cases hn
      rw [serve_refilled o hm]
      exact ⟨rfl, .inl rfl⟩
    · rw [hnext] at hnone
      cases hnone

theorem keeps_unwinds : Unwinding.UnwindsAhead serve PolledCall.own fun p o calls =>
    Unwinding.Along serve Polls p calls ∧ Unwinding.Along serve Harmless p calls ∧ Keeps p o calls where
  own := by
    rintro p o c calls ⟨⟨-, hpolls⟩, ⟨-, hharmless⟩, h⟩ hown
    obtain ⟨hanswer, hnext⟩ := h.own hown
    exact ⟨hanswer, hpolls, hharmless, hnext⟩
  other := by
    rintro p o c calls ⟨⟨hp, hpolls⟩, ⟨hh, hharmless⟩, h⟩ hown
    exact ⟨hpolls, hharmless, h.poll hown hp hh⟩

end TokenBucket

/-- Each `Take` of the run's own that succeeds in the first list of answers succeeds in the second. -/
def KeepsSuccesses (original polled : List (PolledCall × BucketAnswer)) : Prop :=
  ∀ (i : Nat) (c : PolledCall), original[i]? = some (c, .taken true) → polled[i]? = some (c, .taken true)

/-- Inserting calls that are all harmless costs no `Take` its success, whatever the bucket and the times. -/
theorem harmless_polls_cost_nothing (tb : TokenBucket) (calls : List PolledCall)
    (hpolls : Unwinding.Along TokenBucket.serve TokenBucket.Polls tb calls)
    (hharmless : Unwinding.Along TokenBucket.serve TokenBucket.Harmless tb calls) :
    KeepsSuccesses (Unwinding.outputs TokenBucket.serve PolledCall.own tb (calls.filter (·.own)))
      (Unwinding.outputs TokenBucket.serve PolledCall.own tb calls) := by
  have hsame := Unwinding.outputs_filter_of_ahead TokenBucket.keeps_unwinds
    (t := tb) ⟨hpolls, hharmless, .inl rfl⟩
  rw [hsame]
  exact fun i c h => h

/-- Two tokens, one more each second. The polls come early, together with the second `Take`, and after it. -/
theorem harmless_polls_of_pair :
    let calls : List PolledCall := [⟨0, .take 2, true⟩, ⟨500000000, .remaining, false⟩,
      ⟨2000000000, .timeUntilAvailable 1, false⟩, ⟨2000000000, .take 2, true⟩, ⟨5000000000, .remaining, false⟩]
    KeepsSuccesses
      (Unwinding.outputs TokenBucket.serve PolledCall.own (newTokenBucket 0 2 1) (calls.filter (·.own)))
      (Unwinding.outputs TokenBucket.serve PolledCall.own (newTokenBucket 0 2 1) calls) :=
  harmless_polls_cost_nothing _ _ (by decide +kernel) (by decide +kernel)

/-- The same bucket asked after a second and a half: half a token is lost and the second `Take` fails. -/
theorem poll_costs_a_take :
    let calls : List PolledCall := [⟨0, .take 2, true⟩, ⟨1500000000, .remaining, false⟩, ⟨2000000000, .take 2, true⟩]
    (calls.map (·.time)).Pairwise (· ≤ ·) ∧
      Unwinding.Along TokenBucket.serve TokenBucket.Polls (newTokenBucket 0 2 1) calls ∧
      ¬ KeepsSuccesses
        (Unwinding.outputs TokenBucket.serve PolledCall.own (newTokenBucket 0 2 1) (calls.filter (·.own)))
        (Unwinding.outputs TokenBucket.serve PolledCall.own (newTokenBucket 0 2 1) calls) := by
  refine ⟨by decide, by decide +kernel, ?_⟩
  intro hkeeps
  have hsecond := hkeeps 1 ⟨2000000000, .take 2, true⟩ (by decide +kernel)
  revert hsecond
  decide +kernel

end Jupiter.Limits.RateLimit
