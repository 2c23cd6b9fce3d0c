/-
What a token bucket lets through, over every run of its calls.

Refilling rounds down and moves the reference time only when a token was added, so the fraction of a token earned since
`lastRefill` is carried from call to call. It is always less than one token.
-/
import Jupiter.Lib.Machine
import Jupiter.Limits.RateLimit
import Mathlib.Data.Rat.Floor

namespace Jupiter.Limits.RateLimit

open Jupiter.Go Jupiter.Lib

inductive BucketCall where
  | take (n : Nat)
  | remaining
  | timeUntilAvailable (n : Int)

/-- A bucket, the time of the call made last and the tokens granted at each time, which no code reads. -/
structure Metered where
  bucket : TokenBucket
  now : Int
  grants : List (Int × Int) := []
  deriving DecidableEq

def granted (a b : Int) : List (Int × Int) → Int
  | [] => 0
  | (t, n) :: grants => (if a ≤ t ∧ t ≤ b then n else 0) + granted a b grants

namespace Metered

def new (now : Time) (capacity : Int) (refillRate : ℚ) : Metered :=
  { bucket := newTokenBucket now capacity refillRate, now }

def step (m : Metered) : Int × BucketCall → Option Metered
  | (now, call) =>
    if now < m.now then none
    else
      match call with
      | .take n =>
        let (ok, bucket) := m.bucket.take now n
        some { bucket, now, grants := if ok then (now, (n : Int)) :: m.grants else m.grants }
      | .remaining => some { m with bucket := (m.bucket.remaining now).2, now }
      | .timeUntilAvailable n => some { m with bucket := (m.bucket.timeUntilAvailable now n).2, now }

end Metered

/-! ## Refilling -/

theorem int64_eq_floor {x : ℚ} (h : 0 ≤ x) : int64 x = ⌊x⌋ := by
  rw [int64, Int.tdiv_eq_ediv_of_nonneg (Rat.num_nonneg.2 h), Rat.floor_def']

section Refill

variable {tb : TokenBucket} {now : Int}

def earned (rate : ℚ) (elapsed : Int) : ℚ := rate * ((elapsed : ℚ) / (Duration.second : ℚ))

theorem earned_nonneg {rate : ℚ} {d : Int} (hr : 0 < rate) (hd : 0 ≤ d) : 0 ≤ earned rate d := by
  have hs : (0 : ℚ) < (Duration.second : ℚ) := by norm_num [Duration.second]
  have hq : (0 : ℚ) ≤ (d : ℚ) := by exact_mod_cast hd
  exact mul_nonneg hr.le (div_nonneg hq hs.le)

theorem earned_sub (rate : ℚ) (a b c : Int) : earned rate (c - a) = earned rate (b - a) + earned rate (c - b) := by
  unfold earned
  push_cast
  ring

/-- A refill gives out no more than was earned since the last one, and leaves less than one token unaccounted. -/
theorem refillLocked_cases (hr : 0 < tb.refillRate) (hlast : tb.lastRefill ≤ now) :
    (∃ k : Int, 0 < k ∧ (k : ℚ) ≤ earned tb.refillRate (now - tb.lastRefill) ∧
      tb.refillLocked now = { tb with tokens := min (tb.tokens + k) tb.capacity, lastRefill := now }) ∨
    earned tb.refillRate (now - tb.lastRefill) < 1 ∧ tb.refillLocked now = tb := by
  have hpos := earned_nonneg hr (show (0 : Int) ≤ now - tb.lastRefill by exact Int.sub_nonneg.2 hlast)
  have hadd : int64 (((now - tb.lastRefill : Int) : ℚ) / (Duration.second : ℚ) * tb.refillRate) =
      ⌊earned tb.refillRate (now - tb.lastRefill)⌋ := by
    rw [mul_comm]
    exact int64_eq_floor hpos
  by_cases hk : 0 < ⌊earned tb.refillRate (now - tb.lastRefill)⌋
  · refine .inl ⟨_, hk, Int.floor_le _, ?_⟩
    unfold TokenBucket.refillLocked
    dsimp only
    rw [hadd, if_pos hk]
    congr 1
    split
    · exact (min_eq_right (Int.le_of_lt ‹_›)).symm
    · exact (min_eq_left (Int.not_lt.1 ‹_›)).symm
  · refine .inr ⟨?_, ?_⟩
    · have h := Int.lt_floor_add_one (earned tb.refillRate (now - tb.lastRefill))
      have hz : (⌊earned tb.refillRate (now - tb.lastRefill)⌋ : ℚ) ≤ 0 := by exact_mod_cast Int.not_lt.1 hk
      linarith
    · unfold TokenBucket.refillLocked
      dsimp only
      rw [hadd, if_neg hk]

end Refill

/-! ## Runs -/

theorem granted_eq_zero {a b : Int} : ∀ {grants : List (Int × Int)}, (∀ g ∈ grants, g.1 < a) → granted a b grants = 0
  | [], _ => rfl
  | (t, n) :: grants, h => by
    have ht : t < a := h _ (.head _)
    rw [granted, granted_eq_zero fun g hg => h g (.tail _ hg), if_neg (by omega)]
    rfl

theorem granted_congr {a b b' : Int} : ∀ {grants : List (Int × Int)},
    (∀ g ∈ grants, g.1 ≤ b ∧ g.1 ≤ b') → granted a b grants = granted a b' grants
  | [], _ => rfl
  | (t, n) :: grants, h => by
    have ht : t ≤ b ∧ t ≤ b' := h _ (.head _)
    rw [granted, granted, granted_congr fun g hg => h g (.tail _ hg)]
    simp only [ht, and_true]

/-- The invariant of a run. `fresh`: the tokens granted since `a` and those left stay below the capacity, what was
earned from `a` to the last refill, and one token. -/
structure GrantsBounded (capacity : Int) (rate : ℚ) (m : Metered) : Prop where
  capacity_eq : m.bucket.capacity = capacity
  rate_eq : m.bucket.refillRate = rate
  nonneg : 0 ≤ m.bucket.tokens
  le_capacity : m.bucket.tokens ≤ capacity
  lastRefill_le : m.bucket.lastRefill ≤ m.now
  grants_le : ∀ g ∈ m.grants, g.1 ≤ m.now
  fresh : ∀ a ≤ m.now, ((granted a m.now m.grants + m.bucket.tokens : Int) : ℚ) <
    capacity + earned rate (m.bucket.lastRefill - a) + 1
  bound : ∀ a d : Int, 0 ≤ d → granted a (a + d) m.grants ≤ capacity + ⌈earned rate d⌉

section GrantsBounded

variable {capacity : Int} {rate : ℚ} {m m' : Metered} {now : Int}

theorem GrantsBounded.new {created : Int} (hc : 0 ≤ capacity) (hr : 0 < rate) :
    GrantsBounded capacity rate (.new created capacity rate) where
  capacity_eq := rfl
  rate_eq := rfl
  nonneg := hc
  le_capacity := Int.le_refl _
  lastRefill_le := Int.le_refl _
  grants_le := by
    intro g hg
    cases hg
  fresh := by
    intro a ha
    have he := earned_nonneg hr (show 0 ≤ created - a from Int.sub_nonneg.2 ha)
    show (((0 + capacity : Int)) : ℚ) < capacity + earned rate (created - a) + 1
    push_cast
    linarith
  bound := by
    intro a d hd
    have hceil := Int.ceil_nonneg (earned_nonneg hr hd)
    show 0 ≤ capacity + ⌈earned rate d⌉
    omega

theorem GrantsBounded.refill (hr : 0 < rate) (h : GrantsBounded capacity rate m) (hnow : m.now ≤ now) :
    GrantsBounded capacity rate { m with bucket := m.bucket.refillLocked now, now } := by
  obtain ⟨hcap, hrate, hnonneg, hle, hlast, hgrants, hfresh, hbound⟩ := h
  have hgrants' : ∀ g ∈ m.grants, g.1 ≤ now := fun g hg => Int.le_trans (hgrants g hg) hnow
  have hsame : ∀ a, granted a now m.grants = granted a m.now m.grants := fun a =>
    granted_congr fun g hg => ⟨hgrants' g hg, hgrants g hg⟩
  -- An interval that starts after the previous call has given out nothing yet.
  have hnone : ∀ a, m.now < a → granted a m.now m.grants = 0 := fun a ha =>
    granted_eq_zero fun g hg => Int.lt_of_le_of_lt (hgrants g hg) ha
  rcases refillLocked_cases (hrate ▸ hr) (Int.le_trans hlast hnow) with ⟨k, hk, hearned, heq⟩ | ⟨hearned, heq⟩
  · rw [heq]
    rw [hrate] at hearned
    refine ⟨hcap, hrate, ?_, ?_, Int.le_refl _, hgrants', ?_, hbound⟩
    · show 0 ≤ min (m.bucket.tokens + k) m.bucket.capacity
      omega
    · show min (m.bucket.tokens + k) m.bucket.capacity ≤ capacity
      omega
    · intro a ha
      show ((granted a now m.grants + min (m.bucket.tokens + k) m.bucket.capacity : Int) : ℚ) <
        capacity + earned rate (now - a) + 1
      rw [hsame]
      rcases Int.lt_or_le m.now a with hlate | hearly
      · -- Nothing granted yet, and the refill stops at the capacity.
        have hpos := earned_nonneg hr (show 0 ≤ now - a from Int.sub_nonneg.2 ha)
        have hmin : ((0 + min (m.bucket.tokens + k) m.bucket.capacity : Int) : ℚ) ≤ capacity := by
          exact_mod_cast (show 0 + min (m.bucket.tokens + k) m.bucket.capacity ≤ capacity by omega)
        rw [hnone a hlate]
        linarith
      · have hmin : ((granted a m.now m.grants + min (m.bucket.tokens + k) m.bucket.capacity : Int) : ℚ) ≤
            ((granted a m.now m.grants + m.bucket.tokens : Int) : ℚ) + k := by
          exact_mod_cast (show granted a m.now m.grants + min (m.bucket.tokens + k) m.bucket.capacity ≤
            granted a m.now m.grants + m.bucket.tokens + k by omega)
        have hold := hfresh a hearly
        rw [earned_sub rate a m.bucket.lastRefill now]
        linarith
  · rw [heq]
    rw [hrate] at hearned
    refine ⟨hcap, hrate, hnonneg, hle, Int.le_trans hlast hnow, hgrants', ?_, hbound⟩
    intro a ha
    show ((granted a now m.grants + m.bucket.tokens : Int) : ℚ) < capacity + earned rate (m.bucket.lastRefill - a) + 1
    rw [hsame]
    rcases Int.lt_or_le m.now a with hlate | hearly
    · -- The interval starts within the time whose fraction of a token is carried.
      have hpos := earned_nonneg hr (show 0 ≤ now - a from Int.sub_nonneg.2 ha)
      have hsplit := earned_sub rate a m.bucket.lastRefill now
      have htokens : ((0 + m.bucket.tokens : Int) : ℚ) ≤ capacity := by
        exact_mod_cast (show 0 + m.bucket.tokens ≤ capacity by omega)
      rw [hnone a hlate]
      linarith
    · exact hfresh a hearly

theorem GrantsBounded.spend {n : Int} (hr : 0 < rate) (h : GrantsBounded capacity rate m) (hn : 0 ≤ n)
    (hle : n ≤ m.bucket.tokens) :
    GrantsBounded capacity rate
      { m with bucket := { m.bucket with tokens := m.bucket.tokens - n }, grants := (m.now, n) :: m.grants } := by
  obtain ⟨hcap, hrate, hnonneg, htokens, hlast, hgrants, hfresh, hbound⟩ := h
  refine ⟨hcap, hrate, Int.sub_nonneg.2 hle, ?_, hlast, List.forall_mem_cons.2 ⟨Int.le_refl _, hgrants⟩, ?_, ?_⟩
  · show m.bucket.tokens - n ≤ capacity
    omega
  · intro a ha
    show (((if a ≤ m.now ∧ m.now ≤ m.now then n else 0) + granted a m.now m.grants +
      (m.bucket.tokens - n) : Int) : ℚ) < _
    rw [if_pos ⟨ha, Int.le_refl _⟩, show n + granted a m.now m.grants + (m.bucket.tokens - n) =
      granted a m.now m.grants + m.bucket.tokens by omega]
    exact hfresh a ha
  · intro a d hd
    show (if a ≤ m.now ∧ m.now ≤ a + d then n else 0) + granted a (a + d) m.grants ≤ capacity + ⌈earned rate d⌉
    split
    · rename_i hin
      -- What is granted and what is left are below an integer plus one, so the former is at most its ceiling.
      have hsame : granted a (a + d) m.grants = granted a m.now m.grants :=
        granted_congr fun g hg => ⟨Int.le_trans (hgrants g hg) hin.2, hgrants g hg⟩
      have hend := earned_nonneg hr
        (show 0 ≤ a + d - m.bucket.lastRefill from Int.sub_nonneg.2 (Int.le_trans hlast hin.2))
      have hsplit := earned_sub rate a m.bucket.lastRefill (a + d)
      rw [show a + d - a = d by omega] at hsplit
      have hgiven : ((n + granted a m.now m.grants : Int) : ℚ) ≤
          ((granted a m.now m.grants + m.bucket.tokens : Int) : ℚ) := by
        exact_mod_cast (show n + granted a m.now m.grants ≤ granted a m.now m.grants + m.bucket.tokens by omega)
      have hlt : ((n + granted a m.now m.grants - capacity - 1 : Int) : ℚ) < earned rate d := by
        have hf := hfresh a hin.1
        rw [Int.cast_sub, Int.cast_sub, Int.cast_one]
        linarith
      have hceil := Int.lt_ceil.2 hlt
      rw [hsame]
      omega
    · rw [Int.zero_add]
      exact hbound a d hd

theorem GrantsBounded.step {l : Int × BucketCall} (hr : 0 < rate) (h : GrantsBounded capacity rate m)
    (hstep : m.step l = some m') : GrantsBounded capacity rate m' := by
  obtain ⟨now, call⟩ := l
  simp only [Metered.step] at hstep
  split at hstep
  · cases hstep
  · have hrefill := h.refill hr (Int.not_lt.1 ‹_›)
    cases call with
    | take n =>
      simp only [TokenBucket.take] at hstep
      split at hstep <;> cases hstep
      · exact hrefill.spend hr (Int.natCast_nonneg n) ‹_›
      · exact hrefill
    | remaining =>
      cases hstep
      exact hrefill
    | timeUntilAvailable n =>
      cases hstep
      simp only [TokenBucket.timeUntilAvailable]
      split <;> exact hrefill

end GrantsBounded

/-- The tokens stay between zero and the capacity, and in every interval the calls are granted at most the capacity
and what the rate gives in its length. -/
theorem tokenBucket_bound (capacity : Int) (rate : ℚ) (created : Time) (hc : 0 ≤ capacity) (hr : 0 < rate)
    (calls : List (Int × BucketCall)) (m : Metered)
    (hrun : run Metered.step (.new created capacity rate) calls = some m) :
    0 ≤ m.bucket.tokens ∧ m.bucket.tokens ≤ capacity ∧
      ∀ a d : Int, 0 ≤ d →
        granted a (a + d) m.grants ≤ capacity + ⌈rate * ((d : ℚ) / (Duration.second : ℚ))⌉ := by
  have h : GrantsBounded capacity rate m :=
    run_invariant (fun _ _ _ hb hs => hb.step hr hs) calls _ m (.new hc hr) hrun
  exact ⟨h.nonneg, h.le_capacity, h.bound⟩

/-- The bound is reached: a bucket of one token that earns one each second grants two within a second. -/
theorem tokenBucket_bound_second :
    ∃ m, run Metered.step (.new 0 1 1) [(0, .take 1), (1000000000, .take 1)] = some m ∧
      granted 0 (0 + 1000000000) m.grants = 2 ∧
      granted 0 (0 + 1000000000) m.grants ≤ 1 + ⌈(1 : ℚ) * (((1000000000 : Int) : ℚ) / (Duration.second : ℚ))⌉ := by
  have hrun : run Metered.step (.new 0 1 1) [(0, .take 1), (1000000000, .take 1)] =
      some ⟨⟨1, 0, 1, 1000000000⟩, 1000000000, [(1000000000, 1), (0, 1)]⟩ := by
    decide +kernel
  exact ⟨_, hrun, rfl, (tokenBucket_bound 1 1 0 (by decide) (by decide) _ _ hrun).2.2 0 1000000000 (by decide)⟩

end Jupiter.Limits.RateLimit
