/-
`pkg/providers/health.go`: how long the health checker waits before its next check.

The wait doubles with every failure in a row, up to ten times the base interval and five minutes. The factor is a power
of two computed by a shift of a 64-bit integer and capped afterwards. `ticker.Reset` panics on a wait that is not
positive.
-/
import Jupiter.Go.Int64
import Jupiter.Go.Time
import Jupiter.Providers.Health
import Mathlib.Algebra.Order.Ring.Int

namespace Jupiter.Providers

open Jupiter.Go Jupiter.Lib

/-! ## The wait -/

def maxBackoff : Int := 5 * Duration.minute

/-- Durations are in nanoseconds. `1 << uint(n)` is the wrapped power: a shift by 64 or more leaves nothing. -/
def calculateBackoff (consecutiveFailures baseInterval : Int) : Int :=
  if consecutiveFailures ≤ 0 then baseInterval
  else
    let multiplier := wrap64 (2 ^ consecutiveFailures.toNat)
    let multiplier := if multiplier > 10 then 10 else multiplier
    let backoff := wrap64 (baseInterval * multiplier)
    if backoff > maxBackoff then maxBackoff else backoff

section Backoff

variable {n : Nat} {base : Int}

theorem wrap64_two_pow (hn : n ≤ 62) : wrap64 (2 ^ n) = 2 ^ n := by
  have hpos : (0 : Int) < 2 ^ n := Int.pow_pos (by decide)
  have hle : (2 : Int) ^ n ≤ 2 ^ 62 := pow_le_pow_right₀ (by decide) hn
  exact wrap64_of_range (by omega) (by omega)

theorem wrap64_two_pow_nonpos (hn : 63 ≤ n) : wrap64 (2 ^ n) = -(2 ^ 63) ∨ wrap64 (2 ^ n) = 0 := by
  rcases Nat.lt_or_ge n 64 with h | h
  · obtain rfl : n = 63 := by omega
    exact .inl (by decide)
  · obtain ⟨k, rfl⟩ := Nat.exists_eq_add_of_le h
    right
    have hpow : (2 : Int) ^ (64 + k) = 2 ^ 64 * 2 ^ k := pow_add ..
    unfold wrap64
    rw [hpow]
    generalize (2 : Int) ^ k = m
    omega

def factor (n : Nat) : Int := if (2 : Int) ^ n > 10 then 10 else 2 ^ n

theorem one_le_factor (n : Nat) : 1 ≤ factor n := by
  have hpos : (0 : Int) < 2 ^ n := Int.pow_pos (by decide)
  unfold factor
  split <;> omega

theorem factor_mono {m : Nat} (h : m ≤ n) : factor m ≤ factor n := by
  have hle : (2 : Int) ^ m ≤ 2 ^ n := pow_le_pow_right₀ (by decide) h
  unfold factor
  split <;> split <;> omega

theorem factor_le (n : Nat) : factor n ≤ 10 := by
  unfold factor
  split <;> omega

theorem calculateBackoff_eq (hb : 0 < base) (hmax : base ≤ maxBackoff) (hn : n ≤ 62) :
    calculateBackoff n base = min (base * factor n) maxBackoff := by
  have hle : base * factor n ≤ base * 10 := Int.mul_le_mul_of_nonneg_left (factor_le n) (Int.le_of_lt hb)
  have hge : base * 1 ≤ base * factor n := Int.mul_le_mul_of_nonneg_left (one_le_factor n) (Int.le_of_lt hb)
  have hfive : maxBackoff = 300000000000 := rfl
  have hwrap : wrap64 (base * factor n) = base * factor n := wrap64_of_range (by omega) (by omega)
  unfold calculateBackoff
  split
  · obtain rfl : n = 0 := by omega
    have hone : factor 0 = 1 := rfl
    rw [hone, Int.mul_one]
    exact (min_eq_left hmax).symm
  · dsimp only
    rw [Int.toNat_natCast, wrap64_two_pow hn]
    change (if wrap64 (base * factor n) > maxBackoff then maxBackoff else wrap64 (base * factor n)) = _
    rw [hwrap]
    split
    · exact (min_eq_right (Int.le_of_lt ‹_›)).symm
    · exact (min_eq_left (Int.not_lt.1 ‹_›)).symm

theorem calculateBackoff_in_range (hb : 0 < base) (hmax : base ≤ maxBackoff) (hn : n ≤ 62) :
    base ≤ calculateBackoff n base ∧ calculateBackoff n base ≤ maxBackoff := by
  have hge : base * 1 ≤ base * factor n := Int.mul_le_mul_of_nonneg_left (one_le_factor n) (Int.le_of_lt hb)
  have heq := calculateBackoff_eq hb hmax hn
  omega

theorem calculateBackoff_nonpos (hn : 63 ≤ n) : calculateBackoff n base ≤ 0 := by
  have hfive : maxBackoff = 300000000000 := rfl
  unfold calculateBackoff
  rw [if_neg (by omega)]
  dsimp only
  rw [Int.toNat_natCast]
  rcases wrap64_two_pow_nonpos hn with h | h
  · rw [h, if_neg (show ¬(-(2 ^ 63) : Int) > 10 by decide)]
    have hwrap : wrap64 (base * -(2 ^ 63)) ≤ 0 := by
      unfold wrap64
      omega
    rw [if_neg (show ¬wrap64 (base * -(2 ^ 63)) > maxBackoff by omega)]
    exact hwrap
  · rw [h, if_neg (show ¬(0 : Int) > 10 by decide), Int.mul_zero]
    decide

end Backoff

/-! ## The checker -/

inductive Phase where
  | waiting
  | checked
  | backingOff
  | panicked
  deriving DecidableEq

/-- `resets` holds the waits given to `ticker.Reset`, the latest first, and no code reads it. -/
structure Checker where
  health : ProviderHealth := {}
  phase : Phase := .waiting
  resets : List Int := []

inductive CheckerStep where
  | request (upstream : Nat → Attempt)
  | tick (upstream : Nat → Attempt)
  | isHealthy
  | getHealth

namespace Checker

/-- `ticker.Reset` panics on a wait that is not positive, and the process ends with it. -/
def reset (c : Checker) (d : Int) : Checker :=
  { c with phase := if d ≤ 0 then .panicked else .waiting, resets := d :: c.resets }

def step (maxRetries : Nat) (interval : Int) (c : Checker) : CheckerStep → Option Checker
  | .request upstream =>
    if c.phase = .panicked then none
    else some { c with health := (doRequest maxRetries upstream c.health).2 }
  | .tick upstream =>
    if c.phase = .waiting then
      some { c with health := (performHealthCheck maxRetries upstream c.health).2, phase := .checked }
    else none
  | .isHealthy =>
    if c.phase = .checked then
      if c.health.isHealthy then some (c.reset interval) else some { c with phase := .backingOff }
    else none
  | .getHealth =>
    if c.phase = .backingOff then some (c.reset (calculateBackoff c.health.consecutiveFailures interval))
    else none

variable {maxRetries : Nat} {interval : Int} {c c' : Checker}

/-- Every wait given to the ticker lies between the interval and five minutes, and the checker runs on. -/
structure InRange (interval : Int) (c : Checker) : Prop where
  resets : ∀ d ∈ c.resets, interval ≤ d ∧ d ≤ maxBackoff
  alive : c.phase ≠ .panicked

theorem InRange.reset {d : Int} (hb : 0 < interval) (h : InRange interval c) (hl : interval ≤ d)
    (hu : d ≤ maxBackoff) : InRange interval (c.reset d) where
  resets := List.forall_mem_cons.2 ⟨⟨hl, hu⟩, h.resets⟩
  alive := by
    show (if d ≤ 0 then Phase.panicked else .waiting) ≠ .panicked
    rw [if_neg (by omega)]
    decide

theorem InRange.step {l : CheckerStep} (hb : 0 < interval) (hmax : interval ≤ maxBackoff) (h : InRange interval c)
    (hcount : l = .getHealth → c.health.consecutiveFailures ≤ 62)
    (hstep : c.step maxRetries interval l = some c') : InRange interval c' := by
  cases l with
  | request upstream =>
    simp only [Checker.step, if_neg h.alive] at hstep
    cases hstep
    exact ⟨h.resets, h.alive⟩
  | tick upstream =>
    simp only [Checker.step] at hstep
    split at hstep <;> cases hstep
    exact ⟨h.resets, show Phase.checked ≠ .panicked by decide⟩
  | isHealthy =>
    simp only [Checker.step] at hstep
    split at hstep
    · split at hstep <;> cases hstep
      · exact h.reset hb (Int.le_refl _) hmax
      · exact ⟨h.resets, show Phase.backingOff ≠ .panicked by decide⟩
    · cases hstep
  | getHealth =>
    simp only [Checker.step] at hstep
    split at hstep <;> cases hstep
    obtain ⟨hl, hu⟩ := calculateBackoff_in_range hb hmax (hcount rfl)
    exact h.reset hb hl hu

/-- In every run in which each count read for a wait is at most 62, every wait lies between the interval and five
minutes. -/
theorem run_in_range (hb : 0 < interval) (hmax : interval ≤ maxBackoff) (steps : List CheckerStep)
    (hcount : Meets (Checker.step maxRetries interval)
      (fun c l => l = .getHealth → c.health.consecutiveFailures ≤ 62) {} steps)
    (hrun : run (Checker.step maxRetries interval) {} steps = some c) : InRange interval c := by
  refine run_invariant_of_meets ?_ steps {} c ⟨?_, by decide⟩ hcount hrun
  · intro c l c' h hok hstep
    exact h.step hb hmax hok hstep
  · intro d hd
    cases hd

end Checker

/-- The wait is at least the base interval and at most five minutes, is no shorter than after fewer failures, and does
not make `ticker.Reset` panic, exactly when there are at most 62 failures. -/
theorem calculateBackoff_safe_iff (n : Nat) (base : Int) (hb : 0 < base) (hmax : base ≤ maxBackoff) :
    (base ≤ calculateBackoff n base ∧ calculateBackoff n base ≤ maxBackoff ∧
      (∀ m : Nat, m ≤ n → calculateBackoff m base ≤ calculateBackoff n base) ∧
      ∀ (maxRetries : Nat) (c c' : Checker), c.health.consecutiveFailures = n →
        c.step maxRetries base .getHealth = some c' → c'.phase ≠ .panicked) ↔
      n ≤ 62 := by
  constructor
  · rintro ⟨hge, -⟩
    by_contra hn
    have hle := @calculateBackoff_nonpos n base (by omega)
    omega
  · intro hn
    obtain ⟨hl, hu⟩ := calculateBackoff_in_range hb hmax hn
    refine ⟨hl, hu, ?_, ?_⟩
    · intro m hm
      have hmono : base * factor m ≤ base * factor n :=
        Int.mul_le_mul_of_nonneg_left (factor_mono hm) (Int.le_of_lt hb)
      rw [calculateBackoff_eq hb hmax hn, calculateBackoff_eq hb hmax (le_trans hm hn)]
      omega
    · intro maxRetries c c' hcount hstep
      simp only [Checker.step, hcount] at hstep
      split at hstep <;> cases hstep
      show (if calculateBackoff n base ≤ 0 then Phase.panicked else .waiting) ≠ .panicked
      rw [if_neg (by omega)]
      decide

theorem calculateBackoff_safe_halfMinute :
    30 * Duration.second ≤ calculateBackoff 62 (30 * Duration.second) ∧
      calculateBackoff 62 (30 * Duration.second) ≤ maxBackoff := by
  have h := (calculateBackoff_safe_iff 62 (30 * Duration.second) (by decide) (by decide)).2 (by decide)
  exact ⟨h.1, h.2.1⟩

def failedCheck : List CheckerStep := [.tick fun _ => ⟨false, .response 500 "" ""⟩, .isHealthy, .getHealth]

theorem run_in_range_failedCheck :
    ∃ c, run (Checker.step 0 (30 * Duration.second)) {} (failedCheck.take 2 ++ failedCheck) = some c ∧
      Checker.InRange (30 * Duration.second) c := by
  refine ⟨_, rfl, @Checker.run_in_range 0 _ _ (by decide) (by decide) (failedCheck.take 2 ++ failedCheck) ?_ rfl⟩
  simp [failedCheck, Meets]
  decide +kernel

/-- With an interval of half a minute, the 63rd failure makes the wait zero; and after 32 failed checks, of which the
first leaves the provider healthy, the checker panics. -/
theorem backoff_overflows :
    calculateBackoff 63 (30 * Duration.second) = 0 ∧
      ((run (Checker.step 0 (30 * Duration.second)) {}
        ([.tick fun _ => ⟨false, .response 500 "" ""⟩, .isHealthy] ++
          (List.replicate 31 failedCheck).flatten)).map fun c => (c.health.consecutiveFailures, c.phase)) =
        some (64, .panicked) := by
  decide +kernel

end Jupiter.Providers
