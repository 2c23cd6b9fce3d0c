/-
Limiters and trackers in which nothing has been recorded. Their token windows refuse an estimate only if it is above
the limit on its own, their budgets refuse nothing, and a check leaves them as they were but for the request counts.
-/
import Jupiter.Limits.Manager

namespace Jupiter.Limits

open Jupiter.Go Jupiter.Lib.Buckets

namespace RateLimit

def SlidingWindow.Unused (sw : SlidingWindow) : Prop := ∀ b ∈ sw.buckets, b = .empty

theorem SlidingWindow.Unused.sum_eq {sw : SlidingWindow} (h : sw.Unused) (now : Time) : sw.sum now = (0, sw) := by
  have hprune : sw.pruneLocked now = sw := by
    unfold pruneLocked
    simp only [prune_of_empty h]
  unfold sum held
  simp only [hprune, total_of_empty h]
  rfl

theorem newSlidingWindow_unused (window size : Duration) : (newSlidingWindow window size).Unused :=
  fun _ hb => List.eq_of_mem_replicate hb

namespace Limiter

structure Unused (l : Limiter) : Prop where
  minute : ∀ sw, l.tokensPerMinute = some sw → sw.Unused
  hour : ∀ sw, l.tokensPerHour = some sw → sw.Unused
  concurrent : ∀ cl, l.concurrent = some cl → cl.current = 0 ∧ 0 < cl.limit

theorem newLimiter_unused (now : Time) (config : Config) : (newLimiter now config).Unused := by
  refine ⟨?_, ?_, ?_⟩
  · intro sw h
    obtain ⟨-, h⟩ := Option.ite_none_right_eq_some.1 h
    cases h
    exact newSlidingWindow_unused _ _
  · intro sw h
    obtain ⟨-, h⟩ := Option.ite_none_right_eq_some.1 h
    cases h
    exact newSlidingWindow_unused _ _
  · intro cl h
    obtain ⟨hpos, h⟩ := Option.ite_none_right_eq_some.1 h
    cases h
    exact ⟨rfl, hpos⟩

variable {l : Limiter}

theorem checkRequest_concurrent (l : Limiter) (now : Time) : (l.checkRequest now).2.concurrent = l.concurrent := by
  unfold checkRequest
  simp only []
  split
  · rfl
  · split
    · rfl
    · split <;> rfl

theorem Unused.checkRequest (h : l.Unused) (now : Time) : (l.checkRequest now).2.Unused := by
  obtain ⟨hminute, hhour⟩ := l.checkRequest_windows now
  refine ⟨?_, ?_, ?_⟩
  · rw [hminute]; exact h.minute
  · rw [hhour]; exact h.hour
  · rw [l.checkRequest_concurrent now]; exact h.concurrent

def fits (l : Limiter) (tokens : Int) : Bool :=
  (l.config.tokensPerMinute ≤ 0 || wrap64 tokens ≤ l.config.tokensPerMinute) &&
    (l.config.tokensPerHour ≤ 0 || wrap64 tokens ≤ l.config.tokensPerHour)

theorem checkTokenWindow_unused (now : Time) (reason : String) (span : Duration) (limit tokens : Int)
    {window : Option SlidingWindow} (h : ∀ sw, window = some sw → sw.Unused) (hw : window.isSome ↔ 0 < limit) :
    ((checkTokenWindow now reason span limit tokens window).1.isNone = (limit ≤ 0 || wrap64 tokens ≤ limit)) ∧
      (∀ r, (checkTokenWindow now reason span limit tokens window).1 = some r → r.allowed = false) ∧
      (checkTokenWindow now reason span limit tokens window).2 = window := by
  cases window with
  | none =>
    have hlimit : limit ≤ 0 := by
      have := mt hw.2 Bool.false_ne_true
      omega
    refine ⟨by simp [checkTokenWindow, hlimit], ?_, rfl⟩
    rintro r ⟨⟩
  | some sw =>
    have hlimit : ¬ limit ≤ 0 := by
      have := hw.1 rfl
      omega
    simp only [checkTokenWindow, (h sw rfl).sum_eq, Int.zero_add]
    by_cases ht : limit < wrap64 tokens
    · rw [if_pos ht]
      refine ⟨by simp [hlimit, ht], ?_, rfl⟩
      rintro r ⟨⟩
      rfl
    · rw [if_neg ht]
      refine ⟨by simp [hlimit, Int.not_lt.1 ht], ?_, rfl⟩
      rintro r ⟨⟩

theorem Unused.checkTokens (h : l.Unused) (now : Time) (tokens : Int) :
    (l.checkTokens now tokens).1.allowed = l.fits tokens ∧ (l.checkTokens now tokens).2 = l := by
  obtain ⟨hminute, hrefused, hsame⟩ := checkTokenWindow_unused now "tokens per minute limit exceeded" Duration.minute
    l.config.tokensPerMinute tokens h.minute l.tokensPerMinute_iff
  obtain ⟨hhour, hrefused', hsame'⟩ := checkTokenWindow_unused now "tokens per hour limit exceeded" Duration.hour
    l.config.tokensPerHour tokens h.hour l.tokensPerHour_iff
  unfold Limiter.checkTokens fits
  simp only [hsame, hsame']
  rw [← hminute, ← hhour]
  split
  next r hr =>
    rw [hr]
    exact ⟨hrefused r hr, rfl⟩
  next hr =>
    rw [hr]
    split
    next r hr' =>
      rw [hr']
      exact ⟨hrefused' r hr', rfl⟩
    next hr' =>
      rw [hr']
      exact ⟨rfl, rfl⟩

theorem Unused.acquireConcurrent (h : l.Unused) :
    l.acquireConcurrent.1 = true ∧ l.acquireConcurrent.2.releaseConcurrent = l := by
  obtain ⟨second, minute, hour, tokensMinute, tokensHour, concurrent, config, hminute, hhour⟩ := l
  cases concurrent with
  | none => exact ⟨rfl, rfl⟩
  | some cl =>
    obtain ⟨hzero, hpos⟩ := h.concurrent cl rfl
    have hroom : ¬ cl.limit < cl.current + 1 := by omega
    have hback : cl.acquire.2.release = cl := by simp [ConcurrentLimiter.acquire, ConcurrentLimiter.release, hroom]
    refine ⟨by simp [Limiter.acquireConcurrent, ConcurrentLimiter.acquire, hroom], ?_⟩
    simp only [Limiter.acquireConcurrent, releaseConcurrent, Option.map_some, hback]

end Limiter

/-- What decides on a request of an identifier while nothing is recorded: the request counts and its own size. -/
def letsThrough (l : Option Limiter) (now : Time) (tokens : Int) : Bool :=
  match l with
  | none => true
  | some l => (l.checkRequest now).1.allowed && l.fits tokens

end RateLimit

namespace Budget

section Window

variable {F : Type} [Zero F]

def RollingWindow.Unused (rw : RollingWindow F) : Prop := ∀ b ∈ rw.buckets, b = .empty

theorem newRollingWindow_unused (window size : Duration) : (newRollingWindow (F := F) window size).Unused :=
  fun _ hb => List.eq_of_mem_replicate hb

theorem RollingWindow.Unused.sum_eq [Add F] {rw : RollingWindow F} (h : rw.Unused) (now : Time) : rw.sum now = (0, rw) := by
  have hprune : rw.pruneLocked now = rw := by
    unfold pruneLocked
    simp only [prune_of_empty h]
  unfold sum
  simp only [hprune, total_of_empty h]

end Window

section Tracker

variable {F : Type} [LinearOrder F] [Zero F]

structure Tracker.Unused (t : Tracker F) : Prop where
  hourly : ∀ rw, t.hourly = some rw → rw.Unused
  daily : ∀ rw, t.daily = some rw → rw.Unused
  monthly : ∀ rw, t.monthly = some rw → rw.Unused

theorem newTracker_unused (config : Config F) : (newTracker config).Unused := by
  refine ⟨?_, ?_, ?_⟩
  all_goals
    intro rw h
    obtain ⟨-, h⟩ := Option.ite_none_right_eq_some.1 h
    cases h
    exact newRollingWindow_unused _ _

variable [Add F] [Sub F] [Div F]

namespace Tracker

theorem checkWindow_unused (threshold : F) (now : Time) (reason : String) (span : Duration) (limit : F)
    {window : Option (RollingWindow F)} (h : ∀ rw, window = some rw → rw.Unused) :
    (∀ s, (checkWindow threshold now reason span limit window).1 = some s → s.allowed = true) ∧
      (checkWindow threshold now reason span limit window).2 = window := by
  cases window with
  | none =>
    refine ⟨?_, rfl⟩
    rintro s ⟨⟩
  | some rw =>
    simp only [checkWindow, (h rw rfl).sum_eq]
    split
    next hpos =>
      rw [if_neg hpos.asymm]
      split
      · refine ⟨?_, rfl⟩
        rintro s ⟨⟩
        rfl
      · refine ⟨?_, rfl⟩
        rintro s ⟨⟩
    next =>
      refine ⟨?_, rfl⟩
      rintro s ⟨⟩

theorem Unused.check {t : Tracker F} (h : t.Unused) (now : Time) :
    (t.check now).1.allowed = true ∧ (t.check now).2 = t := by
  obtain ⟨hhourly, hsame⟩ := checkWindow_unused t.config.alertThreshold now "hourly budget limit exceeded" Duration.hour
    t.config.hourly h.hourly
  obtain ⟨hdaily, hsame'⟩ := checkWindow_unused t.config.alertThreshold now "daily budget limit exceeded"
    (24 * Duration.hour) t.config.daily h.daily
  obtain ⟨hmonthly, hsame''⟩ := checkWindow_unused t.config.alertThreshold now "monthly budget limit exceeded"
    (30 * 24 * Duration.hour) t.config.monthly h.monthly
  unfold Tracker.check
  simp only [hsame, hsame', hsame'']
  split
  next s hs => exact ⟨hhourly s hs, rfl⟩
  next =>
    split
    next s hs => exact ⟨hdaily s hs, rfl⟩
    next =>
      split
      next s hs => exact ⟨hmonthly s hs, rfl⟩
      next => exact ⟨rfl, rfl⟩

end Tracker

end Tracker

end Budget

/-! ## Idle identifiers -/

namespace Manager

section Idle

variable {F : Type} [LinearOrder F] [Zero F]

/-- Nothing has been recorded for the identifier, and it has no request in progress. -/
structure Idle (config : Config F) (i : String) (m : Manager F) : Prop where
  ready : Ready config m
  limiter : ∀ l, m.rateLimiters i = some l → l.Unused
  tracker : ∀ t, m.budgets i = some t → t.Unused

theorem newManager_idle (start : Time) (config : Config F) (i : String) : Idle config i (newManager start config) := by
  refine ⟨newManager_ready start config, ?_, ?_⟩
  · intro l hl
    obtain ⟨c, -, rfl⟩ := Option.map_eq_some_iff.1 hl
    exact RateLimit.Limiter.newLimiter_unused start c
  · intro t ht
    obtain ⟨c, -, rfl⟩ := Option.map_eq_some_iff.1 ht
    exact Budget.newTracker_unused c

variable {config : Config F} {i : String} {m : Manager F}

theorem checkRate_unused {l : RateLimit.Limiter} (h : l.Unused) (m : Manager F) (now : Time) (i : String)
    (tokens : Int) (model : String) :
    (m.checkRate now i tokens model l).1.isNone =
        ((l.checkRequest now).1.allowed && l.fits tokens) ∧
      (m.checkRate now i tokens model l).2 = (l.checkRequest now).2 := by
  obtain ⟨hfits, hsame⟩ := (h.checkRequest now).checkTokens now tokens
  have hsize : (l.checkRequest now).2.fits tokens = l.fits tokens := by
    simp only [RateLimit.Limiter.fits, RateLimit.Limiter.checkRequest_config]
  rw [hsize] at hfits
  unfold checkRate
  simp only [hfits, hsame]
  cases (l.checkRequest now).1.allowed with
  | false => exact ⟨rfl, rfl⟩
  | true => cases l.fits tokens <;> exact ⟨rfl, rfl⟩

variable [Add F] [Sub F] [Div F]

theorem Idle.budgetResult_allowed (h : Idle config i m) (now : Time) (model : String) {t : Budget.Tracker F}
    (ht : m.budgets i = some t) : (m.budgetResult i model (t.check now).1).allowed = true := by
  simp only [budgetResult, ((h.tracker t ht).check now).1, if_true]
  split <;> rfl

theorem Idle.checkLimits_rateLimiters (h : Idle config i m) (now : Time) (tokens : Int) (cost : F) (model : String) :
    (m.checkLimits now i tokens cost model).2.rateLimiters i =
      (m.rateLimiters i).map fun l => (l.checkRequest now).2 := by
  rw [(h.ready.checkLimits_entries now i tokens cost model).2]
  simp only [adjust_self]
  cases hl : m.rateLimiters i with
  | none => rfl
  | some l => exact congrArg some (checkRate_unused (h.limiter l hl) m now i tokens model).2

theorem Idle.checkLimits_budgets (h : Idle config i m) (now : Time) (tokens : Int) (cost : F) (model : String) :
    (m.checkLimits now i tokens cost model).2.budgets i = m.budgets i := by
  rw [(h.ready.checkLimits_entries now i tokens cost model).2]
  simp only
  split
  · rfl
  · rw [adjust_self]
    cases ht : m.budgets i with
    | none => rfl
    | some t => exact congrArg some ((h.tracker t ht).check now).2

theorem Idle.checkLimits (h : Idle config i m) (hb : config.enforcement.defaultAction = .block) (now : Time)
    (tokens : Int) (cost : F) (model : String) :
    (m.checkLimits now i tokens cost model).1.allowed = RateLimit.letsThrough (m.rateLimiters i) now tokens ∧
      Idle config i (m.checkLimits now i tokens cost model).2 ∧
      (m.checkLimits now i tokens cost model).2.rateLimiters i =
        (m.rateLimiters i).map fun l => (l.checkRequest now).2 := by
  have hready : Ready config (m.checkLimits now i tokens cost model).2 :=
    h.ready.call now (.checkLimits i tokens cost model)
  have hlimiter := h.checkLimits_rateLimiters now tokens cost model
  refine ⟨?_, ⟨hready, ?_, ?_⟩, hlimiter⟩
  · rw [(h.ready.checkLimits_entries now i tokens cost model).1]
    unfold RateLimit.letsThrough
    -- with the rate limits passed, the budget passes too
    cases hl : m.rateLimiters i with
    | none =>
      cases ht : m.budgets i with
      | none => rfl
      | some t => exact h.budgetResult_allowed now model ht
    | some l =>
      have hrate := (checkRate_unused (h.limiter l hl) m now i tokens model).1
      simp only [Option.bind_some, ← hrate]
      cases hr : (m.checkRate now i tokens model l).1 with
      | none =>
        cases ht : m.budgets i with
        | none => rfl
        | some t => exact h.budgetResult_allowed now model ht
      | some r => exact h.ready.checkRate_rejects hb hr
  · intro l hl
    rw [hlimiter] at hl
    obtain ⟨l₀, h₀, rfl⟩ := Option.map_eq_some_iff.1 hl
    exact (h.limiter l₀ h₀).checkRequest now
  · rw [h.checkLimits_budgets]
    exact h.tracker

theorem Idle.slot (h : Idle config i m) (now later : Time) :
    (m.acquireConcurrent now i).1 = true ∧
      Idle config i ((m.acquireConcurrent now i).2.releaseConcurrent later i) ∧
      ((m.acquireConcurrent now i).2.releaseConcurrent later i).rateLimiters i = m.rateLimiters i := by
  have hready := h.ready.call now (.acquireConcurrent i)
  have hready' := hready.call later (.releaseConcurrent i)
  simp only [call] at hready hready'
  have hlimiter : ((m.acquireConcurrent now i).2.releaseConcurrent later i).rateLimiters i = m.rateLimiters i := by
    rw [hready.releaseConcurrent_eq, h.ready.acquireConcurrent_eq]
    simp only [adjust_self]
    cases hl : m.rateLimiters i with
    | none => rfl
    | some l => exact congrArg some (h.limiter l hl).acquireConcurrent.2
  refine ⟨?_, ⟨hready', ?_, ?_⟩, hlimiter⟩
  · unfold acquireConcurrent
    rw [h.ready.getRateLimiter_eq]
    cases hl : m.rateLimiters i with
    | none => rfl
    | some l => exact (h.limiter l hl).acquireConcurrent.1
  · rw [hlimiter]; exact h.limiter
  · rw [hready.releaseConcurrent_eq, h.ready.acquireConcurrent_eq]
    exact h.tracker

end Idle

end Manager

end Jupiter.Limits
