/-
Token limits under concurrent clients.

A client asks `CheckLimits` with an estimate and, if allowed, later calls `RecordUsage` with what it used. The manager's
lock makes each of the two calls one step; between them a request is in flight, and its estimate is counted nowhere.
-/
import Jupiter.Lib.Machine
import Jupiter.Limits.Manager

namespace Jupiter.Limits

open Jupiter.Go Jupiter.Lib Jupiter.Lib.Buckets RateLimit

/-! ## What a sliding window holds -/

namespace RateLimit.SlidingWindow

variable {sw : SlidingWindow} {now later : Time}

theorem held_pruneLocked (h : now ≤ later) : (sw.pruneLocked now).held later = sw.held later :=
  congrArg total (prune_prune (Int.sub_le_sub_right h sw.window) sw.buckets)

theorem held_anti (hn : NonNeg sw.buckets) (h : now ≤ later) : sw.held later ≤ sw.held now :=
  total_prune_anti (Int.sub_le_sub_right h sw.window) hn

theorem findOrCreate_le (now : Time) (hn : NonNeg sw.buckets) :
    NonNeg (sw.findOrCreateBucketLocked now).2.buckets ∧
      total (sw.findOrCreateBucketLocked now).2.buckets ≤ total sw.buckets := by
  unfold findOrCreateBucketLocked
  simp only []
  split
  · exact ⟨hn, le_refl _⟩
  · split
    · exact ⟨hn, le_refl _⟩
    · exact ⟨set_nonneg hn _, total_set_le _ hn _⟩

theorem add_nonneg {v : Int} (hv : 0 ≤ v) (hn : NonNeg sw.buckets) : NonNeg (sw.add now v).buckets :=
  addAt_nonneg hv (findOrCreate_le now (prune_nonneg hn)).1

theorem held_add_le {v : Int} (hv : 0 ≤ v) (hn : NonNeg sw.buckets) :
    (sw.add now v).held now ≤ sw.held now + v := by
  have hle := (findOrCreate_le now (show NonNeg (sw.pruneLocked now).buckets from prune_nonneg hn)).2
  calc (sw.add now v).held now
      ≤ total (sw.add now v).buckets := total_prune_le _ (add_nonneg hv hn)
    _ ≤ total ((sw.pruneLocked now).findOrCreateBucketLocked now).2.buckets + v := total_addAt_le v hv _ _
    _ ≤ sw.held now + v := Int.add_le_add_right hle v

end RateLimit.SlidingWindow

/-- The window, if there is one, holds no negative amount and, with the estimates outstanding, at most
`bound`. -/
def Bounded (w : Option SlidingWindow) (now : Time) (outstanding : Nat) (bound : Int) : Prop :=
  ∀ sw, w = some sw → NonNeg sw.buckets ∧ sw.held now + outstanding ≤ bound

namespace Bounded

variable {w : Option SlidingWindow} {now later : Time} {n n' : Nat} {b b' : Int}

theorem mono (h : Bounded w now n b) (ht : now ≤ later) (hb : b ≤ b') : Bounded w later n b' := by
  intro sw hsw
  obtain ⟨hn, hle⟩ := h sw hsw
  have := SlidingWindow.held_anti hn ht
  exact ⟨hn, by omega⟩

theorem prune (h : Bounded w now n b) : Bounded (w.map (·.pruneLocked now)) now n b := by
  intro sw hsw
  obtain ⟨sw₀, h₀, rfl⟩ := Option.map_eq_some_iff.1 hsw
  obtain ⟨hn, hle⟩ := h sw₀ h₀
  refine ⟨prune_nonneg hn, ?_⟩
  rw [SlidingWindow.held_pruneLocked (le_refl now)]
  exact hle

theorem sum_le (h : Bounded w now n b) {sw : SlidingWindow} (hsw : w = some sw) : (sw.sum now).1 ≤ b := by
  obtain ⟨hn, hle⟩ := h sw hsw
  have hheld : 0 ≤ sw.held now := total_nonneg (prune_nonneg hn)
  have hwrap : (sw.sum now).1 ≤ sw.held now := wrap64_le (by omega)
  omega

theorem add {actual : Nat} (h : Bounded w now n b) (ha : n' + actual ≤ n) :
    Bounded (w.map (·.add now actual)) now n' b := by
  intro sw hsw
  obtain ⟨sw₀, h₀, rfl⟩ := Option.map_eq_some_iff.1 hsw
  obtain ⟨hn, hle⟩ := h sw₀ h₀
  have hadd : (sw₀.add now actual).held now ≤ sw₀.held now + actual :=
    SlidingWindow.held_add_le (Int.natCast_nonneg actual) hn
  exact ⟨SlidingWindow.add_nonneg (Int.natCast_nonneg actual) hn, by omega⟩

theorem grant {limit : Int} {estimate : Nat} (h : Bounded w now n b)
    (hfits : ∀ sw, w = some sw → sw.held now + estimate < 2 ^ 63)
    (hroom : ∀ sw, w = some sw → wrap64 (sw.held now + estimate) ≤ limit) (hb : limit + n ≤ b') :
    Bounded (w.map (·.pruneLocked now)) now (n + estimate) b' := by
  intro sw hsw
  obtain ⟨sw₀, h₀, rfl⟩ := Option.map_eq_some_iff.1 hsw
  have hpruned : NonNeg (sw₀.pruneLocked now).buckets := prune_nonneg (h sw₀ h₀).1
  have hheld : 0 ≤ sw₀.held now := total_nonneg hpruned
  have hle := hroom sw₀ h₀
  rw [wrap64_of_range (by omega) (hfits sw₀ h₀)] at hle
  refine ⟨hpruned, ?_⟩
  rw [SlidingWindow.held_pruneLocked (le_refl now)]
  push_cast
  omega

end Bounded

theorem newSlidingWindow_bounded (window size : Duration) (now : Time) {b : Int} (hb : 0 ≤ b) :
    Bounded (some (newSlidingWindow window size)) now 0 b := by
  intro sw hsw
  cases hsw
  refine ⟨replicate_nonneg _, ?_⟩
  calc (newSlidingWindow window size).held now + ((0 : Nat) : Int)
      = total (prune (now - window) (List.replicate _ .empty)) := Int.add_zero _
    _ ≤ total (List.replicate _ .empty) := total_prune_le _ (replicate_nonneg _)
    _ = 0 := total_replicate_empty _
    _ ≤ b := hb

/-! ## What a limiter lets through -/

namespace RateLimit.Limiter

theorem checkTokenWindow_spec (now : Time) (reason : String) (span : Duration) (limit n : Int)
    (w : Option SlidingWindow) :
    (checkTokenWindow now reason span limit n w).2 = w.map (·.pruneLocked now) ∧
      ((checkTokenWindow now reason span limit n w).1 = none →
        ∀ sw, w = some sw → wrap64 (sw.held now + n) ≤ limit) ∧
      ∀ r, (checkTokenWindow now reason span limit n w).1 = some r → r.allowed = false := by
  unfold checkTokenWindow
  cases w with
  | none => exact ⟨rfl, fun _ sw h => (by cases h), fun r h => (by cases h)⟩
  | some sw =>
    simp only []
    split
    · exact ⟨rfl, fun h => (by cases h), fun r h => by cases h; rfl⟩
    · rename_i hle
      refine ⟨rfl, ?_, fun r h => (by cases h)⟩
      intro _ sw' h
      cases h
      rw [← wrap64_wrap64_add]
      exact not_lt.1 hle

/-- With the estimates outstanding, each token window holds at most its limit and `peak` more. -/
structure Within (l : Limiter) (now : Time) (outstanding peak : Nat) : Prop where
  minute : Bounded l.tokensPerMinute now outstanding (l.config.tokensPerMinute + peak)
  hour : Bounded l.tokensPerHour now outstanding (l.config.tokensPerHour + peak)

variable {l : Limiter} {now later : Time} {n n' p p' : Nat}

theorem Within.mono (h : Within l now n p) (ht : now ≤ later) (hp : p ≤ p') : Within l later n p' :=
  ⟨h.minute.mono ht (by omega), h.hour.mono ht (by omega)⟩

theorem Within.checkRequest (h : Within l now n p) : Within (l.checkRequest now).2 now n p := by
  obtain ⟨hm, hh⟩ := checkRequest_windows l now
  constructor
  · rw [hm, checkRequest_config]; exact h.minute
  · rw [hh, checkRequest_config]; exact h.hour

theorem Within.checkTokens (h : Within l now n p) (estimate : Int) :
    Within (l.checkTokens now estimate).2 now n p := by
  obtain ⟨hm, _, _⟩ := checkTokenWindow_spec now "tokens per minute limit exceeded" Duration.minute
    l.config.tokensPerMinute estimate l.tokensPerMinute
  obtain ⟨hh, _, _⟩ := checkTokenWindow_spec now "tokens per hour limit exceeded" Duration.hour
    l.config.tokensPerHour estimate l.tokensPerHour
  have hm' := h.minute.prune
  have hh' := h.hour.prune
  rw [← hm] at hm'
  rw [← hh] at hh'
  unfold Limiter.checkTokens
  simp only []
  split
  · exact ⟨hm', h.hour⟩
  · split
    · exact ⟨hm', hh'⟩
    · exact ⟨hm', hh'⟩

/-- Neither token window overflows when the estimate is added to what it holds. -/
def Fits (l : Limiter) (now : Time) (estimate : Nat) : Prop :=
  (∀ sw, l.tokensPerMinute = some sw → sw.held now + estimate < 2 ^ 63) ∧
    ∀ sw, l.tokensPerHour = some sw → sw.held now + estimate < 2 ^ 63

theorem Within.grant {estimate : Nat} (h : Within l now n p) (hf : l.Fits now estimate)
    (ha : (l.checkTokens now estimate).1.allowed = true) (hn : n ≤ p') :
    Within (l.checkTokens now estimate).2 now (n + estimate) p' := by
  obtain ⟨hm, hmroom, hmno⟩ := checkTokenWindow_spec now "tokens per minute limit exceeded" Duration.minute
    l.config.tokensPerMinute estimate l.tokensPerMinute
  obtain ⟨hh, hhroom, hhno⟩ := checkTokenWindow_spec now "tokens per hour limit exceeded" Duration.hour
    l.config.tokensPerHour estimate l.tokensPerHour
  unfold Limiter.checkTokens at ha ⊢
  simp only [] at ha ⊢
  split at ha
  · rename_i r hr; rw [hmno r hr] at ha; cases ha
  · rename_i hr
    have hm' : Bounded _ now (n + estimate) (l.config.tokensPerMinute + p') :=
      h.minute.grant hf.1 (hmroom hr) (by omega)
    split at ha
    · rename_i r hr; rw [hhno r hr] at ha; cases ha
    · rename_i hr'
      have hh' : Bounded _ now (n + estimate) (l.config.tokensPerHour + p') :=
        h.hour.grant hf.2 (hhroom hr') (by omega)
      rw [← hm] at hm'
      rw [← hh] at hh'
      exact ⟨hm', hh'⟩

theorem Within.recordTokens {actual : Nat} (h : Within l now n p) (ha : n' + actual ≤ n) :
    Within (l.recordTokens now actual) now n' p :=
  ⟨h.minute.add ha, h.hour.add ha⟩

end RateLimit.Limiter

/-! ## Clients -/

structure Request where
  identifier : String
  estimate : Nat

def outstanding (rs : List Request) (i : String) : Nat :=
  (rs.map fun r => if r.identifier = i then r.estimate else 0).sum

theorem outstanding_cons (r : Request) (rs : List Request) (i : String) :
    outstanding (r :: rs) i = (if r.identifier = i then r.estimate else 0) + outstanding rs i := rfl

theorem outstanding_eraseIdx (i : String) {r : Request} : ∀ {rs : List Request} {k : Nat}, rs[k]? = some r →
    outstanding (rs.eraseIdx k) i + (if r.identifier = i then r.estimate else 0) = outstanding rs i
  | [], _, h => by simp at h
  | q :: rs, 0, h => by
    cases Option.some.inj h
    rw [List.eraseIdx_zero, List.tail_cons, outstanding_cons, Nat.add_comm]
  | q :: rs, k + 1, h => by
    have ih := outstanding_eraseIdx i (show rs[k]? = some r from h)
    rw [List.eraseIdx_cons_succ, outstanding_cons, outstanding_cons, Nat.add_assoc, ih]

/-- The manager, the time of the last call, the requests in flight and, for every identifier, the largest
total of estimates that was in flight when one of its requests was allowed. -/
structure Clients (F : Type) [Zero F] [LT F] where
  manager : Manager F
  now : Time
  inFlight : List Request
  peak : String → Nat

/-- A call of some client: `check` asks for a new request, `record` ends the `k`-th one in flight. -/
inductive Event (F : Type) where
  | check (now : Time) (identifier : String) (estimate : Nat) (cost : F) (model : String)
  | record (now : Time) (k : Nat) (actual : Nat) (cost : F)

section Clients

variable {F : Type} [LinearOrder F] [Zero F]

namespace Clients

def init (start : Time) (config : Config F) : Clients F :=
  { manager := newManager start config, now := start, inFlight := [], peak := fun _ => 0 }

/-- The limiters are ready and each keeps its token windows within the limits and the peak. -/
structure Inv (config : Config F) (s : Clients F) : Prop where
  ready : s.manager.Ready config
  within : ∀ i l, s.manager.rateLimiters i = some l → l.Within s.now (outstanding s.inFlight i) (s.peak i)

theorem init_inv (start : Time) (config : Config F) : Inv config (init start config) := by
  refine ⟨Manager.newManager_ready start config, ?_⟩
  intro i l hl
  obtain ⟨c, _, rfl⟩ := Option.map_eq_some_iff.1 hl
  constructor
  · show Bounded (if 0 < c.tokensPerMinute then some (newSlidingWindow _ _) else none) start 0 (c.tokensPerMinute + 0)
    split
    · rename_i hpos; exact newSlidingWindow_bounded _ _ _ (by omega)
    · intro sw h; cases h
  · show Bounded (if 0 < c.tokensPerHour then some (newSlidingWindow _ _) else none) start 0 (c.tokensPerHour + 0)
    split
    · rename_i hpos; exact newSlidingWindow_bounded _ _ _ (by omega)
    · intro sw h; cases h

theorem checkRate_within {m : Manager F} {now : Time} {i : String} {e : Int} {model : String} {l : Limiter}
    {n p : Nat} (h : l.Within now n p) : (m.checkRate now i e model l).2.Within now n p := by
  unfold Manager.checkRate
  simp only []
  split
  · split
    · exact h.checkRequest.checkTokens e
    · exact h.checkRequest.checkTokens e
  · exact h.checkRequest

theorem checkRate_grant {m : Manager F} {now : Time} {i : String} {e : Nat} {model : String} {l : Limiter}
    {n p p' : Nat} (h : l.Within now n p) (hf : l.Fits now e) (hn : n ≤ p')
    (hr : (m.checkRate now i e model l).1 = none) :
    (m.checkRate now i e model l).2.Within now (n + e) p' := by
  unfold Manager.checkRate at hr ⊢
  simp only [] at hr ⊢
  split at hr
  · rename_i hreq
    split at hr
    · rename_i htok
      rw [if_pos hreq, if_pos htok]
      refine h.checkRequest.grant ?_ htok hn
      obtain ⟨hm, hh⟩ := l.checkRequest_windows now
      rwa [Limiter.Fits, hm, hh]
    · cases hr
  · cases hr

variable [Add F] [Sub F] [Div F]

def step (s : Clients F) : Event F → Option (Clients F)
  | .check now identifier estimate cost model =>
    if s.now ≤ now then
      let (result, manager) := s.manager.checkLimits now identifier estimate cost model
      if result.allowed then
        some { manager, now
               inFlight := ⟨identifier, estimate⟩ :: s.inFlight
               peak := fun i => if i = identifier then max (s.peak i) (outstanding s.inFlight i) else s.peak i }
      else some { s with manager, now }
    else none
  | .record now k actual cost =>
    match s.inFlight[k]? with
    | none => none
    | some r =>
      if s.now ≤ now ∧ actual ≤ r.estimate then
        some { s with
               manager := s.manager.recordUsage now { identifier := r.identifier, totalTokens := actual, cost }
               now
               inFlight := s.inFlight.eraseIdx k }
      else none

variable {config : Config F} {s s' : Clients F}

theorem checkRate_none_of_allowed {m : Manager F} (h : m.Ready config)
    (hb : config.enforcement.defaultAction = .block) {now : Time} {i : String} {n : Int} {cost : F}
    {model : String} (ha : (m.checkLimits now i n cost model).1.allowed = true) {l : Limiter}
    (hl : m.rateLimiters i = some l) : (m.checkRate now i n model l).1 = none := by
  cases hr : (m.checkRate now i n model l).1 with
  | none => rfl
  | some r =>
    rw [h.checkLimits_eq, hl] at ha
    simp only [Option.bind_some, hr] at ha
    rw [h.checkRate_rejects hb hr] at ha
    cases ha

theorem checkLimits_rateLimiters {m : Manager F} (h : m.Ready config) (now : Time) (i : String) (n : Int)
    (cost : F) (model : String) :
    (m.checkLimits now i n cost model).2.rateLimiters =
      adjust m.rateLimiters i fun l => (m.checkRate now i n model l).2 := by
  rw [h.checkLimits_eq]
  simp only []
  split
  · rfl
  · exact congrArg (fun r : LimitCheckResult F × Manager F => r.2.rateLimiters) (Manager.checkBudget_eq _ now i model)

theorem step_check {now : Time} {i : String} {estimate : Nat} {cost : F} {model : String}
    (hs : step s (.check now i estimate cost model) = some s') :
    s.now ≤ now ∧ s'.now = now ∧
      s'.manager = (s.manager.checkLimits now i estimate cost model).2 ∧
      (((s.manager.checkLimits now i estimate cost model).1.allowed = true ∧
          s'.inFlight = ⟨i, estimate⟩ :: s.inFlight ∧
          s'.peak = fun j => if j = i then max (s.peak j) (outstanding s.inFlight j) else s.peak j) ∨
        (s'.inFlight = s.inFlight ∧ s'.peak = s.peak)) := by
  unfold step at hs
  simp only [] at hs
  split at hs
  · rename_i hnow
    split at hs
    · rename_i ha; cases hs; exact ⟨hnow, rfl, rfl, Or.inl ⟨ha, rfl, rfl⟩⟩
    · cases hs; exact ⟨hnow, rfl, rfl, Or.inr ⟨rfl, rfl⟩⟩
  · cases hs

theorem step_record {now : Time} {k actual : Nat} {cost : F} (hs : step s (.record now k actual cost) = some s') :
    ∃ r, s.inFlight[k]? = some r ∧ s.now ≤ now ∧ actual ≤ r.estimate ∧ s'.now = now ∧
      s'.manager = s.manager.recordUsage now { identifier := r.identifier, totalTokens := actual, cost } ∧
      s'.inFlight = s.inFlight.eraseIdx k ∧ s'.peak = s.peak := by
  unfold step at hs
  simp only [] at hs
  split at hs
  · cases hs
  · rename_i r hr
    split at hs
    · rename_i hc; cases hs; exact ⟨r, hr, hc.1, hc.2, rfl, rfl, rfl, rfl⟩
    · cases hs

theorem within_adjust {ls : String → Option Limiter} {i : String} {f : Limiter → Limiter} {now : Time}
    {out out' pk pk' : String → Nat} (h : ∀ j l, ls j = some l → l.Within now (out j) (pk j))
    (hi : ∀ l, l.Within now (out i) (pk i) → ls i = some l → (f l).Within now (out' i) (pk' i))
    (hne : ∀ j, j ≠ i → out' j = out j ∧ pk' j = pk j) (j : String) (l : Limiter)
    (hl : adjust ls i f j = some l) : l.Within now (out' j) (pk' j) := by
  by_cases hj : j = i
  · subst hj
    rw [adjust_self] at hl
    obtain ⟨l₀, hl₀, rfl⟩ := Option.map_eq_some_iff.1 hl
    exact hi l₀ (h j l₀ hl₀) hl₀
  · rw [adjust_ne _ _ hj] at hl
    rw [(hne j hj).1, (hne j hj).2]
    exact h j l hl

/-- A check whose estimate can be added to what the token windows hold without overflow. -/
def Fits (s : Clients F) : Event F → Prop
  | .check now i estimate _ _ => ∀ l, s.manager.rateLimiters i = some l → l.Fits now estimate
  | .record .. => True

theorem step_inv (hb : config.enforcement.defaultAction = .block) (e : Event F) (h : Inv config s)
    (hfits : Fits s e) (hs : step s e = some s') : Inv config s' := by
  have hold {now : Time} (hnow : s.now ≤ now) : ∀ j l, s.manager.rateLimiters j = some l →
      l.Within now (outstanding s.inFlight j) (s.peak j) :=
    fun j l hl => (h.within j l hl).mono hnow (le_refl _)
  cases e with
  | check now i estimate cost model =>
    obtain ⟨hnow, hnow', hm, hcase⟩ := step_check hs
    refine ⟨by rw [hm]; exact h.ready.call now (.checkLimits i estimate cost model), ?_⟩
    rw [hm, hnow', checkLimits_rateLimiters h.ready]
    rcases hcase with ⟨ha, hf, hp⟩ | ⟨hf, hp⟩
    · rw [hf, hp]
      refine within_adjust (hold hnow) ?_ ?_
      · intro l hw hl
        have hr := checkRate_none_of_allowed h.ready hb ha hl
        rw [outstanding_cons, if_pos rfl, if_pos rfl, Nat.add_comm]
        exact checkRate_grant hw (hfits l hl) (le_max_right ..) hr
      · intro j hj
        rw [outstanding_cons, if_neg (Ne.symm hj), if_neg hj, Nat.zero_add]
        exact ⟨rfl, rfl⟩
    · rw [hf, hp]
      exact within_adjust (hold hnow) (fun l hw _ => checkRate_within hw) (fun j _ => ⟨rfl, rfl⟩)
  | record now k actual cost =>
    obtain ⟨r, hr, hnow, hact, hnow', hm, hf, hp⟩ := step_record hs
    refine ⟨by rw [hm]; exact h.ready.call now (.recordUsage _), ?_⟩
    rw [hm, hnow', hf, hp, h.ready.recordUsage_eq]
    refine within_adjust (hold hnow) ?_ ?_
    · intro l hw _
      have hout := outstanding_eraseIdx r.identifier hr
      rw [if_pos rfl] at hout
      have hle : outstanding (s.inFlight.eraseIdx k) r.identifier + actual ≤
          outstanding s.inFlight r.identifier := by omega
      exact hw.recordTokens hle
    · intro j hj
      have hout := outstanding_eraseIdx j hr
      rw [if_neg (Ne.symm hj), Nat.add_zero] at hout
      exact ⟨hout, rfl⟩

/-! ## Requests that do not overlap -/

/-- The event asks for no request of `i` while one of its requests is in flight. -/
def Alone (i : String) (s : Clients F) : Event F → Prop
  | .check _ j _ _ _ => j = i → outstanding s.inFlight i = 0
  | .record .. => True

theorem step_peak_of_alone {i : String} (e : Event F) (h : s.peak i = 0) (ha : Alone i s e)
    (hs : step s e = some s') : s'.peak i = 0 := by
  cases e with
  | check now j estimate cost model =>
    obtain ⟨_, _, _, ⟨_, _, hp⟩ | ⟨_, hp⟩⟩ := step_check hs
    · rw [hp]
      simp only []
      split
      · rename_i hij; rw [h, ha hij.symm, max_self]
      · exact h
    · rw [hp]; exact h
  | record now k actual cost =>
    obtain ⟨_, _, _, _, _, _, _, hp⟩ := step_record hs
    rw [hp]; exact h

/-- In every interleaving, what a token window holds passes its limit by at most the estimates of the
identifier that were already in flight when one of its requests was allowed; if none ever was, the limit
holds. No check may add up to more than an `int64` holds: a sum that wraps around is below every limit. -/
theorem recorded_tokens_le (config : Config F) (hb : config.enforcement.defaultAction = .block) (start : Time)
    (es : List (Event F)) (hfits : Meets step Fits (init start config) es) (s : Clients F)
    (hrun : run step (init start config) es = some s) (i : String)
    (limits : RateLimit.Config) (hi : config.rateLimits i = some limits) (now : Time) (hnow : s.now ≤ now) :
    ∃ l, s.manager.rateLimiters i = some l ∧
      (0 < limits.tokensPerMinute → ∃ sw, l.tokensPerMinute = some sw ∧
        (sw.sum now).1 ≤ limits.tokensPerMinute + s.peak i) ∧
      (0 < limits.tokensPerHour → ∃ sw, l.tokensPerHour = some sw ∧
        (sw.sum now).1 ≤ limits.tokensPerHour + s.peak i) ∧
      (Meets step (Alone i) (init start config) es → s.peak i = 0) := by
  have h : Inv config s :=
    run_invariant_of_meets (fun t e t' ht hok hs => step_inv hb e ht hok hs) es _ s (init_inv start config) hfits hrun
  have hc := h.ready.limiter i
  rw [hi] at hc
  obtain ⟨l, hl, rfl⟩ := Option.map_eq_some_iff.1 hc
  have hw := (h.within i l hl).mono hnow (le_refl _)
  refine ⟨l, hl, ?_, ?_, ?_⟩
  · intro hpos
    obtain ⟨sw, hsw⟩ := Option.isSome_iff_exists.1 (l.tokensPerMinute_iff.2 hpos)
    exact ⟨sw, hsw, hw.minute.sum_le hsw⟩
  · intro hpos
    obtain ⟨sw, hsw⟩ := Option.isSome_iff_exists.1 (l.tokensPerHour_iff.2 hpos)
    exact ⟨sw, hsw, hw.hour.sum_le hsw⟩
  · intro hm
    exact run_invariant_of_meets (I := fun t : Clients F => t.peak i = 0)
      (fun t e t' ht hok hs => step_peak_of_alone e ht hok hs) es _ s rfl hm hrun

end Clients

end Clients

def hundredAMinute : Config ℚ where
  rateLimits := fun _ => some { tokensPerMinute := 100 }
  budgets := fun _ => none
  enforcement := { defaultAction := .block }

def twoClients : List (Event ℚ) :=
  [.check Duration.hour "key" 100 0 "gpt-4", .check Duration.hour "key" 100 0 "gpt-4",
    .record (Duration.hour + Duration.second) 0 100 0, .record (Duration.hour + Duration.second) 0 100 0]

theorem two_clients_pass_the_limit :
    ∃ s l sw, run Clients.step (Clients.init 0 hundredAMinute) twoClients = some s ∧
      s.manager.rateLimiters "key" = some l ∧ l.tokensPerMinute = some sw ∧
      (sw.sum (Duration.hour + Duration.second)).1 = 200 ∧ l.config.tokensPerMinute = 100 := by
  refine ⟨_, _, _, rfl, rfl, rfl, ?_, ?_⟩
  · decide +kernel
  · rfl

theorem twoClients_fit : Meets Clients.step Clients.Fits (Clients.init 0 hundredAMinute) twoClients := by
  have hempty : ∀ {s : Clients ℚ} {now : Time} {l : Limiter}, s.manager.rateLimiters "key" = some l →
      l.tokensPerHour = none → (l.tokensPerMinute.map fun sw => sw.held now) = some 0 →
      s.Fits (.check now "key" 100 0 "gpt-4") := by
    intro s now l hl hhour hminute l' hl'
    cases hl.symm.trans hl'
    refine ⟨fun sw hsw => ?_, fun sw hsw => by rw [hhour] at hsw; cases hsw⟩
    rw [hsw] at hminute
    rw [show sw.held now = 0 from Option.some.inj hminute]
    decide
  exact meets_cons (hempty rfl rfl (by decide +kernel)) rfl ⟨hempty rfl rfl (by decide +kernel), fun _ _ =>
    ⟨trivial, fun _ _ => ⟨trivial, fun _ _ => trivial⟩⟩⟩

theorem recorded_tokens_le_two_clients :
    ∃ s, run Clients.step (Clients.init 0 hundredAMinute) twoClients = some s ∧
      s.peak "key" = 100 ∧
      ∃ l, s.manager.rateLimiters "key" = some l ∧
        (0 < (100 : Int) → ∃ sw, l.tokensPerMinute = some sw ∧
          (sw.sum (Duration.hour + Duration.second)).1 ≤ 100 + s.peak "key") ∧
        (0 < (0 : Int) → ∃ sw, l.tokensPerHour = some sw ∧
          (sw.sum (Duration.hour + Duration.second)).1 ≤ 0 + s.peak "key") ∧
        (Meets Clients.step (Clients.Alone "key") (Clients.init 0 hundredAMinute) twoClients →
          s.peak "key" = 0) := by
  refine ⟨_, rfl, by decide +kernel, ?_⟩
  exact Clients.recorded_tokens_le hundredAMinute rfl 0 twoClients twoClients_fit _ rfl "key" { tokensPerMinute := 100 } rfl
    (Duration.hour + Duration.second) (by decide +kernel)

end Jupiter.Limits
