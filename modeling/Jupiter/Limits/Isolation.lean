/-
Tenants of one manager do not see each other. A call consults and changes the limiter and the tracker of its
own identifier only, so what one identifier is told depends on its own calls and their times.
-/
import Jupiter.Lib.Unwinding
import Jupiter.Limits.Manager

namespace Jupiter.Limits

open Jupiter.Go Jupiter.Lib

/-- What a call returns. -/
inductive Answer (F : Type) where
  | verdict (result : LimitCheckResult F)
  | recorded
  | acquired (ok : Bool)
  | released

def Call.identifier {F : Type} : Call F → String
  | .checkLimits identifier _ _ _ => identifier
  | .recordUsage record => record.identifier
  | .acquireConcurrent identifier => identifier
  | .releaseConcurrent identifier => identifier

namespace Manager

section Answers

variable {F : Type} [LinearOrder F] [Zero F] [Add F] [Sub F] [Div F]

def answer (m : Manager F) (now : Time) : Call F → Answer F
  | .checkLimits identifier tokens cost model => .verdict (m.checkLimits now identifier tokens cost model).1
  | .recordUsage _ => .recorded
  | .acquireConcurrent identifier => .acquired (m.acquireConcurrent now identifier).1
  | .releaseConcurrent _ => .released

def serve (m : Manager F) (c : Time × Call F) : Answer F × Manager F := (m.answer c.1 c.2, m.call c.1 c.2)

def isFor (identifier : String) (c : Time × Call F) : Bool := c.2.identifier == identifier

end Answers

/-! ## Alike managers -/

section Alike

variable {F : Type} [LinearOrder F] [Zero F]

/-- Two managers that have run under one configuration and hold the same limiter and tracker for `b`. -/
structure Alike (config : Config F) (b : String) (m m' : Manager F) : Prop where
  left : Ready config m
  right : Ready config m'
  limiter : m.rateLimiters b = m'.rateLimiters b
  tracker : m.budgets b = m'.budgets b

variable {config : Config F} {b : String} {m m' : Manager F}

theorem Alike.symm (h : Alike config b m m') : Alike config b m' m :=
  ⟨h.right, h.left, h.limiter.symm, h.tracker.symm⟩

theorem Alike.checkRate_eq (h : Alike config b m m') (now : Time) (tokens : Int) (model : String) :
    m.checkRate now b tokens model = m'.checkRate now b tokens model := by
  funext l
  simp only [checkRate, rejectRate, h.left.enforcer, h.right.enforcer, h.left.enforcement, h.right.enforcement]

theorem adjust_congr {V : Type} {f g : String → Option V} {k : String} (h : f k = g k) (u : V → V) :
    adjust f k u k = adjust g k u k := by
  rw [adjust_self, adjust_self, h]

theorem Alike.budgetResult_eq (h : Alike config b m m') (model : String) (status : Budget.Status F) :
    m.budgetResult b model status = m'.budgetResult b model status := by
  simp only [budgetResult, h.left.enforcer, h.right.enforcer, h.left.enforcement, h.right.enforcement]

variable [Add F] [Sub F] [Div F]

theorem Alike.own (h : Alike config b m m') (now : Time) (c : Call F) (hc : c.identifier = b) :
    m.answer now c = m'.answer now c ∧ Alike config b (m.call now c) (m'.call now c) := by
  subst hc
  suffices hnext : m.answer now c = m'.answer now c ∧
      (m.call now c).rateLimiters c.identifier = (m'.call now c).rateLimiters c.identifier ∧
      (m.call now c).budgets c.identifier = (m'.call now c).budgets c.identifier from
    ⟨hnext.1, h.left.call now c, h.right.call now c, hnext.2.1, hnext.2.2⟩
  cases c with
  | checkLimits i tokens cost model =>
    obtain ⟨hverdict, hnext⟩ := h.left.checkLimits_entries now i tokens cost model
    obtain ⟨hverdict', hnext'⟩ := h.right.checkLimits_entries now i tokens cost model
    have hl : m.rateLimiters i = m'.rateLimiters i := h.limiter
    have ht : m.budgets i = m'.budgets i := h.tracker
    have hrate : m.checkRate now i tokens model = m'.checkRate now i tokens model := h.checkRate_eq now tokens model
    have hbudget : m.budgetResult i model = m'.budgetResult i model := funext (h.budgetResult_eq model)
    refine ⟨?_, ?_, ?_⟩
    · simp only [answer, hverdict, hverdict', hl, ht, hrate, hbudget]
    · simp only [call, hnext, hnext', Call.identifier, adjust_self, hl, hrate]
    · simp only [call, hnext, hnext', Call.identifier, hl, hrate]
      split
      · exact ht
      · exact adjust_congr ht _
  | recordUsage r =>
    refine ⟨rfl, ?_⟩
    simp only [call, h.left.recordUsage_eq, h.right.recordUsage_eq]
    exact ⟨adjust_congr h.limiter _, adjust_congr h.tracker _⟩
  | acquireConcurrent i =>
    refine ⟨?_, ?_⟩
    · have hl : m.rateLimiters i = m'.rateLimiters i := h.limiter
      simp only [answer, acquireConcurrent, h.left.getRateLimiter_eq, h.right.getRateLimiter_eq, hl]
      cases m'.rateLimiters i <;> rfl
    · simp only [call, h.left.acquireConcurrent_eq, h.right.acquireConcurrent_eq]
      exact ⟨adjust_congr h.limiter _, h.tracker⟩
  | releaseConcurrent i =>
    refine ⟨rfl, ?_⟩
    simp only [call, h.left.releaseConcurrent_eq, h.right.releaseConcurrent_eq]
    exact ⟨adjust_congr h.limiter _, h.tracker⟩

theorem Alike.other (h : Alike config b m m') (now : Time) (c : Call F) (hc : c.identifier ≠ b) :
    Alike config b (m.call now c) m' := by
  have hne : b ≠ c.identifier := hc.symm
  suffices hnext : (m.call now c).rateLimiters b = m.rateLimiters b ∧ (m.call now c).budgets b = m.budgets b from
    ⟨h.left.call now c, h.right, hnext.1.trans h.limiter, hnext.2.trans h.tracker⟩
  cases c with
  | checkLimits i tokens cost model =>
    simp only [call, (h.left.checkLimits_entries now i tokens cost model).2]
    refine ⟨adjust_ne _ _ hne, ?_⟩
    split
    · rfl
    · exact adjust_ne _ _ hne
  | recordUsage r =>
    simp only [call, h.left.recordUsage_eq]
    exact ⟨adjust_ne _ _ hne, adjust_ne _ _ hne⟩
  | acquireConcurrent i =>
    simp only [call, h.left.acquireConcurrent_eq, and_true]
    exact adjust_ne _ _ hne
  | releaseConcurrent i =>
    simp only [call, h.left.releaseConcurrent_eq, and_true]
    exact adjust_ne _ _ hne

theorem alike_unwinds (config : Config F) (b : String) :
    Unwinding.Unwinds (serve (F := F)) (isFor b) (Alike config b) where
  symm h := h.symm
  own c h hc := h.own c.1 c.2 (beq_iff_eq.1 hc)
  other c h hc := h.other c.1 c.2 (beq_eq_false_iff_ne.1 hc)

/-- Two runs of one configuration with the same calls for `b`, at the same times, and any calls for other
identifiers give `b` the same answers. -/
theorem tenants_isolated (config : Config F) (start : Time) (b : String) (cs cs' : List (Time × Call F))
    (h : cs.filter (isFor b) = cs'.filter (isFor b)) :
    Unwinding.outputs serve (isFor b) (newManager start config) cs =
      Unwinding.outputs serve (isFor b) (newManager start config) cs' := by
  have hready := newManager_ready start config
  exact Unwinding.outputs_congr (alike_unwinds config b) ⟨hready, hready, rfl, rfl⟩ h

end Alike

def onceEach : Config ℚ where
  rateLimits i := if i = "a" ∨ i = "b" then some { requestsPerMinute := 1 } else none
  budgets _ := none
  enforcement := { defaultAction := .block }

theorem tenants_isolated_onceEach :
    Unwinding.outputs serve (isFor "b") (newManager 1 onceEach)
        [(2, .checkLimits "b" 10 0 "gpt-4"), (4, .checkLimits "b" 10 0 "gpt-4")] =
      Unwinding.outputs serve (isFor "b") (newManager 1 onceEach)
        [(1, .checkLimits "a" 10 0 "gpt-4"), (2, .checkLimits "b" 10 0 "gpt-4"),
          (3, .recordUsage ⟨"a", 10, 1⟩), (4, .checkLimits "b" 10 0 "gpt-4")] :=
  tenants_isolated onceEach 1 "b" _ _ rfl

end Manager

end Jupiter.Limits
