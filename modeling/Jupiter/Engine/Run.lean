/-
What an evaluation does. How a rule ends is known from the input before the run. Without timeouts the run is therefore a
fold over the enabled rules of all policies, in order, up to the first that ends it (`evaluateLoaded_never`).

A deadline only cuts such a run short (`evaluateLoaded_cut`).
-/
import Jupiter.Engine.Effect
import Jupiter.Engine.Interpreter

namespace Jupiter.Engine

open Jupiter.Go Jupiter.Mpl Jupiter.Processing Jupiter.Lib

abbrev Entry := Policy × Rule

def entries (policies : List Policy) : List Entry :=
  policies.flatMap fun p => p.enabledRules.map fun r => (p, r)

theorem InterpreterEngine.mem_rules_of_load {S : SortSlice} {e₀ e : InterpreterEngine} {p : Policy}
    (hload : e₀.reloadPolicies S (.ok [p]) = .ok e) {x : Entry} (hx : x ∈ entries e.policies) :
    x.2 ∈ p.rules := by
  have hpol : e.policies = [normalizeRules S p] := by
    rw [(reloadPolicies_eq_ok.mp hload).2.2]
    rfl
  rw [hpol] at hx
  simp only [entries, List.flatMap_cons, List.flatMap_nil, List.append_nil, List.mem_map] at hx
  obtain ⟨r, hr, rfl⟩ := hx
  have hr' := (List.mem_filter.mp hr).1
  unfold normalizeRules at hr'
  split at hr'
  · exact (S.perm ruleLess p.rules).mem_iff.mp hr'
  · exact hr'

namespace InterpreterEngine

section Outcome

variable (rt : Runtime) (e : InterpreterEngine) (ctx : EvaluationContext)

def outcome (x : Entry) : Except MatchError Bool :=
  match x.2.conditions with
  | none => .ok true
  | some c => e.matcher.eval rt ctx c

def matched (x : Entry) : Bool :=
  match e.outcome rt ctx x with
  | .ok true => true
  | _ => false

def failure (x : Entry) : Option EvaluationError :=
  match e.outcome rt ctx x with
  | .error err => some (.condition x.1.name x.2.name err)
  | .ok _ => none

def stops (x : Entry) : Bool := e.matched rt ctx x && x.2.actions.any fun a => stopsEvaluation a.type

def ends (x : Entry) : Bool := (e.failure rt ctx x).isSome || e.stops rt ctx x

def reached : List Entry := upTo (e.ends rt ctx) (entries e.policies)

def record (x : Entry) : MatchedRule :=
  match e.outcome rt ctx x with
  | .error err => { newMatchedRule x.1 x.2 with error := some err }
  | .ok false => newMatchedRule x.1 x.2
  | .ok true =>
    { newMatchedRule x.1 x.2 with
      conditionResult := true, actionsExecuted := x.2.actions.map fun a => (execute rt a ctx).1 }

def executes (x : Entry) : List Action := if e.matched rt ctx x then x.2.actions else []

def executed : List Action := (e.reached rt ctx).flatMap (e.executes rt ctx)

end Outcome

section Rule

variable (rt : Runtime) (e : InterpreterEngine)

theorem outcome_congr {c c' : EvaluationContext} (h : SameInput c c') (x : Entry) :
    e.outcome rt c x = e.outcome rt c' x := by
  unfold outcome
  cases x.2.conditions with
  | none => rfl
  | some n => exact e.matcher.eval_congr rt h n

theorem outcome_ne_cancelled (ctx : EvaluationContext) (x : Entry) :
    e.outcome rt ctx x ≠ .error .cancelled := by
  unfold outcome
  cases x.2.conditions with
  | none => simp
  | some n => exact e.matcher.eval_ne_cancelled rt ctx n

/-- The loop over the actions never fails, since no blocking action reports a failure. -/
theorem executeActions_eq (p : Policy) (r : Rule) (m : MatchedRule) (actions : List Action)
    (ctx : EvaluationContext) :
    executeActions rt p r m actions ctx =
      ((runActions rt actions ctx).addMatched
        { m with actionsExecuted := m.actionsExecuted ++ actions.map fun a => (execute rt a ctx).1 },
        none) := by
  induction actions generalizing m ctx with
  | nil => simp [executeActions]
  | cons a actions ih =>
    have hs := execute_spec rt a ctx
    -- the branch that gives up is never taken
    have hgo : (!(execute rt a ctx).1.success && isBlockingAction a.type) = false := by
      cases hb : isBlockingAction a.type with
      | false => simp
      | true => simp [hs.success hb]
    have hres : actions.map (fun b => (execute rt b (execute rt a ctx).2).1) =
        actions.map fun b => (execute rt b ctx).1 :=
      List.map_congr_left fun b _ => execute_result_congr rt hs.input b
    rw [executeActions]
    simp only [hgo]
    rw [if_neg Bool.false_ne_true, ih, hres]
    simp

theorem evaluateRule_eq (d : Deadlines) (ctx : EvaluationContext) (x : Entry) :
    e.evaluateRule rt d x.1 ctx x.2 =
      match e.matcher.matchCondition rt (d.rule ctx.matchedRules.length) ctx x.2.conditions with
      | .error err =>
        if err = .cancelled ∨ d.rule ctx.matchedRules.length [] then
          (ctx, some (.timeout x.1.name x.2.name))
        else
          (ctx.addMatched { newMatchedRule x.1 x.2 with error := some err },
            some (.condition x.1.name x.2.name err))
      | .ok false => (ctx.addMatched (newMatchedRule x.1 x.2), none)
      | .ok true =>
        executeActions rt x.1 x.2 { newMatchedRule x.1 x.2 with conditionResult := true } x.2.actions ctx := by
  unfold evaluateRule
  cases x.2.conditions with
  | none => rfl
  | some c => rfl

theorem matchCondition_never (ctx : EvaluationContext) (x : Entry) :
    e.matcher.matchCondition rt (fun _ => false) ctx x.2.conditions = e.outcome rt ctx x := by
  unfold outcome DefaultMatcher.matchCondition
  cases x.2.conditions with
  | none => rfl
  | some c => exact e.matcher.matchNode_never rt ctx [] c

theorem evaluateRule_never {ctx₀ ctx : EvaluationContext} (h : SameInput ctx ctx₀) (x : Entry) :
    e.evaluateRule rt .never x.1 ctx x.2 =
      ((runActions rt (e.executes rt ctx₀ x) ctx).addMatched (e.record rt ctx₀ x),
        e.failure rt ctx₀ x) := by
  have hres : x.2.actions.map (fun a => (execute rt a ctx).1) =
      x.2.actions.map fun a => (execute rt a ctx₀).1 :=
    List.map_congr_left fun a _ => execute_result_congr rt h a
  rw [evaluateRule_eq, Deadlines.never, matchCondition_never, e.outcome_congr rt h x]
  rcases ho : e.outcome rt ctx₀ x with err | _ | _
  · have hne : err ≠ .cancelled := by
      rintro rfl
      exact e.outcome_ne_cancelled rt ctx₀ x ho
    simp [executes, matched, record, failure, ho, hne]
  · simp [executes, matched, record, failure, ho]
  · simp [executes, matched, record, failure, ho, executeActions_eq, hres, newMatchedRule]

end Rule

section Loop

variable (rt : Runtime) (e : InterpreterEngine) (ctx : EvaluationContext)

theorem entries_zipIdx (policies : List Policy) :
    (policies.zipIdx.flatMap fun ip => ip.1.enabledRules.map fun r => (ip.1, r)) = entries policies := by
  conv_rhs => rw [← List.zipIdx_map_fst 0 policies, entries, List.flatMap_map]

theorem evaluateLoaded_flat (h : ctx.stopped = false) :
    e.evaluateLoaded rt .never ctx =
      scan (fun c (x : Entry) => e.evaluateRule rt .never x.1 c x.2) (·.stopped) ctx
        (entries e.policies) := by
  have hpolicy : e.evaluatePolicy rt .never = fun c (ip : Policy × Nat) =>
      scan (fun c (x : Entry) => e.evaluateRule rt .never x.1 c x.2) (·.stopped) c
        (ip.1.enabledRules.map fun r => (ip.1, r)) := by
    funext c ip
    rw [scan_map]
    rfl
  rw [evaluateLoaded, hpolicy, scan_flatMap h, entries_zipIdx]

def afterRules (c : EvaluationContext) (xs : List Entry) : EvaluationContext :=
  xs.foldl (fun c x => (runActions rt (e.executes rt ctx x) c).addMatched (e.record rt ctx x)) c

theorem runActions_executes_stopped (c : EvaluationContext) (x : Entry) :
    (runActions rt (e.executes rt ctx x) c).stopped = (c.stopped || e.stops rt ctx x) := by
  rw [runActions_stopped, stops, executes]
  cases e.matched rt ctx x with
  | true => simp
  | false => simp

theorem evaluateLoaded_never (h : ctx.stopped = false) :
    e.evaluateLoaded rt .never ctx =
      (e.afterRules rt ctx ctx (e.reached rt ctx),
        ((entries e.policies).find? (e.ends rt ctx)).bind (e.failure rt ctx)) := by
  rw [evaluateLoaded_flat rt e ctx h]
  -- along the run the input stays what it was, and no rule so far has stopped it
  refine scan_eq_foldl (I := fun c => SameInput c ctx ∧ c.stopped = false)
    (fun c x hc => e.evaluateRule_never rt hc.1 x) ?_ ?_ ctx (entries e.policies) ⟨.refl ctx, h⟩
  · intro c x hc _
    have hst := runActions_executes_stopped rt e ctx c x
    rwa [hc.2, Bool.false_or] at hst
  · intro c x hc _ hx
    have hst := runActions_executes_stopped rt e ctx c x
    rw [hc.2, hx, Bool.false_or] at hst
    exact ⟨((runActions_input rt _ c).trans hc.1).addMatched _, hst⟩

theorem execute_setMatched (a : Action) (c : EvaluationContext) (l : List MatchedRule) :
    (execute rt a { c with matchedRules := l }).2 = { (execute rt a c).2 with matchedRules := l } := by
  unfold execute executeModify executeRoute executeAlert executeTag
  cases a.type <;> dsimp only
  all_goals first
    | rfl
    | (split <;> rfl)

theorem runActions_setMatched (actions : List Action) (c : EvaluationContext) (l : List MatchedRule) :
    runActions rt actions { c with matchedRules := l } =
      { runActions rt actions c with matchedRules := l } := by
  induction actions generalizing c with
  | nil => rfl
  | cons a actions ih => rw [runActions_cons, execute_setMatched, ih, runActions_cons]

/-- The records and the actions of a sequence of rules can be taken apart. -/
theorem afterRules_eq (c : EvaluationContext) (xs : List Entry) :
    e.afterRules rt ctx c xs =
      { runActions rt (xs.flatMap (e.executes rt ctx)) c with
        matchedRules := c.matchedRules ++ xs.map (e.record rt ctx) } := by
  induction xs generalizing c with
  | nil => simp [afterRules]
  | cons x xs ih =>
    have hstep : e.afterRules rt ctx c (x :: xs) = e.afterRules rt ctx
        ((runActions rt (e.executes rt ctx x) c).addMatched (e.record rt ctx x)) xs := rfl
    rw [hstep, ih, EvaluationContext.addMatched, runActions_setMatched, List.flatMap_cons,
      runActions_append, runActions_matchedRules]
    simp

theorem evaluate_eq (d : Deadlines) :
    e.evaluate rt d ctx =
      match e.evaluateLoaded rt d ctx with
      | (c, none) => .ok (buildDecision c)
      | (c, some _) => e.handleEvaluationError c := by
  unfold evaluate
  cases hp : e.policies with
  | nil => simp [evaluateLoaded, hp, scan]
  | cons p ps => rfl

/-- The context a run without timeouts ends in, from a context in which no rule was evaluated. -/
def finalContext : EvaluationContext :=
  { runActions rt (e.executed rt ctx) ctx with matchedRules := (e.reached rt ctx).map (e.record rt ctx) }

theorem evaluateLoaded_final (hst : ctx.stopped = false) (hmr : ctx.matchedRules = []) :
    e.evaluateLoaded rt .never ctx =
      (e.finalContext rt ctx, ((entries e.policies).find? (e.ends rt ctx)).bind (e.failure rt ctx)) := by
  rw [evaluateLoaded_never rt e ctx hst, afterRules_eq, hmr, List.nil_append]
  rfl

theorem failure_of_matched {rt : Runtime} {e : InterpreterEngine} {ctx : EvaluationContext} {x : Entry}
    (h : e.matched rt ctx x = true) : e.failure rt ctx x = none := by
  unfold matched at h
  unfold failure
  rcases ho : e.outcome rt ctx x with err | b
  · rw [ho] at h
    cases h
  · rfl

end Loop

/-! ## Deadlines -/

section Deadline

variable (rt : Runtime) (e : InterpreterEngine)

def Extends (c c' : EvaluationContext) : Prop := c.matchedRules <+: c'.matchedRules

theorem evaluateRule_cut (d : Deadlines) (c : EvaluationContext) (x : Entry) :
    e.evaluateRule rt d x.1 c x.2 = e.evaluateRule rt .never x.1 c x.2 ∨
      e.evaluateRule rt d x.1 c x.2 = (c, some (.timeout x.1.name x.2.name)) := by
  have htimed : DefaultMatcher.Timed (d.rule c.matchedRules.length)
      (e.matcher.matchCondition rt (d.rule c.matchedRules.length) c x.2.conditions)
      (e.outcome rt c x) := by
    unfold outcome DefaultMatcher.matchCondition
    cases x.2.conditions with
    | none => exact .inl rfl
    | some n => exact e.matcher.matchNode_timed rt c [] n
  rw [evaluateRule_eq, evaluateRule_eq, Deadlines.never, matchCondition_never]
  rcases htimed with h | ⟨h, -⟩
  · rw [h]
    rcases ho : e.outcome rt c x with err | _ | _
    · have hne : err ≠ .cancelled := by
        rintro rfl
        exact e.outcome_ne_cancelled rt c x ho
      cases d.rule c.matchedRules.length [] with
      | true => exact .inr (by simp)
      | false => exact .inl (by simp [hne])
    · exact .inl rfl
    · exact .inl rfl
  · rw [h]
    exact .inr (by simp)

theorem evaluateRule_extends (c : EvaluationContext) (x : Entry) :
    Extends c (e.evaluateRule rt .never x.1 c x.2).1 := by
  rw [evaluateRule_never rt e (.refl c) x]
  exact ⟨[e.record rt c x], by simp [EvaluationContext.addMatched, runActions_matchedRules]⟩

theorem Extends.refl (c : EvaluationContext) : Extends c c := List.prefix_refl _

theorem Extends.trans (c c' c'' : EvaluationContext) (h : Extends c c') (h' : Extends c' c'') :
    Extends c c'' := List.IsPrefix.trans h h'

def IsTimeout (err : EvaluationError) : Prop := ∃ p r, err = .timeout p r

theorem evaluateRules_cut (d : Deadlines) (p : Policy) (c : EvaluationContext) (rs : List Rule) :
    Extends c (scan (e.evaluateRule rt .never p) (·.stopped) c rs).1 ∧
      (scan (e.evaluateRule rt d p) (·.stopped) c rs = scan (e.evaluateRule rt .never p) (·.stopped) c rs ∨
        ∃ err, (scan (e.evaluateRule rt d p) (·.stopped) c rs).2 = some err ∧ IsTimeout err ∧
          Extends (scan (e.evaluateRule rt d p) (·.stopped) c rs).1
            (scan (e.evaluateRule rt .never p) (·.stopped) c rs).1) := by
  refine scan_cut Extends.refl Extends.trans (fun c r => e.evaluateRule_extends rt c (p, r)) ?_ c rs
  intro c r
  rcases e.evaluateRule_cut rt d c (p, r) with h | h
  · exact .inl h
  · have hx := e.evaluateRule_extends rt c (p, r)
    refine .inr ⟨_, congrArg Prod.snd h, ⟨_, _, rfl⟩, ?_⟩
    rw [congrArg Prod.fst h]
    exact hx

theorem evaluatePolicy_cut (d : Deadlines) (c : EvaluationContext) (ip : Policy × Nat) :
    Extends c (e.evaluatePolicy rt .never c ip).1 ∧
      (e.evaluatePolicy rt d c ip = e.evaluatePolicy rt .never c ip ∨
        ∃ err, (e.evaluatePolicy rt d c ip).2 = some err ∧ IsTimeout err ∧
          Extends (e.evaluatePolicy rt d c ip).1 (e.evaluatePolicy rt .never c ip).1) := by
  have hnever : e.evaluatePolicy rt .never c ip =
      scan (e.evaluateRule rt .never ip.1) (·.stopped) c ip.1.enabledRules := rfl
  have hrules := e.evaluateRules_cut rt d ip.1 c ip.1.enabledRules
  rw [hnever, evaluatePolicy]
  refine ⟨hrules.1, ?_⟩
  cases d.policy ip.2 with
  | true => exact .inr ⟨_, rfl, ⟨_, _, rfl⟩, hrules.1⟩
  | false => exact hrules.2

/-- A run under deadlines does what the run without them does, or ends with a timeout on the way. -/
theorem evaluateLoaded_cut (d : Deadlines) (ctx : EvaluationContext) :
    e.evaluateLoaded rt d ctx = e.evaluateLoaded rt .never ctx ∨
      ∃ err, (e.evaluateLoaded rt d ctx).2 = some err ∧ IsTimeout err ∧
        Extends (e.evaluateLoaded rt d ctx).1 (e.evaluateLoaded rt .never ctx).1 :=
  (scan_cut Extends.refl Extends.trans (fun c ip => (e.evaluatePolicy_cut rt d c ip).1)
    (fun c ip => (e.evaluatePolicy_cut rt d c ip).2) ctx e.policies.zipIdx).2

/-- Whatever the deadlines, a request is decided as it is without them, or the fail-safe mode decides, on a beginning of
the rules of that run. -/
theorem evaluateRequest_deadlines (d : Deadlines) (now : Time) (r : EnrichedRequest) :
    e.evaluateRequest rt d now (some r) = e.evaluateRequest rt .never now (some r) ∨
      ∃ c, e.evaluateRequest rt d now (some r) = e.handleEvaluationError c ∧
        c.matchedRules <+: (e.reached rt (requestContext now r)).map (e.record rt (requestContext now r)) := by
  simp only [evaluateRequest, evaluate_eq]
  rcases e.evaluateLoaded_cut rt d (requestContext now r) with heq | ⟨err, herr, -, hext⟩
  · rw [heq]
    exact .inl rfl
  · rw [evaluateLoaded_final rt e _ rfl rfl] at hext
    rcases hrun : e.evaluateLoaded rt d (requestContext now r) with ⟨c, _ | err'⟩
    · rw [hrun] at herr
      cases herr
    · rw [hrun] at hext
      exact .inr ⟨c, rfl, hext⟩

end Deadline

/-! ## The rules a decision reports -/

section Decision

variable {rt : Runtime} {e : InterpreterEngine} {d : Deadlines} {ctx : EvaluationContext}

theorem outcome_eq_of_record (x : Entry) :
    e.outcome rt ctx x =
      match (e.record rt ctx x).error with
      | some err => .error err
      | none => .ok (e.record rt ctx x).conditionResult := by
  unfold record
  rcases e.outcome rt ctx x with err | _ | _ <;> rfl

theorem record_error (x : Entry) (err : MatchError) :
    (e.record rt ctx x).error = some err ↔ e.outcome rt ctx x = .error err := by
  rw [outcome_eq_of_record]
  cases (e.record rt ctx x).error <;> simp

theorem record_actionsExecuted (x : Entry) :
    (e.record rt ctx x).actionsExecuted = (e.executes rt ctx x).map fun a => (execute rt a ctx).1 := by
  unfold record executes matched
  rcases e.outcome rt ctx x with err | _ | _ <;> rfl

theorem exists_decision : ∃ decision, e.evaluate rt d ctx = .ok decision := by
  have hmode : ∀ s, e.config.failSafeMode ≠ .unknown s := by
    intro s hs
    have := e.valid
    rw [EngineConfig.validate, hs] at this
    cases this
  rw [evaluate_eq]
  rcases e.evaluateLoaded rt d ctx with ⟨c, _ | err⟩
  · exact ⟨_, rfl⟩
  · cases hm : e.config.failSafeMode with
    | unknown s => exact absurd hm (hmode s)
    | _ =>
      simp only [handleEvaluationError, hm]
      exact ⟨_, rfl⟩

theorem buildDecision_matchedRules (ctx : EvaluationContext) :
    (buildDecision ctx).matchedRules = ctx.matchedRules := by
  unfold buildDecision
  dsimp only
  split
  · rfl
  · split
    · rfl
    · split <;> rfl

theorem matchedRules_of_evaluate {decision : PolicyDecision} (h : e.evaluate rt d ctx = .ok decision) :
    decision.matchedRules = (e.evaluateLoaded rt d ctx).1.matchedRules := by
  rw [evaluate_eq] at h
  rcases hrun : e.evaluateLoaded rt d ctx with ⟨c, _ | err⟩
  · rw [hrun] at h
    cases h
    exact buildDecision_matchedRules c
  · rw [hrun] at h
    have hc := buildDecision_matchedRules c
    dsimp only [handleEvaluationError] at h
    split at h
    · cases h; exact hc
    · cases h; exact hc
    · cases h
      split
      · exact hc
      · exact hc
    · cases h

/-- Whatever the timing, the rules reported are among those of the run without timeouts, which reports
exactly the rules it reaches. -/
theorem mem_matchedRules (hst : ctx.stopped = false) (hmr : ctx.matchedRules = [])
    {decision : PolicyDecision} (h : e.evaluate rt d ctx = .ok decision) {m : MatchedRule}
    (hm : m ∈ decision.matchedRules) : ∃ x ∈ e.reached rt ctx, e.record rt ctx x = m := by
  rw [matchedRules_of_evaluate h] at hm
  have hnever := congrArg (fun c => c.1.matchedRules) (evaluateLoaded_final rt e ctx hst hmr)
  -- a deadline only leaves rules out at the end
  have hmem : m ∈ (e.evaluateLoaded rt .never ctx).1.matchedRules := by
    rcases e.evaluateLoaded_cut rt d ctx with heq | ⟨_, _, _, hext⟩
    · rwa [← heq]
    · exact hext.subset hm
  rw [hnever] at hmem
  exact List.mem_map.mp hmem

theorem matchedRules_never (hst : ctx.stopped = false) (hmr : ctx.matchedRules = [])
    {decision : PolicyDecision} (h : e.evaluate rt .never ctx = .ok decision) :
    decision.matchedRules = (e.reached rt ctx).map (e.record rt ctx) := by
  rw [matchedRules_of_evaluate h, evaluateLoaded_final rt e ctx hst hmr]
  rfl

end Decision

end InterpreterEngine

end Jupiter.Engine
