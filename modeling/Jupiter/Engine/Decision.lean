/-
The decision an evaluation without timeouts and condition errors comes to.

The stopping rule is the first enabled rule, in the order of the loaded policies, that matches and holds an allow or a
deny.
-/
import Jupiter.Engine.Run

namespace Jupiter.Engine

open Jupiter.Go Jupiter.Mpl Jupiter.Processing Jupiter.Lib

/-! ## From the executed actions to the decision -/

/-- What a decision has to say, given the deny that blocks, if any, and the executed actions. -/
structure DecidedBy (deny : Option Action) (executed : List Action) (decision : PolicyDecision) : Prop where
  block : decision.action = .block ↔ deny.isSome
  reason : ∀ a, deny = some a →
    decision.blockReason = denyMessage a ∧ decision.blockStatusCode = denyStatusCode a
  route : decision.action = .route ↔ deny = none ∧ ∃ a ∈ executed, isRoute a
  target : ∀ a, decision.action = .route → lastRoute executed = some a →
    decision.routingTarget = some (routeTarget a)
  transform : decision.action = .transform ↔
    deny = none ∧ (∀ a ∈ executed, isRoute a = false) ∧ ∃ a ∈ executed, isModify a
  allow : decision.action = .allow ↔
    deny = none ∧ (∀ a ∈ executed, isRoute a = false) ∧ ∀ a ∈ executed, isModify a = false

theorem lastRoute_eq_none {actions : List Action} :
    lastRoute actions = none ↔ ∀ a ∈ actions, isRoute a = false := by
  simp [lastRoute]

theorem isRoute_of_lastRoute {actions : List Action} {a : Action} (h : lastRoute actions = some a) :
    a ∈ actions ∧ isRoute a = true :=
  List.mem_filter.mp (List.mem_of_getLast? h)

theorem buildDecision_block {ctx : EvaluationContext} (h : ctx.blockReason ≠ "")
    (hs : ctx.blockStatusCode ≠ 0) :
    (buildDecision ctx).action = .block ∧ (buildDecision ctx).blockReason = ctx.blockReason ∧
      (buildDecision ctx).blockStatusCode = ctx.blockStatusCode := by
  simp [buildDecision, h, hs]

theorem buildDecision_route {ctx : EvaluationContext} {t : RoutingTarget} (h : ctx.blockReason = "")
    (ht : ctx.routingTarget = some t) :
    (buildDecision ctx).action = .route ∧ (buildDecision ctx).routingTarget = some t := by
  simp [buildDecision, h, ht]

theorem buildDecision_transform {ctx : EvaluationContext} (h : ctx.blockReason = "")
    (ht : ctx.routingTarget = none) (hm : ctx.transformations ≠ []) :
    (buildDecision ctx).action = .transform := by
  simp [buildDecision, h, ht, hm]

theorem buildDecision_allow {ctx : EvaluationContext} (h : ctx.blockReason = "")
    (ht : ctx.routingTarget = none) (hm : ctx.transformations = []) :
    (buildDecision ctx).action = .allow := by
  simp [buildDecision, h, ht, hm]

theorem buildDecision_decidedBy (rt : Runtime) (actions : List Action) (ctx : EvaluationContext)
    (l : List MatchedRule) (hb : ctx.blockReason = "") (hr : ctx.routingTarget = none)
    (ht : ctx.transformations = []) :
    DecidedBy (lastDeny actions) actions
      (buildDecision { runActions rt actions ctx with matchedRules := l }) := by
  have hreason := runActions_blockReason rt actions ctx
  have hstatus := runActions_blockStatusCode rt actions ctx
  have htarget := runActions_routingTarget rt actions ctx
  have htrans := runActions_transformations rt actions ctx
  rw [hb] at hreason
  rw [hr] at htarget
  rw [ht, List.nil_append] at htrans
  generalize hc : ({ runActions rt actions ctx with matchedRules := l } : EvaluationContext) = c
  -- the outcomes of `c` are those of the run
  have hreason' : c.blockReason = ((lastDeny actions).map denyMessage).getD "" := by
    rw [← hc]; exact hreason
  have hstatus' : c.blockStatusCode = ((lastDeny actions).map denyStatusCode).getD ctx.blockStatusCode := by
    rw [← hc]; exact hstatus
  have htarget' : c.routingTarget = ((lastRoute actions).map fun a => some (routeTarget a)).getD none := by
    rw [← hc]; exact htarget
  have htrans' : c.transformations = (actions.filter isModify).map modifyTransformation := by
    rw [← hc]; exact htrans
  cases hd : lastDeny actions with
  | some a =>
    rw [hd] at hreason' hstatus'
    have hne : c.blockReason ≠ "" := by rw [hreason']; exact denyMessage_ne_empty a
    have hnz : c.blockStatusCode ≠ 0 := by rw [hstatus']; exact denyStatusCode_ne_zero a
    obtain ⟨hact, hres, hsta⟩ := buildDecision_block hne hnz
    rw [hreason'] at hres
    rw [hstatus'] at hsta
    constructor
    · simp [hact]
    · rintro b hb'
      cases hb'
      exact ⟨hres, hsta⟩
    all_goals simp [hact]
  | none =>
    rw [hd] at hreason'
    cases hl : lastRoute actions with
    | some t =>
      obtain ⟨htm, hti⟩ := isRoute_of_lastRoute hl
      rw [hl] at htarget'
      obtain ⟨hact, htar⟩ := buildDecision_route hreason' htarget'
      constructor
      · simp [hact]
      · simp
      · simpa [hact] using ⟨t, htm, hti⟩
      · rintro a - ha
        rw [hl] at ha
        cases ha
        exact htar
      all_goals
        simp only [hact, reduceCtorEq, true_and, false_iff, not_and]
        exact fun h => absurd (h t htm) (by rw [hti]; exact Bool.noConfusion)
    | none =>
      rw [hl] at htarget'
      have hnone := lastRoute_eq_none.mp hl
      by_cases hm : ∃ a ∈ actions, isModify a
      · have hne : c.transformations ≠ [] := by
          rw [htrans']
          obtain ⟨a, ha, hma⟩ := hm
          simpa using ⟨a, ha, hma⟩
        have hact := buildDecision_transform hreason' htarget' hne
        constructor
        · simp [hact]
        · simp
        · simpa [hact] using hnone
        · simp [hact]
        · simpa [hact] using ⟨hnone, hm⟩
        · simpa [hact] using fun _ => hm
      · have hnil : c.transformations = [] := by
          rw [htrans']
          simpa using hm
        have hact := buildDecision_allow hreason' htarget' hnil
        constructor
        · simp [hact]
        · simp
        · simpa [hact] using hnone
        · simp [hact]
        · simpa [hact] using fun _ => hm
        · rw [hact, eq_self, true_iff]
          exact ⟨rfl, hnone, by simpa using hm⟩

/-! ## The stopping rule -/

namespace InterpreterEngine

variable (rt : Runtime) (e : InterpreterEngine) (ctx : EvaluationContext)

def stoppingRule : Option Entry := (entries e.policies).find? (e.stops rt ctx)

def upToStopping : List Entry := upTo (e.stops rt ctx) (entries e.policies)

/-- No condition of a rule up to the stopping rule fails. -/
def NoConditionErrors : Prop := ∀ x ∈ e.upToStopping rt ctx, ∃ b, e.outcome rt ctx x = .ok b

variable {rt e ctx}

theorem NoConditionErrors.reached_eq (h : e.NoConditionErrors rt ctx) :
    e.reached rt ctx = e.upToStopping rt ctx ∧
      (entries e.policies).find? (e.ends rt ctx) = e.stoppingRule rt ctx := by
  refine find_congr_of_upTo fun x hx => ?_
  obtain ⟨b, hb⟩ := h x hx
  simp [ends, failure, hb]

theorem NoConditionErrors.evaluate_eq (h : e.NoConditionErrors rt ctx) (hst : ctx.stopped = false)
    (hmr : ctx.matchedRules = []) :
    e.evaluate rt .never ctx = .ok (buildDecision
      { runActions rt ((e.upToStopping rt ctx).flatMap (e.executes rt ctx)) ctx with
        matchedRules := (e.upToStopping rt ctx).map (e.record rt ctx) }) := by
  obtain ⟨hreach, hfind⟩ := h.reached_eq
  have hnone : (e.stoppingRule rt ctx).bind (e.failure rt ctx) = none := by
    cases hs : e.stoppingRule rt ctx with
    | none => rfl
    | some x =>
      have hx := List.find?_some hs
      rw [stops, Bool.and_eq_true] at hx
      exact failure_of_matched hx.1
  rw [InterpreterEngine.evaluate_eq, evaluateLoaded_final rt e ctx hst hmr, hfind, hnone, finalContext,
    executed, hreach]

theorem lastDeny_append_of_none {as bs : List Action} (h : lastDeny as = none) :
    lastDeny (as ++ bs) = lastDeny bs := by
  unfold lastDeny at h ⊢
  rw [List.getLast?_eq_none_iff] at h
  rw [List.filter_append, h, List.nil_append]

theorem lastDeny_eq_none {actions : List Action} :
    lastDeny actions = none ↔ ∀ a ∈ actions, a.type ≠ .deny := by
  simp [lastDeny]

theorem executes_deny_free {x : Entry} (h : e.stops rt ctx x = false) :
    ∀ a ∈ e.executes rt ctx x, a.type ≠ .deny := by
  intro a ha hd
  unfold executes at ha
  cases hm : e.matched rt ctx x with
  | false => rw [hm] at ha; cases ha
  | true =>
    rw [hm] at ha
    rw [stops, hm, Bool.true_and, List.any_eq_false] at h
    exact h a ha (by rw [hd]; rfl)

theorem lastDeny_upToStopping :
    lastDeny ((e.upToStopping rt ctx).flatMap (e.executes rt ctx)) =
      (e.stoppingRule rt ctx).bind fun x => lastDeny x.2.actions := by
  cases hs : e.stoppingRule rt ctx with
  | none =>
    rw [upToStopping, upTo_of_find_none hs, Option.bind_none, lastDeny_eq_none]
    intro a ha
    obtain ⟨x, hx, hax⟩ := List.mem_flatMap.mp ha
    exact executes_deny_free (by simpa using List.find?_eq_none.mp hs x hx) a hax
  | some x =>
    obtain ⟨pre, hup, hpre, hx⟩ := upTo_of_find_some hs
    have hfree : lastDeny (pre.flatMap (e.executes rt ctx)) = none := by
      rw [lastDeny_eq_none]
      intro a ha
      obtain ⟨y, hy, hay⟩ := List.mem_flatMap.mp ha
      exact executes_deny_free (hpre y hy) a hay
    have hexec : e.executes rt ctx x = x.2.actions := by
      rw [stops, Bool.and_eq_true] at hx
      rw [executes, if_pos hx.1]
    rw [upToStopping, hup, List.flatMap_append, lastDeny_append_of_none hfree]
    simp [hexec]

theorem entries_loaded {S : SortSlice} {e₀ e : InterpreterEngine} {policies : List Policy}
    (hload : e₀.reloadPolicies S (.ok policies) = .ok e) :
    entries (normalizePolicyPriorities S policies) = entries e.policies := by
  rw [(reloadPolicies_eq_ok.mp hload).2.2]

theorem NoConditionErrors.of_loaded {S : SortSlice} {e₀ e : InterpreterEngine} {policies : List Policy}
    (hload : e₀.reloadPolicies S (.ok policies) = .ok e)
    (hno : ∀ x ∈ upTo (e.stops rt ctx) (entries (normalizePolicyPriorities S policies)),
      ∃ b, e.outcome rt ctx x = .ok b) : e.NoConditionErrors rt ctx := by
  rw [entries_loaded hload] at hno
  exact hno

variable (rt)

/-- The decision on a request: the rules up to the stopping rule are evaluated, in priority order, and
no other; the stopping rule's last deny blocks, and failing that the executed actions route, transform or
allow. -/
theorem decision_characterisation (S : SortSlice) {e₀ e : InterpreterEngine} {policies : List Policy}
    (hload : e₀.reloadPolicies S (.ok policies) = .ok e) (now : Time) (r : EnrichedRequest)
    (hno : ∀ x ∈ upTo (e.stops rt (requestContext now r)) (entries (normalizePolicyPriorities S policies)),
      ∃ b, e.outcome rt (requestContext now r) x = .ok b) :
    let rules := entries (normalizePolicyPriorities S policies)
    let ctx := requestContext now r
    ∃ decision, e.evaluateRequest rt .never now (some r) = .ok decision ∧
      decision.matchedRules = (upTo (e.stops rt ctx) rules).map (e.record rt ctx) ∧
      DecidedBy ((rules.find? (e.stops rt ctx)).bind fun x => lastDeny x.2.actions)
        ((upTo (e.stops rt ctx) rules).flatMap (e.executes rt ctx)) decision := by
  intro rules ctx
  have hp : rules = entries e.policies := entries_loaded hload
  have hno' : e.NoConditionErrors rt ctx := .of_loaded hload hno
  rw [hp]
  refine ⟨_, hno'.evaluate_eq rfl rfl, ?_, ?_⟩
  · exact buildDecision_matchedRules _
  · have hdec := buildDecision_decidedBy rt ((e.upToStopping rt ctx).flatMap (e.executes rt ctx)) ctx
      ((e.upToStopping rt ctx).map (e.record rt ctx)) rfl rfl rfl
    rw [lastDeny_upToStopping] at hdec
    exact hdec

/-! ## The executed actions -/

theorem records_actionsExecuted (ctx : EvaluationContext) (xs : List Entry) :
    (xs.map (e.record rt ctx)).flatMap (·.actionsExecuted) =
      (xs.flatMap (e.executes rt ctx)).map fun a => (execute rt a ctx).1 := by
  rw [List.flatMap_map, List.map_flatMap]
  exact List.flatMap_congr fun x _ => record_actionsExecuted x

/-- The actions executed for a single policy are those of its enabled rules that match, in priority order and up to the
first of them that holds an allow or a deny; the results reported are theirs, and the decision is what they leave
behind. -/
theorem executed_in_priority_order (S : SortSlice) {e₀ e : InterpreterEngine} {p : Policy}
    (hload : e₀.reloadPolicies S (.ok [p]) = .ok e) (now : Time) (r : EnrichedRequest)
    (hno : ∀ x ∈ upTo (e.stops rt (requestContext now r)) (entries (normalizePolicyPriorities S [p])),
      ∃ b, e.outcome rt (requestContext now r) x = .ok b) :
    let rules := entries (normalizePolicyPriorities S [p])
    let ctx := requestContext now r
    let executed := (upTo (e.stops rt ctx) rules).flatMap (e.executes rt ctx)
    ∃ decision, e.evaluateRequest rt .never now (some r) = .ok decision ∧
      decision.matchedRules.flatMap (·.actionsExecuted) = executed.map (fun a => (execute rt a ctx).1) ∧
      decision =
        buildDecision { runActions rt executed ctx with matchedRules := decision.matchedRules } ∧
      ((∀ x ∈ rules, e.matched rt ctx x = false) → executed = [] ∧ decision.action = .allow) := by
  intro rules ctx executed
  have hp : rules = entries e.policies := entries_loaded hload
  have hno' : e.NoConditionErrors rt ctx := .of_loaded hload hno
  have hexec : executed = (e.upToStopping rt ctx).flatMap (e.executes rt ctx) := by
    rw [upToStopping, ← hp]
  rw [hexec]
  refine ⟨_, hno'.evaluate_eq rfl rfl, ?_, ?_, ?_⟩
  · rw [buildDecision_matchedRules]
    exact records_actionsExecuted rt ctx (e.upToStopping rt ctx)
  · rw [buildDecision_matchedRules]
  · intro hnone
    have hnil : (e.upToStopping rt ctx).flatMap (e.executes rt ctx) = [] := by
      rw [List.flatMap_eq_nil_iff]
      intro x hx
      have hx' : x ∈ rules := hp ▸ upTo_subset hx
      simp [executes, hnone x hx']
    refine ⟨hnil, ?_⟩
    rw [hnil]
    rfl

/-! ## The first match of the file -/

/-- The actions of a rule, each with the rule. -/
def ruleActions (r : Rule) : List (Rule × Action) := r.actions.map fun a => (r, a)

theorem flatMap_upTo_ruleActions {stops : Rule → Bool} {first : Option Rule} {acting : List Rule}
    (hne : ∀ r ∈ acting, r.actions ≠ []) (hfirst : acting = [] → ∀ r, first = some r → r.actions = []) :
    (upTo stops acting).flatMap ruleActions = first.elim [] ruleActions ↔
      acting = [] ∨ ∃ r, first = some r ∧ acting.head? = some r ∧ (stops r = true ∨ acting = [r]) := by
  have hpos : ∀ r, r.actions ≠ [] → ∃ a t, ruleActions r = (r, a) :: t := by
    intro r hr
    obtain ⟨a, t, h⟩ := List.exists_cons_of_ne_nil hr
    exact ⟨a, t.map fun a => (r, a), by rw [ruleActions, h, List.map_cons]⟩
  cases acting with
  | nil =>
    refine iff_of_true ?_ (.inl rfl)
    cases first with
    | none => rfl
    | some r => simp [upTo, ruleActions, hfirst rfl r rfl]
  | cons r rest =>
    obtain ⟨a, t, hr⟩ := hpos r (hne r List.mem_cons_self)
    constructor
    · intro h
      refine .inr ⟨r, ?_⟩
      have hhead : ∃ more, (upTo stops (r :: rest)).flatMap ruleActions = ruleActions r ++ more ∧
          (more = [] → stops r = true ∨ rest = []) := by
        rw [upTo]
        cases hs : stops r with
        | true => exact ⟨[], by simp, fun _ => .inl rfl⟩
        | false =>
          refine ⟨(upTo stops rest).flatMap ruleActions, by simp, fun hmore => .inr ?_⟩
          cases rest with
          | nil => rfl
          | cons s rest =>
            obtain ⟨b, u, hs⟩ := hpos s (hne s (by simp))
            rw [upTo] at hmore
            split at hmore <;> simp [hs] at hmore
      obtain ⟨more, heq, hmore⟩ := hhead
      rw [heq] at h
      cases first with
      | none => rw [hr] at h; cases h
      | some s =>
        have hs : r = s := by
          rw [hr] at h
          have hmem : (r, a) ∈ ruleActions s := by
            rw [show ruleActions s = _ from h.symm]
            exact List.mem_cons_self
          obtain ⟨b, -, hb⟩ := List.mem_map.mp hmem
          exact (congrArg Prod.fst hb).symm
        subst hs
        have hnil : more = [] := List.append_right_eq_self.mp h
        refine ⟨rfl, rfl, ?_⟩
        rcases hmore hnil with h | h
        · exact .inl h
        · exact .inr (by rw [h])
    · rintro (h | ⟨s, rfl, hhead, hs⟩)
      · cases h
      · cases Option.some.inj hhead
        rcases hs with hs | hs
        · simp [upTo, hs]
        · cases hs
          rw [upTo]
          split <;> simp [upTo]

theorem enabledRules_normalizeRules (S : SortSlice) (p : Policy) :
    (normalizeRules S p).enabledRules.Perm p.enabledRules := by
  refine List.Perm.filter _ ?_
  unfold normalizeRules
  split
  · exact S.perm ruleLess p.rules
  · exact .refl _

/-- The enabled rules of a loaded policy that match and have actions, in the order they are evaluated in. -/
def acting (S : SortSlice) (p : Policy) (matched : Rule → Bool) : List Rule :=
  (normalizeRules S p).enabledRules.filter fun r => matched r && !r.actions.isEmpty

theorem executed_eq_acting (S : SortSlice) (p : Policy) (ctx : EvaluationContext) :
    ((upTo (e.stops rt ctx) (entries (normalizePolicyPriorities S [p]))).flatMap fun x =>
        (e.executes rt ctx x).map fun a => (x.2, a)) =
      (upTo (fun r => r.actions.any fun a => stopsEvaluation a.type)
        (acting S p fun r => e.matched rt ctx (p, r))).flatMap ruleActions := by
  have hrules : entries (normalizePolicyPriorities S [p]) =
      (normalizeRules S p).enabledRules.map fun r => (normalizeRules S p, r) :=
    List.append_nil _
  have hstep : ∀ r, (e.executes rt ctx (p, r)).map (fun a => (r, a)) =
      if e.matched rt ctx (p, r) && !r.actions.isEmpty then ruleActions r else [] := by
    intro r
    rw [executes, ruleActions]
    cases e.matched rt ctx (p, r) <;> cases r.actions <;> simp
  have hflat : ∀ l : List Rule, (l.flatMap fun r => (e.executes rt ctx (p, r)).map fun a => (r, a)) =
      (l.filter fun r => e.matched rt ctx (p, r) && !r.actions.isEmpty).flatMap ruleActions := by
    intro l
    induction l with
    | nil => rfl
    | cons r l ih => rw [List.flatMap_cons, ih, hstep, List.filter_cons]; split <;> simp
  have hstop : ∀ r, e.stops rt ctx (p, r) = true → (e.matched rt ctx (p, r) && !r.actions.isEmpty) = true := by
    intro r h
    rw [stops, Bool.and_eq_true] at h
    cases hr : r.actions <;> simp_all
  rw [hrules, upTo_map, List.flatMap_map]
  refine (hflat _).trans ?_
  rw [upTo_filter (p := fun r => e.stops rt ctx (normalizeRules S p, r)) hstop]
  refine congrArg (List.flatMap ruleActions) (find_congr_of_upTo fun r hr => ?_).1
  have hmatched : e.matched rt ctx (normalizeRules S p, r) = true :=
    (Bool.and_eq_true_iff.mp (List.mem_filter.mp (upTo_subset hr)).2).1
  rw [stops, hmatched, Bool.true_and]

/-- For a single policy, the actions executed are those of the first rule of the file that matches exactly when it is
evaluated before every other matching rule with actions, and ends the evaluation or is the only one. -/
theorem first_match_iff (S : SortSlice) {e₀ : InterpreterEngine} {p : Policy}
    (hload : e₀.reloadPolicies S (.ok [p]) = .ok e) (now : Time) (r : EnrichedRequest)
    (hno : ∀ x ∈ upTo (e.stops rt (requestContext now r)) (entries (normalizePolicyPriorities S [p])),
      ∃ b, e.outcome rt (requestContext now r) x = .ok b) :
    let ctx := requestContext now r
    let matched := fun rule => e.matched rt ctx (p, rule)
    let first := p.enabledRules.find? matched
    let executed := (upTo (e.stops rt ctx) (entries (normalizePolicyPriorities S [p]))).flatMap fun x =>
      (e.executes rt ctx x).map fun a => (x.2, a)
    ∃ decision, e.evaluateRequest rt .never now (some r) = .ok decision ∧
      decision.matchedRules.flatMap (·.actionsExecuted) = executed.map (fun x => (execute rt x.2 ctx).1) ∧
      (executed = first.elim [] ruleActions ∧ (first = none → decision.action = .allow) ↔
        acting S p matched = [] ∨ ∃ rule, first = some rule ∧ (acting S p matched).head? = some rule ∧
          ((rule.actions.any fun a => stopsEvaluation a.type) = true ∨ acting S p matched = [rule])) := by
  intro ctx matched first executed
  obtain ⟨decision, heval, hresults, -, hnone⟩ := executed_in_priority_order rt S hload now r hno
  have hactions : (upTo (e.stops rt ctx) (entries (normalizePolicyPriorities S [p]))).flatMap (e.executes rt ctx) =
      executed.map Prod.snd := by
    simp only [executed, List.map_flatMap, List.map_map, Function.comp_def, List.map_id']
  refine ⟨decision, heval, ?_, ?_⟩
  · rw [hresults, hactions, List.map_map]
    rfl
  have hallow : first = none → decision.action = .allow := by
    intro h
    refine (hnone fun x hx => ?_).2
    obtain ⟨q, hq, hx⟩ := List.mem_flatMap.mp hx
    obtain ⟨rule, hrule, rfl⟩ := List.mem_map.mp hx
    rw [List.mem_singleton.mp hq] at hrule
    have hmem := (enabledRules_normalizeRules S p).mem_iff.mp hrule
    exact Bool.eq_false_of_not_eq_true (List.find?_eq_none.mp h rule hmem)
  rw [and_iff_left hallow]
  simp only [executed, executed_eq_acting]
  refine flatMap_upTo_ruleActions ?_ ?_
  · intro rule hrule
    have hacts := (Bool.and_eq_true_iff.mp (List.mem_filter.mp hrule).2).2
    simpa using hacts
  · intro hnil rule hrule
    have hmem := (enabledRules_normalizeRules S p).mem_iff.mpr (List.mem_of_find?_eq_some hrule)
    have hmatched : matched rule = true := List.find?_some hrule
    simpa [matched, hmatched] using List.filter_eq_nil_iff.mp hnil rule hmem

end InterpreterEngine

/-! ## A risky request under `guardPolicy` -/

theorem guardPolicy_loads : (defaultEngine []).reloadPolicies insertionSlice (.ok [guardPolicy]) =
    .ok (defaultEngine [guardPolicy]) := rfl

theorem guardPolicy_no_errors (r : EnrichedRequest) :
    ∀ x ∈ upTo ((defaultEngine [guardPolicy]).stops noRuntime (InterpreterEngine.requestContext 1 r))
      (entries (normalizePolicyPriorities insertionSlice [guardPolicy])),
      ∃ b, (defaultEngine [guardPolicy]).outcome noRuntime (InterpreterEngine.requestContext 1 r) x = .ok b := by
  intro x hx
  rcases List.mem_cons.mp (upTo_subset hx) with rfl | hx
  · exact ⟨_, rfl⟩
  · obtain rfl := List.mem_singleton.mp hx
    exact ⟨true, rfl⟩

theorem decision_characterisation_guard :
    ∃ decision, (defaultEngine [guardPolicy]).evaluateRequest noRuntime .never 1 (some { riskScore := 9 }) =
        .ok decision ∧ decision.action = .block ∧ decision.blockReason = "too risky" := by
  obtain ⟨decision, heval, -, hdec⟩ :=
    InterpreterEngine.decision_characterisation noRuntime insertionSlice guardPolicy_loads 1
      { riskScore := 9 } (guardPolicy_no_errors _)
  exact ⟨decision, heval, hdec.block.mpr rfl, (hdec.reason _ rfl).1⟩

/-- A request that is not risky matches the catch-all only. -/
theorem first_match_guard :
    ∃ decision, (defaultEngine [guardPolicy]).evaluateRequest noRuntime .never 1 (some { riskScore := 1 }) =
        .ok decision ∧
      (decision.matchedRules.flatMap (·.actionsExecuted)).map (·.actionType) = [.route] := by
  obtain ⟨decision, heval, hresults, hiff⟩ :=
    InterpreterEngine.first_match_iff noRuntime insertionSlice guardPolicy_loads 1 { riskScore := 1 }
      (guardPolicy_no_errors _)
  refine ⟨decision, heval, ?_⟩
  rw [hresults, (hiff.mpr (.inr ⟨_, rfl, rfl, .inr rfl⟩)).1]
  rfl

/-- On a risky request the first rule of the file that matches is the catch-all, and its actions are not the ones
executed. -/
theorem first_match_of_file_not_executed :
    let e := defaultEngine [guardPolicy]
    let ctx := InterpreterEngine.requestContext 1 { riskScore := 9 }
    (defaultEngine []).reloadPolicies insertionSlice (.ok [guardPolicy]) = .ok e ∧
      (∀ r ∈ guardPolicy.rules, ∃ b, e.outcome noRuntime ctx (guardPolicy, r) = .ok b) ∧
      ∃ first decision,
        (guardPolicy.enabledRules.find? fun r => e.matched noRuntime ctx (guardPolicy, r)) = some first ∧
        e.evaluateRequest noRuntime .never 1 (some { riskScore := 9 }) = .ok decision ∧
        decision.matchedRules.flatMap (·.actionsExecuted) ≠
          first.actions.map fun a => (execute noRuntime a ctx).1 := by
  refine ⟨rfl, ?_, _, _, rfl, rfl, ?_⟩
  · intro r hr
    rcases List.mem_cons.mp hr with rfl | hr
    · exact ⟨true, rfl⟩
    · obtain rfl := List.mem_singleton.mp hr
      exact ⟨true, rfl⟩
  · intro h
    exact absurd (congrArg (List.map (·.actionType)) h) (by decide)

end Jupiter.Engine
