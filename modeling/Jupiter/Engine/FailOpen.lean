/-
Fail-open and missing fields. An evaluation error under fail-open allows the request, but a field that `extractField`
does not find counts as a match, for a deny rule as for any other.
-/
import Jupiter.Engine.Decision

namespace Jupiter.Engine

open Jupiter.Go Jupiter.Mpl Jupiter.Processing Jupiter.Lib

/-- A leaf that reads a field which is not there. -/
def missingField (ctx : EvaluationContext) : ConditionNode → Bool
  | .simple field _ _ => (extractField field ctx).isNone
  | _ => false

namespace InterpreterEngine

variable (rt : Runtime) (e : InterpreterEngine) (ctx : EvaluationContext)

/-- Evaluating the rule's condition looks at a missing field. -/
def consultsMissing (x : Entry) : Bool :=
  match x.2.conditions with
  | none => false
  | some c => (e.matcher.consulted rt ctx c).any (missingField ctx)

variable {rt e ctx}

theorem handleEvaluationError_failOpen (h : e.config.failSafeMode = .failOpen) (c : EvaluationContext) :
    e.handleEvaluationError c = .ok { buildDecision c with action := .allow } := by
  rw [handleEvaluationError, h]

theorem evaluate_block {d : Deadlines} {decision : PolicyDecision}
    (hmode : e.config.failSafeMode = .failOpen) (hst : ctx.stopped = false) (hmr : ctx.matchedRules = [])
    (h : e.evaluate rt d ctx = .ok decision) (hb : decision.action = .block) :
    decision = buildDecision (e.finalContext rt ctx) := by
  rw [evaluate_eq] at h
  -- an error, a timeout included, would have allowed the request
  have herr : ∀ c err, e.evaluateLoaded rt d ctx ≠ (c, some err) := by
    intro c err hc
    rw [hc] at h
    dsimp only at h
    rw [handleEvaluationError_failOpen hmode] at h
    cases h
    cases hb
  rcases hrun : e.evaluateLoaded rt d ctx with ⟨c, _ | err⟩
  · rw [hrun] at h
    rcases e.evaluateLoaded_cut rt d ctx with heq | ⟨err, herr', -, -⟩
    · rw [heq, evaluateLoaded_final rt e ctx hst hmr] at hrun
      cases h
      exact congrArg buildDecision (congrArg Prod.fst hrun).symm
    · rw [hrun] at herr'
      cases herr'
  · exact absurd hrun (herr c err)

theorem stops_of_deny {x : Entry} (hm : e.matched rt ctx x = true) (hd : x.2.hasActionType .deny = true) :
    e.stops rt ctx x = true := by
  unfold Rule.hasActionType at hd
  obtain ⟨a, ha, hat⟩ := List.any_eq_true.mp hd
  rw [stops, hm, Bool.true_and, List.any_eq_true]
  exact ⟨a, ha, by rw [eq_of_beq hat]; rfl⟩

theorem find_ends_of_deny {x : Entry} (hx : x ∈ e.reached rt ctx) (hm : e.matched rt ctx x = true)
    (hd : x.2.hasActionType .deny = true) : (entries e.policies).find? (e.ends rt ctx) = some x :=
  find_of_mem_upTo hx (by rw [ends, stops_of_deny hm hd, Bool.or_true])

theorem hasDeny_of_executed {a : Action} (ha : a ∈ e.executed rt ctx) (hat : a.type = .deny) :
    ∃ x ∈ e.reached rt ctx, e.matched rt ctx x = true ∧ x.2.hasActionType .deny = true := by
  obtain ⟨x, hx, hax⟩ := List.mem_flatMap.mp ha
  unfold executes at hax
  cases hm : e.matched rt ctx x with
  | false => rw [hm] at hax; cases hax
  | true =>
    rw [hm] at hax
    exact ⟨x, hx, hm, List.any_eq_true.mpr ⟨a, hax, by rw [hat]; rfl⟩⟩

theorem executed_of_hasDeny {x : Entry} (hx : x ∈ e.reached rt ctx) (hm : e.matched rt ctx x = true)
    (hd : x.2.hasActionType .deny = true) : lastDeny (e.executed rt ctx) ≠ none := by
  unfold Rule.hasActionType at hd
  obtain ⟨a, ha, hat⟩ := List.any_eq_true.mp hd
  rw [Ne, lastDeny_eq_none]
  intro hnone
  refine hnone a ?_ (eq_of_beq hat)
  exact List.mem_flatMap.mpr ⟨x, hx, by rw [executes, if_pos hm]; exact ha⟩

variable (rt)

/-- Under fail-open, whatever the timing, a request is only blocked by a deny rule that matched without consulting a
missing field, if and only if the rule that ends the evaluation does not match, deny and consult one. -/
theorem failOpen_block_iff (hmode : e.config.failSafeMode = .failOpen) (now : Time) (r : EnrichedRequest) :
    (∀ d decision, e.evaluateRequest rt d now (some r) = .ok decision → decision.action = .block →
      ∃ x ∈ e.reached rt (requestContext now r), x.2.hasActionType .deny = true ∧
        e.matched rt (requestContext now r) x = true ∧
        e.consultsMissing rt (requestContext now r) x = false) ↔
    ∀ x, (entries e.policies).find? (e.ends rt (requestContext now r)) = some x →
      e.matched rt (requestContext now r) x = true → x.2.hasActionType .deny = true →
      e.consultsMissing rt (requestContext now r) x = false := by
  generalize hctx : requestContext now r = ctx
  have hst : ctx.stopped = false := by rw [← hctx]; rfl
  have hmr : ctx.matchedRules = [] := by rw [← hctx]; rfl
  have hdec : DecidedBy (lastDeny (e.executed rt ctx)) (e.executed rt ctx)
      (buildDecision (e.finalContext rt ctx)) :=
    buildDecision_decidedBy rt _ ctx _ (by rw [← hctx]; rfl) (by rw [← hctx]; rfl) (by rw [← hctx]; rfl)
  constructor
  · intro hprop x hfind hm hd
    -- the rule ends the run without an error, and its deny blocks
    have hx := mem_upTo_of_find hfind
    have heval : e.evaluateRequest rt .never now (some r) = .ok (buildDecision (e.finalContext rt ctx)) := by
      rw [evaluateRequest, hctx, evaluate_eq, evaluateLoaded_final rt e ctx hst hmr, hfind]
      simp [failure_of_matched hm]
    have hblock := hdec.block.mpr (Option.isSome_iff_ne_none.mpr (executed_of_hasDeny hx hm hd))
    obtain ⟨y, hy, hyd, hym, hyc⟩ := hprop _ _ heval hblock
    have hxy := find_ends_of_deny hy hym hyd
    rw [hfind] at hxy
    cases hxy
    exact hyc
  · intro hcond d decision heval hb
    rw [evaluateRequest, hctx] at heval
    have hfinal := evaluate_block hmode hst hmr heval hb
    rw [hfinal, hdec.block, Option.isSome_iff_exists] at hb
    obtain ⟨a, ha⟩ := hb
    obtain ⟨ham, hat⟩ := List.mem_filter.mp (List.mem_of_getLast? ha)
    obtain ⟨x, hx, hm, hd⟩ := hasDeny_of_executed ham (eq_of_beq hat)
    exact ⟨x, hx, hd, hm, hcond x (find_ends_of_deny hx hm hd) hm hd⟩

end InterpreterEngine

/-! ## A field the request does not set -/

def failOpenEngine (policies : List Policy) : InterpreterEngine :=
  { config := { failSafeMode := .failOpen }, valid := rfl, policies }

def heatPolicy : Policy :=
  { name := "heat"
    rules :=
      [{ name := "too-hot"
         conditions := some (.simple "request.temperature" .greaterThan (.number 1))
         actions := [{ type := .deny, parameters := [("message", .string "temperature too high")] }] }] }

/-- A request that sets no temperature is blocked, and no rule was evaluated without a missing field. -/
theorem failOpen_blocks_unset_temperature :
    ∃ decision, (failOpenEngine [heatPolicy]).evaluateRequest noRuntime .never 1
        (some { originalRequest := some { model := "gpt-4" } }) = .ok decision ∧
      decision.action = .block ∧ decision.blockReason = "temperature too high" ∧
      ∀ x ∈ entries [heatPolicy], (failOpenEngine [heatPolicy]).consultsMissing noRuntime
        (InterpreterEngine.requestContext 1 { originalRequest := some { model := "gpt-4" } }) x = true := by
  refine ⟨_, rfl, rfl, rfl, ?_⟩
  intro x hx
  obtain rfl := List.mem_singleton.mp hx
  rfl

theorem failOpen_block_iff_set_temperature :
    ∃ x ∈ (failOpenEngine [heatPolicy]).reached noRuntime (InterpreterEngine.requestContext 1
        { originalRequest := some { model := "gpt-4", temperature := some 2 } }),
      x.2.hasActionType .deny = true ∧
      (failOpenEngine [heatPolicy]).matched noRuntime (InterpreterEngine.requestContext 1
        { originalRequest := some { model := "gpt-4", temperature := some 2 } }) x = true ∧
      (failOpenEngine [heatPolicy]).consultsMissing noRuntime (InterpreterEngine.requestContext 1
        { originalRequest := some { model := "gpt-4", temperature := some 2 } }) x = false := by
  refine (InterpreterEngine.failOpen_block_iff noRuntime rfl 1 _).mpr ?_ .never _ rfl rfl
  intro x hx _ _
  obtain rfl : (heatPolicy, _) = x := Option.some.inj hx
  rfl

end Jupiter.Engine
