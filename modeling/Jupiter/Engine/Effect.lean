/-
What executing an action leaves behind (`execute_spec`): each outcome of the context is written by one kind
of action. Runs of several actions follow: the block is that of the last deny, the target that of the last
route with a provider, and the transformations are those of the modify actions with a field.
-/
import Jupiter.Engine.Condition
import Jupiter.Engine.Executor
import Jupiter.Engine.Priority
import Jupiter.Lib.Scan

namespace Jupiter.Engine

open Jupiter.Go Jupiter.Mpl Jupiter.Lib

/-! ## Actions -/

def stopsEvaluation : ActionType → Bool
  | .allow | .deny => true
  | _ => false

def isRoute (a : Action) : Bool := a.type == .route && (routeTarget a).provider != ""

def isModify (a : Action) : Bool := a.type == .modify && a.getStringParameter "field" != ""

def modifyTransformation (a : Action) : Transformation :=
  { field := a.getStringParameter "field", value := modifyValue a,
    operation := orDefault (a.getStringParameter "operation") "set" }

/-- What executing `a` in `ctx` leaves behind: the input and the evaluated rules are kept, and each
outcome is written by one kind of action. -/
structure ExecuteSpec (a : Action) (ctx : EvaluationContext) (out : ActionResult × EvaluationContext) :
    Prop where
  input : SameInput out.2 ctx
  matchedRules : out.2.matchedRules = ctx.matchedRules
  stopped : out.2.stopped = (ctx.stopped || stopsEvaluation a.type)
  blockReason : out.2.blockReason = if a.type = .deny then denyMessage a else ctx.blockReason
  blockStatusCode : out.2.blockStatusCode = if a.type = .deny then denyStatusCode a else ctx.blockStatusCode
  routingTarget : out.2.routingTarget = if isRoute a then some (routeTarget a) else ctx.routingTarget
  transformations : out.2.transformations =
    if isModify a then ctx.transformations ++ [modifyTransformation a] else ctx.transformations
  success : isBlockingAction a.type = true → out.1.success = true

section Actions

variable (rt : Runtime)

theorem ExecuteSpec.keep {a : Action} {ctx : EvaluationContext} {result : ActionResult}
    (tags : List (String × String)) (redactions : List Redaction) (notifications : List Notification)
    (hstop : stopsEvaluation a.type = false) (hroute : isRoute a = false) (hmodify : isModify a = false)
    (hs : isBlockingAction a.type = true → result.success = true) :
    ExecuteSpec a ctx
      (result, { ctx with tags := tags, redactions := redactions, notifications := notifications }) := by
  have hdeny : a.type ≠ .deny := by
    intro h
    rw [h] at hstop
    cases hstop
  exact ⟨⟨rfl, rfl, rfl, rfl⟩, rfl, by simp [hstop], by simp [hdeny], by simp [hdeny], by simp [hroute],
    by simp [hmodify], hs⟩

theorem executeModify_spec {a : Action} (h : a.type = .modify) (ctx : EvaluationContext) :
    ExecuteSpec a ctx (executeModify a ctx) := by
  by_cases hf : a.getStringParameter "field" = ""
  · have hm : isModify a = false := by simp [isModify, hf]
    rw [executeModify, if_pos hf]
    exact .keep ctx.tags ctx.redactions ctx.notifications (by rw [h]; rfl) (by simp [isRoute, h]) hm
      (by simp [h, isBlockingAction])
  · have hm : isModify a = true := by simp [isModify, h, hf]
    rw [executeModify, if_neg hf]
    exact ⟨⟨rfl, rfl, rfl, rfl⟩, rfl, by simp [h, stopsEvaluation, EvaluationContext.addTransformation],
      by simp [h, EvaluationContext.addTransformation], by simp [h, EvaluationContext.addTransformation],
      by simp [isRoute, h, EvaluationContext.addTransformation],
      by simp [hm, EvaluationContext.addTransformation, modifyTransformation], fun _ => rfl⟩

theorem executeRoute_spec {a : Action} (h : a.type = .route) (ctx : EvaluationContext) :
    ExecuteSpec a ctx (executeRoute a ctx) := by
  by_cases hp : (routeTarget a).provider = ""
  · have hr : isRoute a = false := by simp [isRoute, hp]
    rw [executeRoute, if_pos hp]
    exact .keep ctx.tags ctx.redactions ctx.notifications (by rw [h]; rfl) hr (by simp [isModify, h])
      (by simp [h, isBlockingAction])
  · have hr : isRoute a = true := by simp [isRoute, h, hp]
    rw [executeRoute, if_neg hp]
    exact ⟨⟨rfl, rfl, rfl, rfl⟩, rfl, by simp [h, stopsEvaluation, EvaluationContext.setRouting],
      by simp [h, EvaluationContext.setRouting], by simp [h, EvaluationContext.setRouting],
      by simp [hr, EvaluationContext.setRouting], by simp [isModify, h, EvaluationContext.setRouting],
      fun _ => rfl⟩

theorem execute_spec (a : Action) (ctx : EvaluationContext) : ExecuteSpec a ctx (execute rt a ctx) := by
  -- an action of a kind that keeps all outcomes, given what it does to the rest
  have keep {result : ActionResult} (tags : List (String × String)) (redactions : List Redaction)
      (notifications : List Notification) {t : ActionType} (h : a.type = t)
      (ht : stopsEvaluation t = false ∧ t ≠ .route ∧ t ≠ .modify)
      (hs : isBlockingAction t = true → result.success = true) :
      ExecuteSpec a ctx
        (result, { ctx with tags := tags, redactions := redactions, notifications := notifications }) :=
    .keep tags redactions notifications (by rw [h]; exact ht.1) (by simp [isRoute, h, ht.2.1])
      (by simp [isModify, h, ht.2.2]) (by rw [h]; exact hs)
  unfold execute
  cases h : a.type with
  | allow =>
    exact ⟨⟨rfl, rfl, rfl, rfl⟩, rfl, by simp [executeAllow, EvaluationContext.stop, h, stopsEvaluation],
      by simp [executeAllow, EvaluationContext.stop, h], by simp [executeAllow, EvaluationContext.stop, h],
      by simp [executeAllow, EvaluationContext.stop, isRoute, h],
      by simp [executeAllow, EvaluationContext.stop, isModify, h], fun _ => rfl⟩
  | deny =>
    exact ⟨⟨rfl, rfl, rfl, rfl⟩, rfl, by simp [executeDeny, EvaluationContext.setBlock, h, stopsEvaluation],
      by simp [executeDeny, EvaluationContext.setBlock, h],
      by simp [executeDeny, EvaluationContext.setBlock, h],
      by simp [executeDeny, EvaluationContext.setBlock, isRoute, h],
      by simp [executeDeny, EvaluationContext.setBlock, isModify, h], fun _ => rfl⟩
  | log => exact keep ctx.tags ctx.redactions ctx.notifications h (by decide) fun _ => rfl
  | redact => exact keep ctx.tags _ ctx.notifications h (by decide) fun _ => rfl
  | modify => exact executeModify_spec h ctx
  | route => exact executeRoute_spec h ctx
  | alert =>
    dsimp only
    unfold executeAlert
    dsimp only
    split
    · exact keep ctx.tags ctx.redactions ctx.notifications h (by decide) (by simp [isBlockingAction])
    · exact keep ctx.tags ctx.redactions _ h (by decide) fun _ => rfl
  | tag =>
    dsimp only
    unfold executeTag
    dsimp only
    split
    · exact keep ctx.tags ctx.redactions ctx.notifications h (by decide) (by simp [isBlockingAction])
    · exact keep _ ctx.redactions ctx.notifications h (by decide) fun _ => rfl
  | rateLimit => exact keep ctx.tags ctx.redactions ctx.notifications h (by decide) fun _ => rfl
  | budget => exact keep ctx.tags ctx.redactions ctx.notifications h (by decide) fun _ => rfl
  | unknown s =>
    exact keep ctx.tags ctx.redactions ctx.notifications h ⟨rfl, by simp, by simp⟩ (by simp [isBlockingAction])

theorem execute_result_congr {c c' : EvaluationContext} (h : SameInput c c') (a : Action) :
    (execute rt a c).1 = (execute rt a c').1 := by
  have htag : tagValue rt a c = tagValue rt a c' := by
    simp only [tagValue, extractFieldValue, h.request]
  unfold execute executeModify executeRoute executeAlert executeTag
  rw [htag]
  cases a.type <;> dsimp only
  all_goals first
    | rfl
    | (split <;> rfl)

/-! ## Several actions -/

def runActions (actions : List Action) (ctx : EvaluationContext) : EvaluationContext :=
  actions.foldl (fun c a => (execute rt a c).2) ctx

@[simp] theorem runActions_nil (ctx : EvaluationContext) : runActions rt [] ctx = ctx := rfl

@[simp] theorem runActions_cons (a : Action) (actions : List Action) (ctx : EvaluationContext) :
    runActions rt (a :: actions) ctx = runActions rt actions (execute rt a ctx).2 := rfl

theorem runActions_append (as bs : List Action) (ctx : EvaluationContext) :
    runActions rt (as ++ bs) ctx = runActions rt bs (runActions rt as ctx) := List.foldl_append

theorem runActions_input (actions : List Action) (ctx : EvaluationContext) :
    SameInput (runActions rt actions ctx) ctx := by
  induction actions generalizing ctx with
  | nil => exact .refl ctx
  | cons a actions ih => exact (ih _).trans (execute_spec rt a ctx).input

theorem runActions_matchedRules (actions : List Action) (ctx : EvaluationContext) :
    (runActions rt actions ctx).matchedRules = ctx.matchedRules := by
  induction actions generalizing ctx with
  | nil => rfl
  | cons a actions ih => exact (ih _).trans (execute_spec rt a ctx).matchedRules

theorem runActions_stopped (actions : List Action) (ctx : EvaluationContext) :
    (runActions rt actions ctx).stopped =
      (ctx.stopped || actions.any fun a => stopsEvaluation a.type) := by
  induction actions generalizing ctx with
  | nil => simp
  | cons a actions ih =>
    rw [runActions_cons, ih, (execute_spec rt a ctx).stopped, List.any_cons, Bool.or_assoc]

def lastDeny (actions : List Action) : Option Action := (actions.filter (·.type == .deny)).getLast?

def lastRoute (actions : List Action) : Option Action := (actions.filter isRoute).getLast?

theorem runActions_blockReason (actions : List Action) (ctx : EvaluationContext) :
    (runActions rt actions ctx).blockReason =
      ((lastDeny actions).map denyMessage).getD ctx.blockReason := by
  refine foldl_last (f := fun c : EvaluationContext => c.blockReason) (g := denyMessage) ?_ ctx actions
  intro c a
  simpa using (execute_spec rt a c).blockReason

theorem runActions_blockStatusCode (actions : List Action) (ctx : EvaluationContext) :
    (runActions rt actions ctx).blockStatusCode =
      ((lastDeny actions).map denyStatusCode).getD ctx.blockStatusCode := by
  refine foldl_last (f := fun c : EvaluationContext => c.blockStatusCode) (g := denyStatusCode) ?_ ctx
    actions
  intro c a
  simpa using (execute_spec rt a c).blockStatusCode

theorem runActions_routingTarget (actions : List Action) (ctx : EvaluationContext) :
    (runActions rt actions ctx).routingTarget =
      ((lastRoute actions).map fun a => some (routeTarget a)).getD ctx.routingTarget :=
  foldl_last (f := fun c : EvaluationContext => c.routingTarget) (g := fun a => some (routeTarget a))
    (fun c a => (execute_spec rt a c).routingTarget) ctx actions

theorem runActions_transformations (actions : List Action) (ctx : EvaluationContext) :
    (runActions rt actions ctx).transformations =
      ctx.transformations ++ (actions.filter isModify).map modifyTransformation :=
  foldl_append (f := fun c : EvaluationContext => c.transformations) (g := modifyTransformation)
    (fun c a => (execute_spec rt a c).transformations) ctx actions

end Actions

theorem denyMessage_ne_empty (a : Action) : denyMessage a ≠ "" := by
  unfold denyMessage orDefault
  split
  · decide
  · assumption

theorem denyStatusCode_ne_zero (a : Action) : denyStatusCode a ≠ 0 := by
  unfold denyStatusCode
  dsimp only
  split
  · decide
  · assumption

end Jupiter.Engine
