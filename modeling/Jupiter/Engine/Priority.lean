/-
`priority.go`: effective priorities of policies and rules, and the order `NormalizePolicyPriorities` puts
them in: higher priority first, then by name. Comparison of Go strings is comparison of their code points.
-/
import Jupiter.Mpl.Ast
import Jupiter.Go.Sort

namespace Jupiter.Engine

open Jupiter.Go Jupiter.Mpl

def priorityHigh : Int := 100
def priorityMedium : Int := 50
def priorityLow : Int := 10

def tagPriority (tag : String) : Option Int :=
  match tag with
  | "security" | "compliance" | "blocking" => some priorityHigh
  | "routing" | "transformation" => some priorityMedium
  | "monitoring" | "tagging" | "analytics" => some priorityLow
  | _ => none

def isBlockingAction : ActionType → Bool
  | .deny | .rateLimit | .budget => true
  | _ => false

def actionsPriority (actions : List Action) : Int :=
  if actions.any (isBlockingAction ·.type) then priorityHigh
  else if actions.any (·.type == .route) then priorityMedium
  else priorityLow

/-- The first recognised tag decides; without one, the actions of the enabled rules do. -/
def getPolicyPriority (p : Policy) : Int :=
  match p.tags.findSome? tagPriority with
  | some n => n
  | none => actionsPriority (p.enabledRules.flatMap (·.actions))

def getRulePriority (r : Rule) : Int :=
  if r.priority ≠ 0 then r.priority else actionsPriority r.actions

def precedes (priority priority' : Int) (name name' : String) : Bool :=
  if priority ≠ priority' then decide (priority > priority') else decide (name < name')

def policyLess (p q : Policy) : Bool := precedes (getPolicyPriority p) (getPolicyPriority q) p.name q.name

def ruleLess (r s : Rule) : Bool := precedes (getRulePriority r) (getRulePriority s) r.name s.name

def sortPoliciesByPriority (S : SortSlice) (policies : List Policy) : List Policy :=
  S.sort policyLess policies

def sortRulesByPriority (S : SortSlice) (rules : List Rule) : List Rule := S.sort ruleLess rules

def normalizeRules (S : SortSlice) (p : Policy) : Policy :=
  if 1 < p.rules.length then { p with rules := sortRulesByPriority S p.rules } else p

def normalizePolicyPriorities (S : SortSlice) (policies : List Policy) : List Policy :=
  let policies := policies.map (normalizeRules S)
  if 1 < policies.length then sortPoliciesByPriority S policies else policies

/-! ## The order -/

theorem precedes_asymm {m n : Int} {s t : String} (h : precedes m n s t = true) :
    precedes n m t s = false := by
  unfold precedes at h ⊢
  by_cases hmn : m = n
  · subst hmn
    simp only [ne_eq, not_true_eq_false, if_false, decide_eq_true_eq, decide_eq_false_iff_not] at h ⊢
    exact String.lt_asymm h
  · rw [if_pos hmn, decide_eq_true_eq] at h
    rw [if_pos (Ne.symm hmn), decide_eq_false_iff_not]
    omega

theorem precedes_negTrans {l m n : Int} {s t u : String} (h : precedes l m s t = false)
    (h' : precedes m n t u = false) : precedes l n s u = false := by
  unfold precedes at h h' ⊢
  by_cases hlm : l = m
  · subst hlm
    by_cases hln : l = n
    · subst hln
      simp only [ne_eq, not_true_eq_false, if_false, decide_eq_false_iff_not, String.not_lt] at h h' ⊢
      exact String.le_trans h' h
    · rwa [if_pos hln] at h' ⊢
  · rw [if_pos hlm, decide_eq_false_iff_not] at h
    have hln : l ≠ n := by
      rintro rfl
      rw [if_pos (Ne.symm hlm), decide_eq_false_iff_not] at h'
      omega
    rw [if_pos hln, decide_eq_false_iff_not]
    by_cases hmn : m = n
    · omega
    · rw [if_pos hmn, decide_eq_false_iff_not] at h'
      omega

theorem eq_of_not_precedes {m n : Int} {s t : String} (h : precedes m n s t = false)
    (h' : precedes n m t s = false) : m = n ∧ s = t := by
  unfold precedes at h h'
  by_cases hmn : m = n
  · subst hmn
    simp only [ne_eq, not_true_eq_false, if_false, decide_eq_false_iff_not, String.not_lt] at h h'
    exact ⟨rfl, String.le_antisymm h' h⟩
  · rw [if_pos hmn, decide_eq_false_iff_not] at h
    rw [if_pos (Ne.symm hmn), decide_eq_false_iff_not] at h'
    omega

theorem policyLess_order : StrictWeakOrder policyLess where
  asymm _ _ := precedes_asymm
  negTrans _ _ _ := precedes_negTrans

theorem ruleLess_order : StrictWeakOrder ruleLess where
  asymm _ _ := precedes_asymm
  negTrans _ _ _ := precedes_negTrans

end Jupiter.Engine
