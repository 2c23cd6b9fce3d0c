/-
The value of a condition tree, without the deadline checks of `Match`. It reads the input of the context
only (`eval_congr`), and `Match` under any deadlines gives this value or gives up (`matchNode_timed`).
-/
import Jupiter.Engine.Matcher

namespace Jupiter.Engine

open Jupiter.Go Jupiter.Mpl

/-! ## The input of a context -/

structure SameInput (c c' : EvaluationContext) : Prop where
  requestID : c.requestID = c'.requestID
  request : c.request = c'.request
  response : c.response = c'.response
  startTime : c.startTime = c'.startTime

theorem SameInput.refl (c : EvaluationContext) : SameInput c c := ⟨rfl, rfl, rfl, rfl⟩

theorem SameInput.trans {c c' c'' : EvaluationContext} (h : SameInput c c') (h' : SameInput c' c'') :
    SameInput c c'' :=
  ⟨h.1.trans h'.1, h.2.trans h'.2, h.3.trans h'.3, h.4.trans h'.4⟩

theorem SameInput.addMatched {c c' : EvaluationContext} (h : SameInput c c') (m : MatchedRule) :
    SameInput (c.addMatched m) c' := ⟨h.1, h.2, h.3, h.4⟩

theorem extractField_congr {c c' : EvaluationContext} (h : SameInput c c') (path : String) :
    extractField path c = extractField path c' := by
  obtain ⟨hid, hrequest, hresponse, -⟩ := h
  cases c
  cases c'
  cases hid
  cases hrequest
  cases hresponse
  rfl

/-! ## The value of a condition -/

namespace DefaultMatcher

variable (rt : Runtime) (m : DefaultMatcher) (ctx : EvaluationContext)

mutual

def eval : ConditionNode → Except MatchError Bool
  | .simple field op value => m.matchSimple rt field op value ctx
  | .all children => evalWhile true children
  | .any children => evalWhile false children
  | .not [child] => (eval child).map (!·)
  | .not children => .error (.notChildren children.length)
  | .function name _ => m.matchFunction rt name ctx
  | .unknown type => .error (.unknownConditionType type)

/-- The loop over the children, which goes on while they have the value `go`. -/
def evalWhile (go : Bool) : List ConditionNode → Except MatchError Bool
  | [] => .ok go
  | child :: rest =>
    match eval child with
    | .error e => .error e
    | .ok b => if b = go then evalWhile go rest else .ok b

end

theorem matchSimple_congr {c c' : EvaluationContext} (h : SameInput c c') (field : String)
    (op : Operator) (value : ValueNode) :
    m.matchSimple rt field op value c = m.matchSimple rt field op value c' := by
  simp only [matchSimple, extractField_congr h]

theorem matchFunction_congr {c c' : EvaluationContext} (h : SameInput c c') (name : String) :
    m.matchFunction rt name c = m.matchFunction rt name c' := by
  simp only [matchFunction, hasPII, hasInjection, inBusinessHours, h.request, h.startTime]

/-- Induction on a condition that takes `all` and `any` together. -/
theorem condition_induction {motive : ConditionNode → Prop}
    (simple : ∀ field op value, motive (.simple field op value))
    (group : ∀ cs, (∀ c ∈ cs, motive c) → motive (.all cs) ∧ motive (.any cs))
    (single : ∀ c, motive c → motive (.not [c]))
    (other : ∀ cs, cs.length ≠ 1 → motive (.not cs))
    (function : ∀ name args, motive (.function name args))
    (unknown : ∀ type, motive (.unknown type)) : ∀ n, motive n
  | .simple _ _ _ => simple _ _ _
  | .all cs => (group cs fun c _ => condition_induction simple group single other function unknown c).1
  | .any cs => (group cs fun c _ => condition_induction simple group single other function unknown c).2
  | .not [] => other [] (by decide)
  | .not [c] => single c (condition_induction simple group single other function unknown c)
  | .not (_ :: _ :: _) => other _ (by simp)
  | .function _ _ => function _ _
  | .unknown _ => unknown _

theorem eval_not_other {cs : List ConditionNode} (h : cs.length ≠ 1) :
    m.eval rt ctx (.not cs) = .error (.notChildren cs.length) := by
  match cs with
  | [] => simp only [eval]
  | [_] => exact absurd rfl h
  | _ :: _ :: _ => simp only [eval]

theorem eval_all (cs : List ConditionNode) : m.eval rt ctx (.all cs) = m.evalWhile rt ctx true cs := by rw [eval]

theorem eval_any (cs : List ConditionNode) : m.eval rt ctx (.any cs) = m.evalWhile rt ctx false cs := by rw [eval]

def reached (go : Bool) : List ConditionNode → List ConditionNode
  | [] => []
  | child :: rest =>
    child :: match m.eval rt ctx child with
      | .error _ => []
      | .ok b => if b = go then reached go rest else []

variable {rt m ctx} in
theorem mem_of_reached {go : Bool} {c : ConditionNode} :
    ∀ {cs : List ConditionNode}, c ∈ m.reached rt ctx go cs → c ∈ cs
  | [], h => h
  | child :: rest, h => by
    rcases List.mem_cons.1 h with rfl | h
    · exact List.mem_cons_self
    · split at h
      · cases h
      · split at h
        · exact List.mem_cons_of_mem _ (mem_of_reached h)
        · cases h

theorem evalWhile_map (c' : EvaluationContext) (go : Bool) {cs : List ConditionNode}
    (f : ConditionNode → ConditionNode)
    (h : ∀ c ∈ m.reached rt ctx go cs, m.eval rt c' (f c) = m.eval rt ctx c) :
    m.evalWhile rt c' go (cs.map f) = m.evalWhile rt ctx go cs := by
  induction cs with
  | nil => rfl
  | cons c cs ih =>
    rw [reached] at h
    rw [List.map_cons, evalWhile, evalWhile, h c List.mem_cons_self]
    rcases hv : m.eval rt ctx c with e | b
    · rfl
    · rw [hv] at h
      by_cases hb : b = go
      · simp only [hb, if_true] at h ⊢
        exact ih fun c hc => h c (List.mem_cons_of_mem _ hc)
      · simp only [hb, if_false]

theorem evalWhile_eq_error_iff {go : Bool} {cs : List ConditionNode} {e : MatchError} :
    m.evalWhile rt ctx go cs = .error e ↔ ∃ c ∈ m.reached rt ctx go cs, m.eval rt ctx c = .error e := by
  induction cs with
  | nil => simp [evalWhile, reached]
  | cons c cs ih =>
    rw [evalWhile, reached, List.exists_mem_cons_iff]
    rcases hv : m.eval rt ctx c with e | b
    · simp
    · by_cases hb : b = go
      · simp [hb, ih]
      · simp [hb]

/-- Over children that do not fail the loop takes the conjunction or the disjunction. -/
theorem evalWhile_of_values {cs : List ConditionNode} {bs : List Bool}
    (h : List.Forall₂ (fun c b => m.eval rt ctx c = .ok b) cs bs) :
    m.evalWhile rt ctx true cs = .ok (bs.all id) ∧ m.evalWhile rt ctx false cs = .ok (bs.any id) := by
  induction h with
  | nil => exact ⟨rfl, rfl⟩
  | @cons _ b _ _ hb _ ih => cases b <;> simp [evalWhile, hb, ih]

theorem eval_congr {c c' : EvaluationContext} (h : SameInput c c') (n : ConditionNode) :
    m.eval rt c n = m.eval rt c' n := by
  induction n using condition_induction with
  | simple field op value => simp only [eval, matchSimple_congr rt m h]
  | group cs ih =>
    have hloop (go : Bool) := evalWhile_map rt m c' c go id fun n hn => ih n (mem_of_reached hn)
    rw [eval_all, eval_all, eval_any, eval_any, ← hloop, ← hloop, List.map_id]
    exact ⟨rfl, rfl⟩
  | single c ih => simp only [eval, ih]
  | other cs hc => rw [eval_not_other rt m _ hc, eval_not_other rt m _ hc]
  | function name _ => simp only [eval, matchFunction_congr rt m h]
  | unknown _ => simp only [eval]

/-! ## Deadlines inside a condition -/

variable {done : List Nat → Bool}

def Timed (done : List Nat → Bool) (x v : Except MatchError Bool) : Prop :=
  x = v ∨ x = .error .cancelled ∧ ∃ at_, done at_ = true

mutual

/-- `Match` gives the value of the condition, or gives up at a deadline. -/
theorem matchNode_timed (at_ : List Nat) :
    ∀ n : ConditionNode, Timed done (m.matchNode rt done at_ ctx n) (m.eval rt ctx n)
  | .simple _ _ _ => by simp only [matchNode, eval]; exact .inl rfl
  | .all children => by simp only [matchNode, eval]; exact matchAll_timed at_ 0 children
  | .any children => by simp only [matchNode, eval]; exact matchAny_timed at_ 0 children
  | .not [] => by simp only [matchNode, eval]; exact .inl rfl
  | .not [child] => by
    simp only [matchNode, eval]
    rcases matchNode_timed (0 :: at_) child with h | ⟨h, hd⟩
    · rw [h]; exact .inl rfl
    · rw [h]; exact .inr ⟨rfl, hd⟩
  | .not (_ :: _ :: _) => by simp only [matchNode, eval]; exact .inl rfl
  | .function _ _ => by simp only [matchNode, eval]; exact .inl rfl
  | .unknown _ => by simp only [matchNode, eval]; exact .inl rfl

theorem matchAll_timed (at_ : List Nat) (i : Nat) :
    ∀ cs : List ConditionNode, Timed done (m.matchAll rt done at_ ctx i cs) (m.evalWhile rt ctx true cs)
  | [] => by simp only [matchAll, evalWhile]; exact .inl rfl
  | child :: rest => by
    simp only [matchAll, evalWhile]
    cases hd : done (i :: at_) with
    | true => exact .inr ⟨rfl, _, hd⟩
    | false =>
      rcases matchNode_timed (i :: at_) child with h | ⟨h, hd⟩
      · rw [h]
        rcases m.eval rt ctx child with e | _ | _
        · exact .inl rfl
        · exact .inl rfl
        · exact matchAll_timed at_ (i + 1) rest
      · rw [h]; exact .inr ⟨rfl, hd⟩

theorem matchAny_timed (at_ : List Nat) (i : Nat) :
    ∀ cs : List ConditionNode, Timed done (m.matchAny rt done at_ ctx i cs) (m.evalWhile rt ctx false cs)
  | [] => by simp only [matchAny, evalWhile]; exact .inl rfl
  | child :: rest => by
    simp only [matchAny, evalWhile]
    cases hd : done (i :: at_) with
    | true => exact .inr ⟨rfl, _, hd⟩
    | false =>
      rcases matchNode_timed (i :: at_) child with h | ⟨h, hd⟩
      · rw [h]
        rcases m.eval rt ctx child with e | _ | _
        · exact .inl rfl
        · exact matchAny_timed at_ (i + 1) rest
        · exact .inl rfl
      · rw [h]; exact .inr ⟨rfl, hd⟩

end

theorem matchNode_never (at_ : List Nat) (n : ConditionNode) :
    m.matchNode rt (fun _ => false) at_ ctx n = m.eval rt ctx n := by
  rcases matchNode_timed rt m ctx at_ n with h | ⟨-, _, hd⟩
  · exact h
  · cases hd

theorem matchSimple_ne_cancelled (field : String) (op : Operator) (value : ValueNode) :
    m.matchSimple rt field op value ctx ≠ .error .cancelled := by
  unfold matchSimple
  cases extractField field ctx with
  | none => cases m.failSafeMode <;> simp
  | some actual =>
    cases h : evaluateOperator rt op actual value.value <;> simp [Except.mapError, h]

theorem matchFunction_ne_cancelled (name : String) :
    m.matchFunction rt name ctx ≠ .error .cancelled := by
  unfold matchFunction
  split <;> simp

theorem eval_ne_cancelled (n : ConditionNode) : m.eval rt ctx n ≠ .error .cancelled := by
  induction n using condition_induction with
  | simple field op value => rw [eval]; exact matchSimple_ne_cancelled rt m ctx _ _ _
  | group cs ih =>
    rw [eval_all, eval_any, Ne, Ne, evalWhile_eq_error_iff, evalWhile_eq_error_iff]
    exact ⟨fun ⟨c, hc, h⟩ => ih c (mem_of_reached hc) h, fun ⟨c, hc, h⟩ => ih c (mem_of_reached hc) h⟩
  | single c ih =>
    rw [eval]
    rcases hv : m.eval rt ctx c with e | b
    · rw [hv] at ih; exact ih
    · simp [Except.map]
  | other cs hc => simp [eval_not_other rt m ctx hc]
  | function name _ => rw [eval]; exact matchFunction_ne_cancelled rt m ctx _
  | unknown _ => simp [eval]

/-! ## What a condition looks at -/

mutual

/-- The leaves that the evaluation of a condition looks at, in order. A `not` without exactly one child
is refused unlooked at. -/
def consulted : ConditionNode → List ConditionNode
  | .simple field op value => [.simple field op value]
  | .all children => consultedAll children
  | .any children => consultedAny children
  | .not [child] => consulted child
  | .not _ => []
  | .function name args => [.function name args]
  | .unknown type => [.unknown type]

def consultedAll : List ConditionNode → List ConditionNode
  | [] => []
  | child :: rest =>
    consulted child ++
      match m.eval rt ctx child with
      | .ok true => consultedAll rest
      | _ => []

def consultedAny : List ConditionNode → List ConditionNode
  | [] => []
  | child :: rest =>
    consulted child ++
      match m.eval rt ctx child with
      | .ok false => consultedAny rest
      | _ => []

end

theorem consulted_not_other {cs : List ConditionNode} (h : cs.length ≠ 1) :
    m.consulted rt ctx (.not cs) = [] := by
  match cs with
  | [] => simp only [consulted]
  | [_] => exact absurd rfl h
  | _ :: _ :: _ => simp only [consulted]

theorem consulted_all (cs : List ConditionNode) :
    m.consulted rt ctx (.all cs) = (m.reached rt ctx true cs).flatMap (m.consulted rt ctx) := by
  rw [consulted]
  induction cs with
  | nil => rw [consultedAll]; rfl
  | cons c cs ih =>
    rw [consultedAll, reached, ih]; rcases m.eval rt ctx c with e | _ | _ <;> simp

theorem consulted_any (cs : List ConditionNode) :
    m.consulted rt ctx (.any cs) = (m.reached rt ctx false cs).flatMap (m.consulted rt ctx) := by
  rw [consulted]
  induction cs with
  | nil => rw [consultedAny]; rfl
  | cons c cs ih =>
    rw [consultedAny, reached, ih]; rcases m.eval rt ctx c with e | _ | _ <;> simp

section

variable {rt m ctx}

/-- A leaf that is looked at and fails makes the condition fail. -/
theorem eval_error_of_consulted {leaf : ConditionNode} {err : MatchError}
    (hl : m.eval rt ctx leaf = .error err) (n : ConditionNode) (h : leaf ∈ m.consulted rt ctx n) :
    m.eval rt ctx n = .error err := by
  induction n using condition_induction with
  | simple | function | unknown =>
    simp only [consulted, List.mem_singleton] at h
    exact h ▸ hl
  | group cs ih =>
    rw [consulted_all, consulted_any, eval_all, eval_any, evalWhile_eq_error_iff, evalWhile_eq_error_iff,
      List.mem_flatMap, List.mem_flatMap]
    exact ⟨fun ⟨c, hc, h⟩ => ⟨c, hc, ih c (mem_of_reached hc) h⟩,
      fun ⟨c, hc, h⟩ => ⟨c, hc, ih c (mem_of_reached hc) h⟩⟩
  | single c ih =>
    simp only [consulted] at h
    simp only [eval, ih h]
    rfl
  | other cs hc => rw [consulted_not_other rt m ctx hc] at h; cases h

/-- A condition fails because a leaf that was looked at fails, or because of the shape of a `not`. -/
theorem consulted_of_eval_error {err : MatchError} (hn : ∀ k, err ≠ .notChildren k) (n : ConditionNode)
    (h : m.eval rt ctx n = .error err) : ∃ leaf ∈ m.consulted rt ctx n, m.eval rt ctx leaf = .error err := by
  induction n using condition_induction with
  | simple | function | unknown => exact ⟨_, by simp only [consulted]; exact List.mem_cons_self, h⟩
  | group cs ih =>
    have hloop (go : Bool) (h : m.evalWhile rt ctx go cs = .error err) :
        ∃ leaf ∈ (m.reached rt ctx go cs).flatMap (m.consulted rt ctx), m.eval rt ctx leaf = .error err := by
      obtain ⟨c, hc, he⟩ := (evalWhile_eq_error_iff rt m ctx).1 h
      obtain ⟨leaf, hm, hl⟩ := ih c (mem_of_reached hc) he
      exact ⟨leaf, List.mem_flatMap.2 ⟨c, hc, hm⟩, hl⟩
    rw [consulted_all, consulted_any, eval_all, eval_any]
    exact ⟨hloop true, hloop false⟩
  | single c ih =>
    simp only [eval] at h
    simp only [consulted]
    rcases hv : m.eval rt ctx c with e | b
    · rw [hv] at h
      cases h
      exact ih hv
    · rw [hv] at h; cases h
  | other cs hc =>
    rw [eval_not_other rt m ctx hc] at h
    exact absurd (Except.error.inj h).symm (hn _)

end

end DefaultMatcher

end Jupiter.Engine
