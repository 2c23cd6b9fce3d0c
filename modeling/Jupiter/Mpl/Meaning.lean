/-
The condition language of the MPL specification (sections 4.2 and 5) and what the parser keeps of it.

A document is a condition as the specification writes it; `Spells` says which YAML values write it down. Its truth value
depends on an assignment to fields, function calls and operators.
-/
import Jupiter.Engine.Condition
import Jupiter.Mpl.Parser

namespace Jupiter.Mpl

open Jupiter.Go Jupiter.Engine

/-! ## Documents -/

/-- A condition of the specification. The operand of `not` is one condition, or an array of them. -/
inductive Document where
  | simple (field : String) (operator : Operator) (value : Value)
  | function (name : String) (args : List Value) (comparison : Option (Operator × Value))
  | all (children : List Document)
  | any (children : List Document)
  | not (operand : Document)
  | array (conditions : List Document)

/-- A value of one of the specification's types, as YAML decodes it: a date without quotes is decoded to a time. -/
def IsMplValue : Value → Prop
  | .nil | .string _ | .time _ | .int _ | .int64 _ | .uint64 _ | .float64 _ | .bool _ => True
  | .slice elem _ | .map elem _ => elem = "interface {}"
  | _ => False

/-- Integers and floating-point numbers are one type. -/
def numeral : Value → Value
  | .int n | .int64 n => .float64 n
  | .uint64 n => .float64 n
  | v => v

def OnlyKeys (keys : List String) (m : List (String × Value)) : Prop := ∀ e ∈ m, e.1 ∈ keys

def SpellsComparison (m : List (String × Value)) (op : Operator) (v : Value) : Prop :=
  (∃ s, m.lookup "operator" = some (.string s) ∧ Operator.ofString s = op) ∧
    m.lookup "value" = some v ∧ IsMplValue v

mutual

/-- The YAML values that write a document down. -/
def Spells : Value → Document → Prop
  | w, .simple field op v => ∃ m, w = .map "interface {}" m ∧ OnlyKeys ["field", "operator", "value"] m ∧
      m.lookup "field" = some (.string field) ∧ SpellsComparison m op v
  | w, .function name args comparison => ∃ m, w = .map "interface {}" m ∧
      OnlyKeys ["function", "args", "operator", "value"] m ∧ m.lookup "function" = some (.string name) ∧
      m.lookup "args" = some (.slice "interface {}" args) ∧ (∀ a ∈ args, IsMplValue a) ∧
      match comparison with
      | none => m.lookup "operator" = none ∧ m.lookup "value" = none
      | some (op, v) => SpellsComparison m op v
  | w, .all ds => ∃ m vs, w = .map "interface {}" m ∧ OnlyKeys ["all"] m ∧
      m.lookup "all" = some (.slice "interface {}" vs) ∧ SpellsEach vs ds
  | w, .any ds => ∃ m vs, w = .map "interface {}" m ∧ OnlyKeys ["any"] m ∧
      m.lookup "any" = some (.slice "interface {}" vs) ∧ SpellsEach vs ds
  | w, .not d => ∃ m v, w = .map "interface {}" m ∧ OnlyKeys ["not"] m ∧ m.lookup "not" = some v ∧ Spells v d
  | w, .array ds => ∃ vs, w = .slice "interface {}" vs ∧ SpellsEach vs ds

def SpellsEach : List Value → List Document → Prop
  | vs, [] => vs = []
  | vs, d :: ds => ∃ v rest, vs = v :: rest ∧ Spells v d ∧ SpellsEach rest ds

end

/-! ## Truth values -/

/-- The values of fields, the results of function calls, and the operators beyond equality. -/
structure Assignment where
  field : String → Value
  call : String → List Value → Value
  relates : Operator → Value → Value → Bool

namespace Assignment

variable (ρ : Assignment)

def compare (op : Operator) (a b : Value) : Bool :=
  match op with
  | .equal => a.deepEqual b
  | .notEqual => !a.deepEqual b
  | op => ρ.relates op a b

def simple (field : String) (op : Operator) (v : Value) : Bool := ρ.compare op (ρ.field field) v

/-- A function on its own is true when its result is. -/
def function (name : String) (args : List Value) : Bool := (ρ.call name args).deepEqual (.bool true)

end Assignment

mutual

/-- The truth value the specification gives a document. -/
def Document.truth (ρ : Assignment) : Document → Bool
  | .simple field op v => ρ.simple field op (numeral v)
  | .function name args none => ρ.function name (args.map numeral)
  | .function name args (some (op, v)) => ρ.compare op (ρ.call name (args.map numeral)) (numeral v)
  | .all ds => (Document.truths ρ ds).all id
  | .any ds => (Document.truths ρ ds).any id
  | .not d => !d.truth ρ
  | .array ds => (Document.truths ρ ds).all id

def Document.truths (ρ : Assignment) : List Document → List Bool
  | [] => []
  | d :: ds => d.truth ρ :: Document.truths ρ ds

end

mutual

/-- The truth value of a node, if every `not` in it has one child. -/
def ConditionNode.truth (ρ : Assignment) : ConditionNode → Option Bool
  | .simple field op v => some (ρ.simple field op v.value)
  | .function name args => some (ρ.function name (args.map ValueNode.value))
  | .all cs => (ConditionNode.truths ρ cs).map (·.all id)
  | .any cs => (ConditionNode.truths ρ cs).map (·.any id)
  | .not cs =>
    match ConditionNode.truths ρ cs with
    | some [b] => some !b
    | _ => none
  | .unknown _ => none

def ConditionNode.truths (ρ : Assignment) : List ConditionNode → Option (List Bool)
  | [] => some []
  | c :: cs =>
    match c.truth ρ, ConditionNode.truths ρ cs with
    | some b, some bs => some (b :: bs)
    | _, _ => none

end

/-! ## What the parser can read -/

/-- Not an integer above the range of `int64`, which YAML decodes to a `uint64`, and not a date. -/
def readable : Value → Bool
  | .uint64 _ | .time _ => false
  | _ => true

/-- An integer is read as the `float64` next to it. -/
def rounded : Value → Value
  | .int n | .int64 n => .float64 (Value.float64OfInt n)
  | v => v

mutual

/-- No empty array, every `not` with an array of one condition, every value of a type that is read. The comparison of
a function condition may be anything, as the parser does not look at it. -/
def Document.supported : Document → Bool
  | .simple _ _ v => readable v
  | .function _ args _ => args.all readable
  | .all ds => Document.supportedEach ds
  | .any ds => Document.supportedEach ds
  | .not (.array [d]) => d.supported
  | .not _ => false
  | .array [] => false
  | .array (d :: ds) => d.supported && Document.supportedEach ds

def Document.supportedEach : List Document → Bool
  | [] => true
  | d :: ds => d.supported && Document.supportedEach ds

end

mutual

/-- The document as the parser reads it: function conditions are bare functions, integers are rounded. -/
def Document.read : Document → Document
  | .simple field op v => .simple field op (rounded v)
  | .function name args _ => .function name (args.map rounded) none
  | .all ds => .all (Document.readEach ds)
  | .any ds => .any (Document.readEach ds)
  | .not d => .not d.read
  | .array ds => .array (Document.readEach ds)

def Document.readEach : List Document → List Document
  | [] => []
  | d :: ds => d.read :: Document.readEach ds

end

/-- Not an integer that has no `float64`. -/
def exact : Value → Bool
  | .int n | .int64 n => Value.float64OfInt n = n
  | _ => true

mutual

/-- No function condition has a comparison, and every integer has a `float64`. -/
def Document.literal : Document → Bool
  | .simple _ _ v => exact v
  | .function _ args comparison => args.all exact && comparison.isNone
  | .all ds => Document.literalEach ds
  | .any ds => Document.literalEach ds
  | .not d => d.literal
  | .array ds => Document.literalEach ds

def Document.literalEach : List Document → Bool
  | [] => true
  | d :: ds => d.literal && Document.literalEach ds

end

theorem numeral_rounded {v : Value} (h : exact v = true) : numeral (rounded v) = numeral v := by
  cases v with
  | int n | int64 n => exact congrArg Value.float64 (of_decide_eq_true h)
  | _ => rfl

mutual

theorem Document.truth_read (ρ : Assignment) : ∀ d : Document, d.literal = true → d.read.truth ρ = d.truth ρ
  | .simple field op v, h => by
    simp only [literal] at h
    simp only [read, truth, numeral_rounded h]
  | .function name args none, h => by
    simp only [literal, Option.isNone_none, Bool.and_true, List.all_eq_true] at h
    have hargs : (args.map rounded).map numeral = args.map numeral := by
      rw [List.map_map]
      exact List.map_congr_left fun a ha => numeral_rounded (h a ha)
    simp only [read, truth, hargs]
  | .function name args (some c), h => by simp [literal] at h
  | .all ds, h | .any ds, h | .array ds, h => by
    simp only [literal] at h
    simp only [read, truth, Document.truths_read ρ ds h]
  | .not d, h => by
    simp only [literal] at h
    simp only [read, truth, Document.truth_read ρ d h]

theorem Document.truths_read (ρ : Assignment) : ∀ ds : List Document, Document.literalEach ds = true →
    Document.truths ρ (Document.readEach ds) = Document.truths ρ ds
  | [], _ => rfl
  | d :: ds, h => by
    simp only [literalEach, Bool.and_eq_true] at h
    simp only [readEach, truths, Document.truth_read ρ d h.1, Document.truths_read ρ ds h.2]

end

/-! ## Leaves -/

theorem buildValueNode_of_readable {v : Value} (h : IsMplValue v) (hr : readable v = true) :
    ∃ n, buildValueNode v = .ok n ∧ n.value = numeral (rounded v) := by
  cases v with
  | string s =>
    by_cases hs : isVariableReference s = true
    · exact ⟨.variable s, by simp [buildValueNode, buildValue, hs], rfl⟩
    · exact ⟨.string s, by simp [buildValueNode, buildValue, hs], rfl⟩
  | slice elem items => cases h; exact ⟨_, rfl, rfl⟩
  | map elem entries => cases h; exact ⟨_, rfl, rfl⟩
  | uint64 n | time t => cases hr
  | nil | bool | int | int64 | float64 => exact ⟨_, rfl, rfl⟩
  | integer | duration | float32 | struct | ptr => exact absurd h id

theorem buildValueNode_of_not_readable {v : Value} (hr : readable v = false) :
    ∃ e, buildValueNode v = .error e := by
  cases v with
  | uint64 n | time t => exact ⟨_, rfl⟩
  | _ => cases hr

theorem buildArgs_of_readable : ∀ (i : Nat) {args : List Value}, (∀ a ∈ args, IsMplValue a) →
    args.all readable = true → ∃ ns, buildArgs i args = .ok ns ∧ ns.map ValueNode.value = (args.map rounded).map numeral
  | _, [], _, _ => ⟨[], rfl, rfl⟩
  | i, a :: args, h, hr => by
    simp only [List.all_cons, Bool.and_eq_true] at hr
    obtain ⟨n, hn, hv⟩ := buildValueNode_of_readable (h a List.mem_cons_self) hr.1
    obtain ⟨ns, hns, hvs⟩ := buildArgs_of_readable (i + 1) (fun x hx => h x (List.mem_cons_of_mem _ hx)) hr.2
    refine ⟨n :: ns, ?_, by rw [List.map_cons, List.map_cons, List.map_cons, hv, hvs]⟩
    simp only [buildArgs, hn, hns, Except.map]

theorem buildArgs_of_not_readable : ∀ (i : Nat) {args : List Value}, (∀ a ∈ args, IsMplValue a) →
    args.all readable = false → ∃ e, buildArgs i args = .error e
  | _, [], _, hr => by cases hr
  | i, a :: args, h, hr => by
    cases ha : readable a with
    | false =>
      obtain ⟨e, he⟩ := buildValueNode_of_not_readable ha
      exact ⟨"invalid argument at index " ++ i.repr ++ ": " ++ e, by simp only [buildArgs, he]⟩
    | true =>
      obtain ⟨n, hn, -⟩ := buildValueNode_of_readable (h a List.mem_cons_self) ha
      simp only [List.all_cons, ha, Bool.true_and] at hr
      obtain ⟨e, he⟩ := buildArgs_of_not_readable (i + 1) (fun x hx => h x (List.mem_cons_of_mem _ hx)) hr
      exact ⟨e, by simp only [buildArgs, hn, he, Except.map]⟩

theorem lookup_eq_none_of_onlyKeys {keys : List String} {m : List (String × Value)} (h : OnlyKeys keys m)
    {key : String} (hk : key ∉ keys) : m.lookup key = none := by
  rw [List.lookup_eq_none_iff]
  intro e he
  exact bne_iff_ne.2 fun heq => hk (heq ▸ h e he)

/-! ## Trees -/

section Trees

variable (ρ : Assignment)

/-- The truth value of what the parser returned, if it returned a node that has one. -/
def meaning : Except String ConditionNode → Option Bool
  | .ok n => n.truth ρ
  | .error _ => none

def meanings : Except String (List ConditionNode) → Option (List Bool)
  | .ok ns => ConditionNode.truths ρ ns
  | .error _ => none

theorem meaning_all (r : Except String (List ConditionNode)) :
    meaning ρ (r.map .all) = (meanings ρ r).map (·.all id) := by
  cases r with
  | error e => rfl
  | ok ns => simp only [Except.map, meaning, meanings, ConditionNode.truth]

theorem meaning_any (r : Except String (List ConditionNode)) :
    meaning ρ (r.map .any) = (meanings ρ r).map (·.any id) := by
  cases r with
  | error e => rfl
  | ok ns => simp only [Except.map, meaning, meanings, ConditionNode.truth]

theorem meaning_not (r : Except String (List ConditionNode)) :
    meaning ρ (r.map .not) = match meanings ρ r with
      | some [b] => some !b
      | _ => none := by
  cases r with
  | error e => rfl
  | ok ns => simp only [Except.map, meaning, meanings, ConditionNode.truth]

theorem meanings_cons (context : String) (i : Nat) (v : Value) (vs : List Value) :
    meanings ρ (buildChildren context i (v :: vs)) =
      match meaning ρ (buildConditions v), meanings ρ (buildChildren context (i + 1) vs) with
      | some b, some bs => some (b :: bs)
      | _, _ => none := by
  rw [buildChildren]
  cases buildConditions v with
  | error e => rfl
  | ok n =>
    cases buildChildren context (i + 1) vs with
    | error e => simp only [Except.map, meaning, meanings]; cases n.truth ρ <;> rfl
    | ok ns => simp only [Except.map, meaning, meanings, ConditionNode.truths]

theorem buildConditions_map (m : List (String × Value)) :
    buildConditions (.map "interface {}" m) =
      match m.lookup "all", m.lookup "any", m.lookup "not", m.lookup "function" with
      | some v, _, _, _ => buildLogicalCondition .all v
      | none, some v, _, _ => buildLogicalCondition .any v
      | none, none, some v, _ => buildLogicalCondition .not v
      | none, none, none, some fn => buildFunctionCondition fn m
      | none, none, none, none => buildSimpleCondition m := by
  simp only [buildConditions, buildConditionMap, buildLogicalAt_eq]
  rcases m.lookup "all" with _ | _
  · rcases m.lookup "any" with _ | _
    · rcases m.lookup "not" with _ | _
      · rcases m.lookup "function" with _ | _ <;> rfl
      · rfl
    · rfl
  · rfl

theorem meaning_simple {m : List (String × Value)} {field : String} {op : Operator} {v : Value}
    (hf : m.lookup "field" = some (.string field)) (hc : SpellsComparison m op v) :
    meaning ρ (buildSimpleCondition m) =
      if readable v = true then some (ρ.simple field op (numeral (rounded v))) else none := by
  obtain ⟨⟨s, hs, rfl⟩, hv, htype⟩ := hc
  simp only [buildSimpleCondition, stringAt, hf, hs, hv, Option.getD_some]
  cases hr : readable v with
  | true =>
    obtain ⟨n, hn, hval⟩ := buildValueNode_of_readable htype hr
    simp only [hn, meaning, ConditionNode.truth, hval, if_true]
  | false =>
    obtain ⟨e, he⟩ := buildValueNode_of_not_readable hr
    simp only [he, meaning]
    rfl

theorem meaning_function {m : List (String × Value)} {name : String} {args : List Value}
    (ha : m.lookup "args" = some (.slice "interface {}" args)) (htypes : ∀ a ∈ args, IsMplValue a) :
    meaning ρ (buildFunctionCondition (.string name) m) =
      if args.all readable = true then some (ρ.function name ((args.map rounded).map numeral)) else none := by
  simp only [buildFunctionCondition, ha]
  cases hr : args.all readable with
  | true =>
    obtain ⟨ns, hns, hvals⟩ := buildArgs_of_readable 0 htypes hr
    simp only [hns, Except.map, meaning, ConditionNode.truth, hvals, if_true]
  | false =>
    obtain ⟨e, he⟩ := buildArgs_of_not_readable 0 htypes hr
    simp only [he, Except.map, meaning]
    rfl

theorem buildLogicalCondition_of_map (node : List ConditionNode → ConditionNode) (m : List (String × Value)) :
    meaning ρ (buildLogicalCondition node (.map "interface {}" m)) = none := by
  simp only [buildLogicalCondition, meaning]

mutual

/-- What the parser makes of a document has the truth value of the document as it is read, or none when the document is
not supported. -/
theorem meaning_buildConditions : ∀ {v : Value} (d : Document), Spells v d →
    meaning ρ (buildConditions v) = if d.supported = true then some (d.read.truth ρ) else none
  | _, .simple field op v, h => by
    simp only [Spells] at h
    obtain ⟨m, rfl, hk, hf, hc⟩ := h
    rw [buildConditions_map, lookup_eq_none_of_onlyKeys hk (by decide), lookup_eq_none_of_onlyKeys hk (by decide),
      lookup_eq_none_of_onlyKeys hk (by decide), lookup_eq_none_of_onlyKeys hk (by decide)]
    simp only [meaning_simple ρ hf hc, Document.supported, Document.read, Document.truth]
  | _, .function name args comparison, h => by
    simp only [Spells] at h
    obtain ⟨m, rfl, hk, hf, ha, htypes, -⟩ := h
    rw [buildConditions_map, lookup_eq_none_of_onlyKeys hk (by decide), lookup_eq_none_of_onlyKeys hk (by decide),
      lookup_eq_none_of_onlyKeys hk (by decide), hf]
    simp only [meaning_function ρ ha htypes, Document.supported, Document.read, Document.truth]
  | _, .all ds, h => by
    simp only [Spells] at h
    obtain ⟨m, vs, rfl, hk, hl, hs⟩ := h
    rw [buildConditions_map, hl]
    simp only [buildLogicalCondition, meaning_all, meanings_buildChildren _ 0 ds hs, Document.supported,
      Document.read, Document.truth]
    split <;> rfl
  | _, .any ds, h => by
    simp only [Spells] at h
    obtain ⟨m, vs, rfl, hk, hl, hs⟩ := h
    rw [buildConditions_map, lookup_eq_none_of_onlyKeys hk (by decide), hl]
    simp only [buildLogicalCondition, meaning_any, meanings_buildChildren _ 0 ds hs, Document.supported,
      Document.read, Document.truth]
    split <;> rfl
  | _, .not d, h => by
    simp only [Spells] at h
    obtain ⟨m, v, rfl, hk, hl, hs⟩ := h
    rw [buildConditions_map, lookup_eq_none_of_onlyKeys hk (by decide), lookup_eq_none_of_onlyKeys hk (by decide), hl]
    exact meaning_buildNot d hs
  | _, .array [], h => by
    simp only [Spells, SpellsEach] at h
    obtain ⟨vs, rfl, rfl⟩ := h
    simp only [buildConditions, meaning, Document.supported]
    rfl
  | _, .array [d], h => by
    -- an array of one condition is that condition
    simp only [Spells, SpellsEach] at h
    obtain ⟨vs, rfl, v, rest, rfl, hv, rfl⟩ := h
    simp only [buildConditions, meaning_buildConditions d hv, Document.supported, Document.supportedEach,
      Document.read, Document.readEach, Document.truth, Document.truths, List.all_cons, List.all_nil, id_eq,
      Bool.and_true]
  | _, .array (d :: d' :: ds), h => by
    simp only [Spells] at h
    obtain ⟨vs, rfl, hs⟩ := h
    have hkept := meanings_buildChildren "invalid condition at index " 0 (d :: d' :: ds) hs
    simp only [SpellsEach] at hs
    obtain ⟨v, -, rfl, -, v', rest, rfl, -⟩ := hs
    have hsupported : (Document.array (d :: d' :: ds)).supported = Document.supportedEach (d :: d' :: ds) := by
      simp only [Document.supported, Document.supportedEach]
    simp only [buildConditions, meaning_all, hkept, hsupported, Document.read, Document.truth]
    split <;> rfl

theorem meaning_buildNot : ∀ {v : Value} (d : Document), Spells v d →
    meaning ρ (buildLogicalCondition .not v) =
      if (Document.not d).supported = true then some ((Document.not d).read.truth ρ) else none
  | _, .array [], h => by
    simp only [Spells] at h
    obtain ⟨vs, rfl, hs⟩ := h
    simp only [buildLogicalCondition, meaning_not, meanings_buildChildren _ 0 [] hs, Document.supportedEach,
      Document.readEach, Document.truths, if_true, Document.supported]
    rfl
  | _, .array [d], h => by
    simp only [Spells] at h
    obtain ⟨vs, rfl, hs⟩ := h
    simp only [buildLogicalCondition, meaning_not, meanings_buildChildren _ 0 [d] hs, Document.supportedEach,
      Document.readEach, Document.truths, Document.supported, Bool.and_true, Document.read, Document.truth,
      List.all_cons, List.all_nil, id_eq]
    cases d.supported <;> rfl
  | _, .array (d :: d' :: ds), h => by
    -- the node is built, but a `not` with several children has no truth value
    simp only [Spells] at h
    obtain ⟨vs, rfl, hs⟩ := h
    simp only [buildLogicalCondition, meaning_not, meanings_buildChildren _ 0 (d :: d' :: ds) hs,
      Document.readEach, Document.truths, Document.supported]
    cases Document.supportedEach (d :: d' :: ds) <;> rfl
  | _, .simple _ _ _, h
  | _, .function _ _ _, h => by
    simp only [Spells] at h
    obtain ⟨m, rfl, -⟩ := h
    exact buildLogicalCondition_of_map ρ .not m
  | _, .all _, h
  | _, .any _, h
  | _, .not _, h => by
    simp only [Spells] at h
    obtain ⟨m, -, rfl, -⟩ := h
    exact buildLogicalCondition_of_map ρ .not m

theorem meanings_buildChildren (context : String) : ∀ (i : Nat) {vs : List Value} (ds : List Document),
    SpellsEach vs ds → meanings ρ (buildChildren context i vs) =
      if Document.supportedEach ds = true then some (Document.truths ρ (Document.readEach ds)) else none
  | _, _, [], h => by
    simp only [SpellsEach] at h
    subst h
    simp only [buildChildren, meanings, ConditionNode.truths, Document.supportedEach, Document.readEach,
      Document.truths, if_true]
  | i, _, d :: ds, h => by
    simp only [SpellsEach] at h
    obtain ⟨v, rest, rfl, hv, hrest⟩ := h
    rw [meanings_cons, meaning_buildConditions d hv, meanings_buildChildren context (i + 1) ds hrest]
    simp only [Document.supportedEach, Document.readEach, Document.truths]
    cases d.supported <;> cases Document.supportedEach ds <;> rfl

end

end Trees

/-! ## The engine -/

section Engine

variable {rt : Runtime} {matcher : DefaultMatcher} {ctx : EvaluationContext} {ρ : Assignment}

mutual

/-- The engine answers the leaves of a node as the assignment does. -/
def Answers (rt : Runtime) (matcher : DefaultMatcher) (ctx : EvaluationContext) (ρ : Assignment) :
    ConditionNode → Prop
  | .simple field op v => matcher.matchSimple rt field op v ctx = .ok (ρ.simple field op v.value)
  | .function name args => matcher.matchFunction rt name ctx = .ok (ρ.function name (args.map ValueNode.value))
  | .all cs => AnswersEach rt matcher ctx ρ cs
  | .any cs => AnswersEach rt matcher ctx ρ cs
  | .not cs => AnswersEach rt matcher ctx ρ cs
  | .unknown _ => True

def AnswersEach (rt : Runtime) (matcher : DefaultMatcher) (ctx : EvaluationContext) (ρ : Assignment) :
    List ConditionNode → Prop
  | [] => True
  | c :: cs => Answers rt matcher ctx ρ c ∧ AnswersEach rt matcher ctx ρ cs

end

theorem truths_cons_eq_some {c : ConditionNode} {cs : List ConditionNode} {bs : List Bool}
    (h : ConditionNode.truths ρ (c :: cs) = some bs) :
    ∃ b rest, c.truth ρ = some b ∧ ConditionNode.truths ρ cs = some rest ∧ bs = b :: rest := by
  simp only [ConditionNode.truths] at h
  split at h
  next b rest hb hrest => exact ⟨b, rest, hb, hrest, (Option.some.inj h).symm⟩
  next => cases h

theorem length_of_truths {cs : List ConditionNode} {bs : List Bool} (h : ConditionNode.truths ρ cs = some bs) :
    bs.length = cs.length := by
  induction cs generalizing bs with
  | nil => cases h; rfl
  | cons c cs ih =>
    obtain ⟨b, rest, -, hrest, rfl⟩ := truths_cons_eq_some h
    rw [List.length_cons, List.length_cons, ih hrest]

theorem values_of_truths {cs : List ConditionNode}
    (ih : ∀ c ∈ cs, ∀ {b : Bool}, Answers rt matcher ctx ρ c → c.truth ρ = some b → matcher.eval rt ctx c = .ok b)
    {bs : List Bool} (ha : AnswersEach rt matcher ctx ρ cs) (h : ConditionNode.truths ρ cs = some bs) :
    List.Forall₂ (fun c b => matcher.eval rt ctx c = .ok b) cs bs := by
  induction cs generalizing bs with
  | nil =>
    simp only [ConditionNode.truths, Option.some.injEq] at h
    exact h ▸ .nil
  | cons c cs ihs =>
    obtain ⟨b, rest, hb, hrest, rfl⟩ := truths_cons_eq_some h
    exact .cons (ih c List.mem_cons_self ha.1 hb) (ihs (fun c hc => ih c (List.mem_cons_of_mem _ hc)) ha.2 hrest)

theorem eval_of_truth (n : ConditionNode) {b : Bool} (ha : Answers rt matcher ctx ρ n)
    (h : n.truth ρ = some b) : matcher.eval rt ctx n = .ok b := by
  induction n using DefaultMatcher.condition_induction generalizing b with
  | simple | function =>
    simp only [ConditionNode.truth, Option.some.injEq] at h
    simp only [DefaultMatcher.eval, ← h]
    exact ha
  | group cs ih =>
    simp only [ConditionNode.truth, Option.map_eq_some_iff, DefaultMatcher.eval_all, DefaultMatcher.eval_any]
    constructor
    all_goals rintro b ha ⟨bs, hbs, rfl⟩
    · exact (matcher.evalWhile_of_values rt ctx (values_of_truths ih ha hbs)).1
    · exact (matcher.evalWhile_of_values rt ctx (values_of_truths ih ha hbs)).2
  | single c ih =>
    simp only [ConditionNode.truth, ConditionNode.truths] at h
    cases hc : c.truth ρ with
    | none => rw [hc] at h; cases h
    | some b' =>
      rw [hc] at h
      cases h
      simp only [DefaultMatcher.eval, ih ha.1 hc, Except.map]
  | other cs hc =>
    simp only [ConditionNode.truth] at h
    split at h
    next hbs => exact absurd (length_of_truths hbs).symm hc
    next => cases h
  | unknown _ =>
    simp only [ConditionNode.truth] at h
    cases h

end Engine

/-! ## The meaning of a document -/

/-- The parser keeps the meaning of a document that it supports and reads as it stands, and of no document that it does
not support. -/
theorem buildConditions_keeps_meaning (v : Value) (d : Document) (h : Spells v d) :
    (d.supported = true ∧ d.literal = true → ∃ n, buildConditions v = .ok n ∧ ∀ ρ, n.truth ρ = some (d.truth ρ)) ∧
      ((∃ n, buildConditions v = .ok n ∧ ∀ ρ, n.truth ρ = some (d.truth ρ)) → d.supported = true) := by
  have hkept := fun ρ => meaning_buildConditions ρ d h
  constructor
  · rintro ⟨hs, hl⟩
    have htruth : ∀ ρ, meaning ρ (buildConditions v) = some (d.truth ρ) := by
      intro ρ
      rw [hkept ρ, if_pos hs, d.truth_read ρ hl]
    cases hn : buildConditions v with
    | error e =>
      have hnone := htruth ⟨fun _ => .nil, fun _ _ => .nil, fun _ _ _ => false⟩
      rw [hn] at hnone
      cases hnone
    | ok n =>
      refine ⟨n, rfl, fun ρ => ?_⟩
      rw [← htruth ρ, hn]
      rfl
  · rintro ⟨n, hn, htruth⟩
    by_contra hs
    have hnone := hkept ⟨fun _ => .nil, fun _ _ => .nil, fun _ _ _ => false⟩
    rw [if_neg hs, hn, meaning, htruth] at hnone
    cases hnone

def modelIsGpt4 : Value :=
  .map "interface {}" [("field", .string "request.model"), ("operator", .string "=="), ("value", .string "gpt-4")]

theorem spells_modelIsGpt4 : Spells modelIsGpt4 (.simple "request.model" .equal (.string "gpt-4")) := by
  simp only [Spells]
  exact ⟨_, rfl, by simp [OnlyKeys], rfl, ⟨"==", rfl, rfl⟩, rfl, trivial⟩

theorem buildConditions_keeps_meaning_of_one :
    ∃ n, buildConditions (.slice "interface {}" [modelIsGpt4]) = .ok n ∧
      ∀ ρ, n.truth ρ = some (Document.truth ρ (.array [.simple "request.model" .equal (.string "gpt-4")])) := by
  refine (buildConditions_keeps_meaning _ _ ?_).1 ⟨rfl, rfl⟩
  simp only [Spells, SpellsEach]
  exact ⟨_, rfl, _, _, rfl, spells_modelIsGpt4, rfl⟩

def manyMessages : Value :=
  .map "interface {}" [("function", .string "len"), ("args", .slice "interface {}" [.string "request.messages"]),
    ("operator", .string ">"), ("value", .int 10)]

def manyMessagesDocument : Document :=
  .function "len" [.string "request.messages"] (some (.greaterThan, .int 10))

theorem spells_manyMessages : Spells manyMessages manyMessagesDocument := by
  simp only [manyMessagesDocument, Spells]
  exact ⟨_, rfl, by simp [OnlyKeys], rfl, rfl, by simp [IsMplValue], ⟨">", rfl, rfl⟩, rfl, trivial⟩

def twelveMessages : Assignment where
  field _ := .nil
  call _ _ := .float64 12
  relates op _ _ := decide (op = .greaterThan)

/-- Three documents of the specification: the empty array, which matches all requests, and the negation of one
condition are refused; of a function with a comparison the comparison is lost. -/
theorem documents_lost :
    (Spells (.slice "interface {}" []) (.array []) ∧
      buildConditions (.slice "interface {}" []) = .error "empty condition array") ∧
    (Spells (.map "interface {}" [("not", modelIsGpt4)]) (.not (.simple "request.model" .equal (.string "gpt-4"))) ∧
      buildConditions (.map "interface {}" [("not", modelIsGpt4)]) =
        .error "logical operator must have array of children") ∧
    (Spells manyMessages manyMessagesDocument ∧
      buildConditions manyMessages = .ok (.function "len" [.string "request.messages"]) ∧
      manyMessagesDocument.truth twelveMessages = true ∧
      ConditionNode.truth twelveMessages (.function "len" [.string "request.messages"]) = some false) := by
  refine ⟨⟨?_, rfl⟩, ⟨?_, rfl⟩, spells_manyMessages, rfl, by decide +kernel, by decide +kernel⟩
  · simp only [Spells, SpellsEach]
    exact ⟨_, rfl, rfl⟩
  · have h := spells_modelIsGpt4
    simp only [Spells] at h ⊢
    exact ⟨_, _, rfl, by simp [OnlyKeys], rfl, h⟩

end Jupiter.Mpl
