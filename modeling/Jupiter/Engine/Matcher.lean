/-
`operators.go` and `matcher.go`: the operators on dynamic values and the evaluation of condition trees.

`Match` reads the clock through its context in two places, before each child of `all` and `any`. Whether
the context is done there is an oracle `done` over positions (the path of child numbers from the root,
innermost first), so that a statement about every `done` is about every timing.
-/
import Jupiter.Engine.Field

namespace Jupiter.Engine

open Jupiter.Go Jupiter.Mpl Jupiter.Processing

/-! ## Operators -/

/-- `convertToFloat64`; a `time.Duration` is no `int64` to a type switch. -/
def convertToFloat64 : Value → Option ℚ
  | .float64 q | .float32 q => some q
  | .int n | .int64 n | .integer _ n => some (Value.float64OfInt n)
  | .uint64 n => some (Value.float64OfInt n)
  | _ => none

/-- `toString`: never fails, as the last resort is `fmt.Sprint`. -/
def toString (rt : Runtime) : Value → Option String
  | .string s => some s
  | v => some (rt.sprint v)

def toNumeric (actual expected : Value) : Except OperatorError (ℚ × ℚ) :=
  match convertToFloat64 actual, convertToFloat64 expected with
  | none, _ => .error (.actualNotNumeric actual.typeName)
  | some _, none => .error (.expectedNotNumeric expected.typeName)
  | some a, some e => .ok (a, e)

def evaluateEqual (actual expected : Value) : Bool :=
  if actual.isNil && expected.isNil then true
  else if actual.isNil || expected.isNil then false
  else match convertToFloat64 actual, convertToFloat64 expected with
    | some a, some e => decide (a = e)
    | _, _ => actual.deepEqual expected

def evaluateOrder (holds : ℚ → ℚ → Bool) (actual expected : Value) : Except OperatorError Bool :=
  (toNumeric actual expected).map fun (a, e) => holds a e

def evaluateLessThan := evaluateOrder fun a e => decide (a < e)
def evaluateGreaterThan := evaluateOrder fun a e => decide (a > e)
def evaluateLessEqual := evaluateOrder fun a e => decide (a ≤ e)
def evaluateGreaterEqual := evaluateOrder fun a e => decide (a ≥ e)

def containsElement (slice elem : Value) : Except OperatorError Bool :=
  match slice with
  | .slice _ items => .ok (items.any (·.deepEqual elem))
  | v => .error (.containsNotList v.kind)

def evaluateContains (rt : Runtime) (actual expected : Value) : Except OperatorError Bool :=
  match toString rt actual, toString rt expected with
  | none, _ => containsElement actual expected
  | some _, none => .error (.notText .contains)
  | some a, some e => .ok (Strings.contains a e)

def evaluateMatches (rt : Runtime) (actual expected : Value) : Except OperatorError Bool :=
  match toString rt actual, expected with
  | none, _ => .error (.notText .matches)
  | some a, .string pattern =>
    match rt.regexpCompile pattern with
    | some isMatch => .ok (isMatch a)
    | none => .error (.invalidPattern pattern)
  | some _, _ => .error .patternNotString

def evaluateEnd (rt : Runtime) (op : Operator) (holds : String → String → Bool)
    (actual expected : Value) : Except OperatorError Bool :=
  match toString rt actual, toString rt expected with
  | some a, some e => .ok (holds a e)
  | _, _ => .error (.notText op)

def evaluateStartsWith (rt : Runtime) := evaluateEnd rt .startsWith Strings.startsWith
def evaluateEndsWith (rt : Runtime) := evaluateEnd rt .endsWith Strings.endsWith

def evaluateIn (actual expected : Value) : Except OperatorError Bool :=
  match expected with
  | .slice _ items => .ok (items.any actual.deepEqual)
  | v => .error (.inNotList v.kind)

def evaluateOperator (rt : Runtime) (op : Operator) (actual expected : Value) :
    Except OperatorError Bool :=
  match op with
  | .equal => .ok (evaluateEqual actual expected)
  | .notEqual => .ok (!evaluateEqual actual expected)
  | .lessThan => evaluateLessThan actual expected
  | .greaterThan => evaluateGreaterThan actual expected
  | .lessEqual => evaluateLessEqual actual expected
  | .greaterEqual => evaluateGreaterEqual actual expected
  | .contains => evaluateContains rt actual expected
  | .matches => evaluateMatches rt actual expected
  | .startsWith => evaluateStartsWith rt actual expected
  | .endsWith => evaluateEndsWith rt actual expected
  | .isIn => evaluateIn actual expected
  | .notIn => (evaluateIn actual expected).map (!·)
  | .unknown s => .error (.unknownOperator s)

/-! ## Conditions -/

structure DefaultMatcher where
  businessHours : Option BusinessHoursConfig
  failSafeMode : FailSafeMode

def newDefaultMatcher (config : EngineConfig) : DefaultMatcher :=
  { businessHours := config.businessHours, failSafeMode := config.failSafeMode }

namespace DefaultMatcher

variable (rt : Runtime) (m : DefaultMatcher)

def matchSimple (field : String) (op : Operator) (value : ValueNode) (ctx : EvaluationContext) :
    Except MatchError Bool :=
  match extractField field ctx with
  | none =>
    match m.failSafeMode with
    | .failOpen => .ok true
    | .failClosed => .error (.fieldNotFound field)
    | .failSafeDefault => .ok false
    | .unknown _ => .ok false
  | some actual => (evaluateOperator rt op actual value.value).mapError (.operator op)

def hasPII (ctx : EvaluationContext) : Bool :=
  match ctx.request.bind (·.contentAnalysis) with
  | some a => (a.piiDetection.map (·.hasPII)).getD false
  | none => false

def hasInjection (ctx : EvaluationContext) : Bool :=
  match ctx.request.bind (·.contentAnalysis) with
  | some a => (a.promptInjection.map (·.hasPromptInjection)).getD false
  | none => false

/-- The time is the context's `StartTime`, which is set whenever an evaluation starts. -/
def inBusinessHours (ctx : EvaluationContext) : Bool :=
  match m.businessHours with
  | none => true
  | some c => c.isBusinessHours rt ctx.startTime

/-- The arguments of a function are not looked at. -/
def matchFunction (name : String) (ctx : EvaluationContext) : Except MatchError Bool :=
  match name with
  | "has_pii" => .ok (hasPII ctx)
  | "has_injection" => .ok (hasInjection ctx)
  | "in_business_hours" => .ok (m.inBusinessHours rt ctx)
  | _ => .error (.unknownFunction name)

mutual

def matchNode (done : List Nat → Bool) (at_ : List Nat) (ctx : EvaluationContext) :
    ConditionNode → Except MatchError Bool
  | .simple field op value => m.matchSimple rt field op value ctx
  | .all children => matchAll done at_ ctx 0 children
  | .any children => matchAny done at_ ctx 0 children
  | .not [child] => (matchNode done (0 :: at_) ctx child).map (!·)
  | .not children => .error (.notChildren children.length)
  | .function name _ => m.matchFunction rt name ctx
  | .unknown type => .error (.unknownConditionType type)

def matchAll (done : List Nat → Bool) (at_ : List Nat) (ctx : EvaluationContext) (i : Nat) :
    List ConditionNode → Except MatchError Bool
  | [] => .ok true
  | child :: rest =>
    if done (i :: at_) then .error .cancelled
    else match matchNode done (i :: at_) ctx child with
      | .error e => .error e
      | .ok false => .ok false
      | .ok true => matchAll done at_ ctx (i + 1) rest

def matchAny (done : List Nat → Bool) (at_ : List Nat) (ctx : EvaluationContext) (i : Nat) :
    List ConditionNode → Except MatchError Bool
  | [] => .ok false
  | child :: rest =>
    if done (i :: at_) then .error .cancelled
    else match matchNode done (i :: at_) ctx child with
      | .error e => .error e
      | .ok true => .ok true
      | .ok false => matchAny done at_ ctx (i + 1) rest

end

/-- `Match`: no condition always matches. -/
def matchCondition (done : List Nat → Bool) (ctx : EvaluationContext) (condition : Option ConditionNode) :
    Except MatchError Bool :=
  match condition with
  | none => .ok true
  | some c => m.matchNode rt done [] ctx c

end DefaultMatcher

end Jupiter.Engine
