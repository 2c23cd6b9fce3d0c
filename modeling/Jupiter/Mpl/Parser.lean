/-
`pkg/mpl/parser/builder.go`: from what YAML decodes to, to condition nodes. A mapping is read by key lookups
in a fixed order (`all`, `any`, `not`, `function`, then `field`), so entries under other keys are dropped.

`buildLogicalAt` is a lookup and `buildLogicalCondition` of what it finds in one recursion, so that the
builder is structural on the value. An error is its text. Source locations are left out.
-/
import Jupiter.Mpl.Ast

namespace Jupiter.Mpl

open Jupiter.Go

/-- The conversion `ast.Operator(s)`. -/
def Operator.ofString : String → Operator
  | "==" => .equal
  | "!=" => .notEqual
  | "<" => .lessThan
  | ">" => .greaterThan
  | "<=" => .lessEqual
  | ">=" => .greaterEqual
  | "contains" => .contains
  | "matches" => .matches
  | "starts_with" => .startsWith
  | "ends_with" => .endsWith
  | "in" => .isIn
  | "not_in" => .notIn
  | s => .unknown s

/-! ## Leaves -/

/-- `m[key].(string)`. -/
def stringAt (m : List (String × Value)) (key : String) : Option String :=
  match m.lookup key with
  | some (.string s) => some s
  | _ => none

def buildValueNode (v : Value) : Except String ValueNode :=
  match buildValue v with
  | some n => .ok n
  | none => .error ("unsupported value type: " ++ v.typeName)

def buildSimpleCondition (m : List (String × Value)) : Except String ConditionNode :=
  match stringAt m "field" with
  | none => .error "missing or invalid 'field'"
  | some field =>
    match stringAt m "operator" with
    | none => .error "missing or invalid 'operator'"
    | some operator =>
      match buildValueNode ((m.lookup "value").getD .nil) with
      | .error e => .error ("invalid value: " ++ e)
      | .ok value => .ok (.simple field (.ofString operator) value)

def buildArgs (i : Nat) : List Value → Except String (List ValueNode)
  | [] => .ok []
  | arg :: rest =>
    match buildValueNode arg with
    | .error e => .error ("invalid argument at index " ++ i.repr ++ ": " ++ e)
    | .ok n => (buildArgs (i + 1) rest).map (n :: ·)

/-- The entries under `operator` and `value` are not looked at. -/
def buildFunctionCondition (fn : Value) (m : List (String × Value)) : Except String ConditionNode :=
  match fn with
  | .string name =>
    match m.lookup "args" with
    | none => .ok (.function name [])
    | some (.slice "interface {}" args) => (buildArgs 0 args).map (.function name)
    | some _ => .error "function args must be an array"
  | _ => .error "function name must be a string"

/-! ## Trees -/

/-- A logical operator is the constructor of its node. `logical` builds the entry under a key, if any. -/
def buildConditionMap
    (logical : String → (List ConditionNode → ConditionNode) → Option (Except String ConditionNode))
    (m : List (String × Value)) : Except String ConditionNode :=
  match logical "all" .all with
  | some r => r
  | none =>
    match logical "any" .any with
    | some r => r
    | none =>
      match logical "not" .not with
      | some r => r
      | none =>
        match m.lookup "function" with
        | some fn => buildFunctionCondition fn m
        | none => buildSimpleCondition m

mutual

def buildConditions : Value → Except String ConditionNode
  | .map "interface {}" m => buildConditionMap (fun key node => buildLogicalAt node key m) m
  | .slice "interface {}" [] => .error "empty condition array"
  | .slice "interface {}" [c] => buildConditions c
  | .slice "interface {}" arr => (buildChildren "invalid condition at index " 0 arr).map .all
  | v => .error ("invalid condition type: " ++ v.typeName)

def buildLogicalCondition (node : List ConditionNode → ConditionNode) : Value → Except String ConditionNode
  | .slice "interface {}" children =>
    (buildChildren "invalid child condition at index " 0 children).map node
  | _ => .error "logical operator must have array of children"

def buildLogicalAt (node : List ConditionNode → ConditionNode) (key : String) :
    List (String × Value) → Option (Except String ConditionNode)
  | [] => none
  | (k, v) :: m => if key == k then some (buildLogicalCondition node v) else buildLogicalAt node key m

def buildChildren (context : String) (i : Nat) : List Value → Except String (List ConditionNode)
  | [] => .ok []
  | c :: rest =>
    match buildConditions c with
    | .error e => .error (context ++ i.repr ++ ": " ++ e)
    | .ok n => (buildChildren context (i + 1) rest).map (n :: ·)

end

/-- `buildLogicalAt` is the lookup followed by `buildLogicalCondition`. -/
theorem buildLogicalAt_eq (node : List ConditionNode → ConditionNode) (key : String) :
    ∀ m : List (String × Value), buildLogicalAt node key m = (m.lookup key).map (buildLogicalCondition node)
  | [] => by simp [buildLogicalAt]
  | (k, v) :: m => by
    simp only [buildLogicalAt, List.lookup_cons, buildLogicalAt_eq node key m]
    cases key == k <;> rfl

end Jupiter.Mpl
