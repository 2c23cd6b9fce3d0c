/-
`pkg/mpl/ast`. A Go map is a list of its entries in the order a `range` visits them.

A condition node is one of the five shapes its `Type` selects, with the fields that shape uses; `unknown` stands for any
other type string. A value node is what `builder.buildValue` makes of a YAML value, so its `Type` and its dynamic value
always agree, and the name of a variable reference is a function of its text.
-/
import Jupiter.Go.Value

namespace Jupiter.Mpl

open Jupiter.Go

/-! ## Values -/

inductive ValueType where
  | string | number | boolean | array | object | variable | null
  deriving DecidableEq, Repr

inductive ValueNode where
  | null
  | string (s : String)
  | number (q : ℚ)
  | boolean (b : Bool)
  | array (items : List Value)
  | object (entries : List (String × Value))
  | variable (text : String)

def isVariableReference (s : String) : Bool :=
  decide (4 < s.toList.length) && Strings.startsWith s "\x7b\x7b" && Strings.endsWith s "\x7d\x7d"

/-- `trimSpaces` of the parser: only the space character is trimmed. -/
def trimSpaces (cs : List Char) : List Char :=
  ((cs.dropWhile (· = ' ')).reverse.dropWhile (· = ' ')).reverse

def extractVariableName (s : String) : String :=
  let cs := s.toList
  let inner := trimSpaces ((cs.drop 2).take (cs.length - 4))
  if 10 < inner.length ∧ "variables.".toList.isPrefixOf inner then String.ofList (inner.drop 10)
  else String.ofList inner

namespace ValueNode

def type : ValueNode → ValueType
  | .null => .null
  | .string _ => .string
  | .number _ => .number
  | .boolean _ => .boolean
  | .array _ => .array
  | .object _ => .object
  | .variable _ => .variable

/-- The `Value` field: a reference holds its own text. -/
def value : ValueNode → Value
  | .null => .nil
  | .string s => .string s
  | .number q => .float64 q
  | .boolean b => .bool b
  | .array items => .list items
  | .object entries => .object entries
  | .variable text => .string text

/-- The `VariableName` field, set on references only. -/
def variableName : ValueNode → String
  | .variable text => extractVariableName text
  | _ => ""

end ValueNode

/-- `builder.buildValue` on what YAML decodes to; other dynamic types are refused. -/
def buildValue : Value → Option ValueNode
  | .nil => some .null
  | .string s => some (if isVariableReference s then .variable s else .string s)
  | .int n | .int64 n => some (.number (Value.float64OfInt n))
  | .float64 q => some (.number q)
  | .bool b => some (.boolean b)
  | .slice "interface {}" items => some (.array items)
  | .map "interface {}" entries => some (.object entries)
  | _ => none

/-! ## Conditions -/

inductive Operator where
  | equal | notEqual | lessThan | greaterThan | lessEqual | greaterEqual
  | contains | matches | startsWith | endsWith | isIn | notIn
  | unknown (s : String)
  deriving DecidableEq, Repr

inductive ConditionNode where
  | simple (field : String) (operator : Operator) (value : ValueNode)
  | all (children : List ConditionNode)
  | any (children : List ConditionNode)
  | not (children : List ConditionNode)
  | function (name : String) (args : List ValueNode)
  | unknown (type : String)

/-! ## Actions -/

inductive ActionType where
  | allow | deny | log | redact | modify | route | alert | tag | rateLimit | budget
  | unknown (s : String)
  deriving DecidableEq, Repr

structure Action where
  type : ActionType
  parameters : List (String × ValueNode) := []

namespace Action

def getParameter (a : Action) (key : String) : Option ValueNode := a.parameters.lookup key

def hasParameter (a : Action) (key : String) : Bool := (a.getParameter key).isSome

def getStringParameter (a : Action) (key : String) : String :=
  match a.getParameter key with
  | some (.string s) => s
  | _ => ""

def getNumberParameter (a : Action) (key : String) : ℚ :=
  match a.getParameter key with
  | some (.number q) => q
  | _ => 0

end Action

/-! ## Rules and policies -/

structure Rule where
  name : String
  enabled : Bool := true
  conditions : Option ConditionNode := none
  actions : List Action := []
  priority : Int := 0

def Rule.hasActionType (r : Rule) (t : ActionType) : Bool := r.actions.any (·.type == t)

/-- `variableMap` is the `Variables` map, a variable being its value. -/
structure Policy where
  mplVersion : String := "1.0"
  name : String
  version : String := "1.0.0"
  tags : List String := []
  variableMap : List (String × ValueNode) := []
  rules : List Rule := []

namespace Policy

def hasVariable (p : Policy) (name : String) : Bool := (p.variableMap.lookup name).isSome

def enabledRules (p : Policy) : List Rule := p.rules.filter (·.enabled)

end Policy

end Jupiter.Mpl
