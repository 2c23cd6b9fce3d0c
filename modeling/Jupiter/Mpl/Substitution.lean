/-
What references to variables stand for (SPECIFICATION 10.2, "Variable References"): `Policy.subst` is the policy with
every reference in condition values, function arguments and action parameters replaced by the value of its variable. No
function of the source does this.

A value may hold references again, which are followed in turn; no chain longer than the number of variables is followed.
A name without a definition keeps its reference. The documentation does not say how a value prints inside a longer text,
so what becomes of such a text is a parameter `fill`.
-/
import Jupiter.Mpl.Ast

namespace Jupiter.Go.Value

mutual

def mapStrings (f : String → Value) : Value → Value
  | .string s => f s
  | .slice elem items => .slice elem (mapStringsItems f items)
  | .map elem entries => .map elem (mapStringsEntries f entries)
  | v => v

def mapStringsItems (f : String → Value) : List Value → List Value
  | [] => []
  | v :: vs => mapStrings f v :: mapStringsItems f vs

def mapStringsEntries (f : String → Value) : List (String × Value) → List (String × Value)
  | [] => []
  | (k, v) :: es => (k, mapStrings f v) :: mapStringsEntries f es

end

end Jupiter.Go.Value

namespace Jupiter.Mpl

open Jupiter.Go

section Subst

variable (fill : String → String) (variableMap : List (String × ValueNode))

/-- The value of a text, following references for at most `fuel` steps. -/
def resolveText : Nat → String → Value
  | 0, s => .string s
  | fuel + 1, s =>
    if isVariableReference s then
      match variableMap.lookup (extractVariableName s) with
      | some v => v.value.mapStrings (resolveText fuel)
      | none => .string s
    else .string (fill s)

/-- The node the parser would have built from the value. -/
def ValueNode.subst (v : ValueNode) : ValueNode :=
  (buildValue (v.value.mapStrings (resolveText fill variableMap (variableMap.length + 1)))).getD v

mutual

def ConditionNode.subst : ConditionNode → ConditionNode
  | .simple field operator value => .simple field operator (value.subst fill variableMap)
  | .all children => .all (ConditionNode.substAll children)
  | .any children => .any (ConditionNode.substAll children)
  | .not children => .not (ConditionNode.substAll children)
  | .function name args => .function name (args.map (·.subst fill variableMap))
  | .unknown type => .unknown type

def ConditionNode.substAll : List ConditionNode → List ConditionNode
  | [] => []
  | child :: rest => child.subst :: ConditionNode.substAll rest

end

def Action.subst (a : Action) : Action :=
  { a with parameters := a.parameters.map fun (key, v) => (key, v.subst fill variableMap) }

def Rule.subst (r : Rule) : Rule :=
  { r with
    conditions := r.conditions.map (·.subst fill variableMap)
    actions := r.actions.map (·.subst fill variableMap) }

end Subst

def Policy.subst (fill : String → String) (p : Policy) : Policy :=
  { p with rules := p.rules.map (·.subst fill p.variableMap) }

-- a reference to a reference, in a list
section Lemmas

variable {fill : String → String} {variableMap : List (String × ValueNode)}

@[simp] theorem Action.subst_type (a : Action) : (a.subst fill variableMap).type = a.type := rfl

theorem any_subst_type (test : ActionType → Bool) (actions : List Action) :
    ((actions.map (·.subst fill variableMap)).any fun a => test a.type) =
      actions.any fun a => test a.type := by
  rw [List.any_map]
  rfl

theorem Policy.enabledRules_subst (p : Policy) :
    (p.subst fill).enabledRules = p.enabledRules.map (·.subst fill p.variableMap) := by
  unfold Policy.enabledRules Policy.subst
  rw [List.filter_map]
  rfl

end Lemmas

end Jupiter.Mpl
