/-
`pkg/mpl/validator`. Each check returns the errors it adds, in the order it adds them; each constructor of
`ValidationError` is one message of the source with the values the message shows. Suggestions are left out.

The two maps `checkVariableCycle` marks names in are lists of the names marked. Its recursion follows references to
names not visited before, so one more step than there are variables is enough fuel.
-/
import Jupiter.Mpl.DataModel

namespace Jupiter.Mpl

open Jupiter.Go

inductive ValidationError where
  -- structural
  | missingField (field : String)
  | unsupportedVersion (version : String)
  | nameNotKebabCase (name : String)
  | versionNotSemver (version : String)
  | noRules
  | variableName (name : String)
  | variableNull (name : String)
  | ruleUnnamed (index : Nat)
  | ruleDuplicate (rule : String)
  | ruleNoConditions (rule : String)
  | ruleNoActions (rule : String)
  | conditionDepth (rule : String)
  | conditionMissing (rule part : String)
  | conditionNoChildren (rule type : String)
  | notChildren (rule : String) (count : Nat)
  | actionUntyped (rule : String) (index : Nat)
  | actionTypeUnknown (rule : String) (type : ActionType)
  -- semantic
  | circularVariable (cycle : List String)
  | fieldUndefined (rule field : String)
  | operatorInvalid (rule : String) (operator : Operator) (fieldType : ValueType)
  | variableUndefined (rule name : String)
  | valueIncompatible (rule field : String) (fieldType valueType : ValueType)
  | functionUnknown (rule function : String)
  | functionArguments (rule function : String) (count min max : Nat)
  | argumentUndefined (rule name : String)
  -- actions
  | actionsConflict (rule : String)
  | parameterUnexpected (rule parameter : String)
  | parameterMissing (rule : String) (action : ActionType) (parameter : String)
  | parameterType (rule : String) (action : ActionType) (parameter : String)
  | parameterInvalid (rule : String) (action : ActionType) (parameter value : String)
  deriving DecidableEq, Repr

def require (ok : Bool) (e : ValidationError) : List ValidationError := if ok then [] else [e]

@[simp] theorem require_eq_nil {ok : Bool} {e : ValidationError} : require ok e = [] ↔ ok = true := by
  cases ok <;> simp [require]

/-! ## Patterns -/

def isDigit (c : Char) : Bool := '0' ≤ c && c ≤ '9'
def isLower (c : Char) : Bool := 'a' ≤ c && c ≤ 'z'
def isUpper (c : Char) : Bool := 'A' ≤ c && c ≤ 'Z'

/-- `^[a-z][a-z0-9-]*$`. -/
def isKebabCase (s : String) : Bool :=
  match s.toList with
  | [] => false
  | c :: cs => isLower c && cs.all fun c => isLower c || isDigit c || c == '-'

/-- `[a-zA-Z0-9.-]`, the characters of a pre-release or build part. -/
def isSemverChar (c : Char) : Bool := isLower c || isUpper c || isDigit c || c == '.' || c == '-'

/-- `(\+[a-zA-Z0-9.-]+)?$`. -/
def isSemverBuild : List Char → Bool
  | [] => true
  | '+' :: cs => !cs.isEmpty && cs.all isSemverChar
  | _ => false

/-- `(-[a-zA-Z0-9.-]+)?(\+[a-zA-Z0-9.-]+)?$`. -/
def isSemverTail : List Char → Bool
  | '-' :: cs =>
    let (pre, rest) := cs.span isSemverChar
    !pre.isEmpty && isSemverBuild rest
  | cs => isSemverBuild cs

/-- `semverPattern`: three numbers with dots between them and the tail. -/
def isSemver (s : String) : Bool :=
  let (major, rest) := s.toList.span isDigit
  match rest with
  | '.' :: rest =>
    let (minor, rest) := rest.span isDigit
    match rest with
    | '.' :: rest =>
      let (patch, rest) := rest.span isDigit
      !major.isEmpty && !minor.isEmpty && !patch.isEmpty && isSemverTail rest
    | _ => false
  | _ => false

def isValidIdentifier (s : String) : Bool :=
  match s.toList with
  | [] => false
  | c :: cs =>
    (isLower c || isUpper c || c == '_') && cs.all fun c => isLower c || isUpper c || isDigit c || c == '_'

/-! ## Structure -/

def validateMetadata (p : Policy) : List ValidationError :=
  (if p.mplVersion = "" then [.missingField "mpl_version"]
    else require (p.mplVersion == "1.0") (.unsupportedVersion p.mplVersion)) ++
  (if p.name = "" then [.missingField "name"] else require (isKebabCase p.name) (.nameNotKebabCase p.name)) ++
  (if p.version = "" then [.missingField "version"]
    else require (isSemver p.version) (.versionNotSemver p.version)) ++
  require (!p.rules.isEmpty) .noRules

def validateVariables (p : Policy) : List ValidationError :=
  p.variableMap.flatMap fun (name, value) =>
    require (isValidIdentifier name) (.variableName name) ++
    require (value.type != .null) (.variableNull name)

def maxDepth : Nat := 10

mutual

def validateConditionStructure (rule : String) (depth : Nat) (c : ConditionNode) : List ValidationError :=
  if depth > maxDepth then [.conditionDepth rule]
  else match c with
    | .simple field operator _ =>
      require (field != "") (.conditionMissing rule "field") ++
      require (operator != .unknown "") (.conditionMissing rule "operator")
    | .all children =>
      require (!children.isEmpty) (.conditionNoChildren rule "all") ++
      validateChildrenStructure rule (depth + 1) children
    | .any children =>
      require (!children.isEmpty) (.conditionNoChildren rule "any") ++
      validateChildrenStructure rule (depth + 1) children
    | .not children =>
      require (children.length == 1) (.notChildren rule children.length) ++
      validateChildrenStructure rule (depth + 1) children
    | .function name _ => require (name != "") (.conditionMissing rule "function")
    | .unknown _ => []

def validateChildrenStructure (rule : String) (depth : Nat) : List ConditionNode → List ValidationError
  | [] => []
  | child :: rest =>
    validateConditionStructure rule depth child ++ validateChildrenStructure rule depth rest

end

/-- The types `validActionTypes` lists: all but `tag`. -/
def isValidActionType : ActionType → Bool
  | .tag | .unknown _ => false
  | _ => true

def validateActionStructure (rule : String) (index : Nat) (a : Action) : List ValidationError :=
  require (a.type != .unknown "") (.actionUntyped rule index) ++
  require (isValidActionType a.type) (.actionTypeUnknown rule a.type)

/-- The checks on one named rule, `names` being those of the rules before it. -/
def validateRuleStructure (names : List String) (r : Rule) : List ValidationError :=
  require (!names.contains r.name) (.ruleDuplicate r.name) ++
  require r.conditions.isSome (.ruleNoConditions r.name) ++
  require (!r.actions.isEmpty) (.ruleNoActions r.name) ++
  (r.conditions.map (validateConditionStructure r.name 0)).getD [] ++
  r.actions.zipIdx.flatMap fun (a, j) => validateActionStructure r.name j a

/-- The loop of `validateRules`, at rule `i`. A rule without a name is reported and skipped. -/
def validateRulesFrom (names : List String) (i : Nat) : List Rule → List ValidationError
  | [] => []
  | r :: rest =>
    if r.name = "" then .ruleUnnamed i :: validateRulesFrom names (i + 1) rest
    else validateRuleStructure names r ++ validateRulesFrom (r.name :: names) (i + 1) rest

def validateRules (p : Policy) : List ValidationError := validateRulesFrom [] 0 p.rules

def validateStructural (p : Policy) : List ValidationError :=
  validateMetadata p ++ validateVariables p ++ validateRules p

/-! ## Variables -/

/-- The references in a variable's value: the value itself, if it is one. -/
def extractVariableReferences : ValueNode → List String
  | .variable text => [extractVariableName text]
  | _ => []

/-- What `checkVariableCycle` updates. -/
structure CycleCheck where
  visited : List String := []
  inProgress : List String := []
  errors : List ValidationError := []

/-- A name without a definition is left in progress. -/
def checkVariableCycle (variableMap : List (String × ValueNode)) :
    Nat → String → List String → CycleCheck → CycleCheck
  | 0, _, _, s => s
  | fuel + 1, name, path, s =>
    let s := { s with visited := name :: s.visited, inProgress := name :: s.inProgress }
    let path := path ++ [name]
    match variableMap.lookup name with
    | none => s
    | some value =>
      let s := (extractVariableReferences value).foldl
        (fun s ref =>
          if s.inProgress.contains ref then
            { s with errors := s.errors ++ [.circularVariable (path ++ [ref])] }
          else if s.visited.contains ref then s
          else checkVariableCycle variableMap fuel ref path s) s
      { s with inProgress := s.inProgress.filter (· ≠ name) }

def validateVariableReferences (p : Policy) : List ValidationError :=
  (p.variableMap.foldl
    (fun s (name, _) =>
      if s.visited.contains name then s
      else checkVariableCycle p.variableMap (p.variableMap.length + 1) name [] s)
    ({} : CycleCheck)).errors

/-! ## Conditions -/

def isValidOperatorForType (op : Operator) (fieldType : ValueType) : Bool :=
  match fieldType with
  | .string => [.equal, .notEqual, .contains, .matches, .startsWith, .endsWith, .isIn, .notIn].contains op
  | .number =>
    [.equal, .notEqual, .lessThan, .greaterThan, .lessEqual, .greaterEqual, .isIn, .notIn].contains op
  | .boolean => [.equal, .notEqual].contains op
  | .array => [.contains, .isIn, .notIn].contains op
  | .object => [.equal, .notEqual].contains op
  | .variable | .null => true

def isCompatibleType (valueType fieldType : ValueType) (op : Operator) : Bool :=
  if op = .isIn ∨ op = .notIn then valueType == .array
  else if op = .contains ∧ fieldType = .array then true
  else valueType == fieldType

def validateSimpleCondition (p : Policy) (rule field : String) (op : Operator) (value : ValueNode) :
    List ValidationError :=
  match lookupField field with
  | none => [.fieldUndefined rule field]
  | some info =>
    require (isValidOperatorForType op info.type) (.operatorInvalid rule op info.type) ++
    if value.type = .variable then
      require (p.hasVariable value.variableName) (.variableUndefined rule value.variableName)
    else
      require (isCompatibleType value.type info.type op)
        (.valueIncompatible rule field info.type value.type)

/-- `supportedFunctions`: the least and the greatest number of arguments. -/
def supportedFunctions : List (String × Nat × Nat) :=
  [("has_pii", 0, 1), ("has_injection", 0, 1), ("has_sensitive", 0, 2), ("len", 1, 1), ("lower", 1, 1),
    ("upper", 1, 1), ("contains", 2, 2)]

def validateFunctionCondition (p : Policy) (rule name : String) (args : List ValueNode) :
    List ValidationError :=
  match supportedFunctions.lookup name with
  | none => [.functionUnknown rule name]
  | some (min, max) =>
    require (min ≤ args.length && args.length ≤ max) (.functionArguments rule name args.length min max) ++
    args.flatMap fun arg =>
      require (arg.type != .variable || p.hasVariable arg.variableName)
        (.argumentUndefined rule arg.variableName)

mutual

def validateCondition (p : Policy) (rule : String) : ConditionNode → List ValidationError
  | .simple field op value => validateSimpleCondition p rule field op value
  | .all children => validateConditions p rule children
  | .any children => validateConditions p rule children
  | .not children => validateConditions p rule children
  | .function name args => validateFunctionCondition p rule name args
  | .unknown _ => []

def validateConditions (p : Policy) (rule : String) : List ConditionNode → List ValidationError
  | [] => []
  | child :: rest => validateCondition p rule child ++ validateConditions p rule rest

end

def validateSemantic (p : Policy) : List ValidationError :=
  validateVariableReferences p ++
  p.rules.flatMap fun r => (r.conditions.map (validateCondition p r.name)).getD []

/-! ## Actions -/

section Actions

variable (rule : String) (a : Action)

def requireParameter (parameter : String) : List ValidationError :=
  require (a.hasParameter parameter) (.parameterMissing rule a.type parameter)

def checkParameterType (parameter : String) (types : List ValueType) : List ValidationError :=
  match a.getParameter parameter with
  | none => []
  | some value => require (types.contains value.type) (.parameterType rule a.type parameter)

def checkParameterChoice (parameter : String) (choices : List String) : List ValidationError :=
  match a.getParameter parameter with
  | some (.string s) => require (choices.contains s) (.parameterInvalid rule a.type parameter s)
  | _ => []

def validateAllowAction : List ValidationError :=
  a.parameters.map fun (parameter, _) => .parameterUnexpected rule parameter

def validateDenyAction : List ValidationError :=
  requireParameter rule a "message" ++
  checkParameterType rule a "message" [.string, .variable] ++
  checkParameterType rule a "code" [.string, .variable]

def validateLogAction : List ValidationError :=
  requireParameter rule a "message" ++
  checkParameterChoice rule a "level" ["debug", "info", "warn", "error"]

def validateRedactAction : List ValidationError :=
  requireParameter rule a "fields" ++
  checkParameterType rule a "fields" [.array, .variable] ++
  checkParameterChoice rule a "strategy" ["mask", "remove", "replace"] ++
  if a.getStringParameter "strategy" = "replace" then requireParameter rule a "replacement" else []

def validateModifyAction : List ValidationError :=
  requireParameter rule a "field" ++ requireParameter rule a "value"

def validateRouteAction : List ValidationError :=
  require (a.hasParameter "provider" || a.hasParameter "model")
    (.parameterMissing rule a.type "provider or model")

def validateAlertAction : List ValidationError :=
  requireParameter rule a "webhook" ++
  checkParameterChoice rule a "severity" ["low", "medium", "high", "critical"]

def validateRateLimitAction : List ValidationError :=
  requireParameter rule a "key" ++
  requireParameter rule a "limit" ++
  checkParameterType rule a "limit" [.number, .variable] ++
  requireParameter rule a "window" ++
  checkParameterType rule a "window" [.number, .variable]

def validateBudgetAction : List ValidationError :=
  requireParameter rule a "type" ++
  checkParameterChoice rule a "type" ["tokens", "cost"] ++
  requireParameter rule a "limit" ++
  checkParameterType rule a "limit" [.number, .variable] ++
  checkParameterChoice rule a "window" ["hourly", "daily", "weekly", "monthly"]

/-- A tag action has no check of its own. -/
def validateAction : List ValidationError :=
  match a.type with
  | .allow => validateAllowAction rule a
  | .deny => validateDenyAction rule a
  | .log => validateLogAction rule a
  | .redact => validateRedactAction rule a
  | .modify => validateModifyAction rule a
  | .route => validateRouteAction rule a
  | .alert => validateAlertAction rule a
  | .rateLimit => validateRateLimitAction rule a
  | .budget => validateBudgetAction rule a
  | .tag | .unknown _ => []

end Actions

def validateRuleActions (r : Rule) : List ValidationError :=
  require (!(r.hasActionType .allow && r.hasActionType .deny)) (.actionsConflict r.name) ++
  r.actions.flatMap (validateAction r.name)

def validateActions (p : Policy) : List ValidationError := p.rules.flatMap validateRuleActions

/-- `Validator.Validate`: the later passes run only on a policy without structural errors. -/
def validate (p : Policy) : List ValidationError :=
  if (validateStructural p).isEmpty then validateSemantic p ++ validateActions p else validateStructural p

def Accepted (p : Policy) : Prop := validate p = []

instance (p : Policy) : Decidable (Accepted p) := inferInstanceAs (Decidable (validate p = []))

theorem Accepted.structural {p : Policy} (h : Accepted p) : validateStructural p = [] := by
  unfold Accepted validate at h
  split at h
  · next hs => exact List.isEmpty_iff.mp hs
  · exact h

theorem Accepted.semantic {p : Policy} (h : Accepted p) : validateSemantic p = [] := by
  have hs := h.structural
  unfold Accepted validate at h
  rw [if_pos (by rw [hs]; rfl)] at h
  exact (List.append_eq_nil_iff.mp h).1

/-! ## What acceptance says of a rule -/

/-- The rules of a list without structural errors have distinct names, none of them in `names`, and each
passed its own checks. -/
theorem validateRulesFrom_eq_nil {names : List String} {i : Nat} {rules : List Rule}
    (h : validateRulesFrom names i rules = []) :
    (rules.map (·.name)).Nodup ∧
      ∀ r ∈ rules, r.name ∉ names ∧ ∃ names', validateRuleStructure names' r = [] := by
  induction rules generalizing names i with
  | nil => exact ⟨List.nodup_nil, by simp⟩
  | cons r rest ih =>
    rw [validateRulesFrom] at h
    split at h
    · cases h
    · obtain ⟨hr, hrest⟩ := List.append_eq_nil_iff.mp h
      obtain ⟨hnd, hall⟩ := ih hrest
      have hfresh : r.name ∉ names := by
        have := hr
        simp only [validateRuleStructure, List.append_eq_nil_iff, require_eq_nil] at this
        simpa using this.1.1.1.1
      refine ⟨List.nodup_cons.mpr ⟨?_, hnd⟩, ?_⟩
      · intro hmem
        obtain ⟨s, hs, hname⟩ := List.mem_map.mp hmem
        exact (hall s hs).1 (by rw [hname]; exact List.mem_cons_self)
      · intro s hs
        rcases List.mem_cons.mp hs with rfl | hs
        · exact ⟨hfresh, names, hr⟩
        · exact ⟨fun hm => (hall s hs).1 (List.mem_cons_of_mem _ hm), (hall s hs).2⟩

theorem Accepted.rules {p : Policy} (h : Accepted p) : validateRulesFrom [] 0 p.rules = [] := by
  have hs := h.structural
  rw [validateStructural, List.append_eq_nil_iff] at hs
  exact hs.2

theorem Accepted.rule_names {p : Policy} (h : Accepted p) : (p.rules.map (·.name)).Nodup :=
  (validateRulesFrom_eq_nil h.rules).1

theorem Accepted.action_type {p : Policy} (h : Accepted p) {r : Rule} (hr : r ∈ p.rules) {a : Action}
    (ha : a ∈ r.actions) : isValidActionType a.type = true := by
  obtain ⟨-, names, hs⟩ := (validateRulesFrom_eq_nil h.rules).2 r hr
  simp only [validateRuleStructure, List.append_eq_nil_iff, List.flatMap_eq_nil_iff] at hs
  obtain ⟨j, hj⟩ := List.mem_iff_getElem?.mp ha
  have hcheck := hs.2 (a, j) (List.mem_zipIdx_iff_getElem?.mpr (by simpa using hj))
  simp only [validateActionStructure, List.append_eq_nil_iff, require_eq_nil] at hcheck
  exact hcheck.2

theorem Accepted.condition {p : Policy} (h : Accepted p) {r : Rule} (hr : r ∈ p.rules) {c : ConditionNode}
    (hc : r.conditions = some c) : validateCondition p r.name c = [] := by
  have hs := h.semantic
  simp only [validateSemantic, List.append_eq_nil_iff, List.flatMap_eq_nil_iff] at hs
  have := hs.2 r hr
  rwa [hc] at this

end Jupiter.Mpl
