/-
`pkg/mpl/validator/datamodel.go`: the fields a condition may name, with their types. Descriptions and full
names, which only suggestions use, are left out.
-/
import Jupiter.Mpl.Ast

namespace Jupiter.Mpl

open Jupiter.Go

/-- A field's type and, for an object, its children. -/
inductive FieldInfo where
  | mk (type : ValueType) (children : List (String × FieldInfo))

namespace FieldInfo

def type : FieldInfo → ValueType
  | .mk type _ => type

def children : FieldInfo → List (String × FieldInfo)
  | .mk _ children => children

def str : FieldInfo := .mk .string []
def num : FieldInfo := .mk .number []
def bool : FieldInfo := .mk .boolean []
def arr : FieldInfo := .mk .array []
def obj (children : List (String × FieldInfo)) : FieldInfo := .mk .object children

end FieldInfo

open FieldInfo

def requestFields : FieldInfo :=
  obj [("model", str), ("temperature", num), ("max_tokens", num), ("stream", bool), ("user", str),
    ("messages", arr), ("tools", arr), ("top_p", num), ("n", num)]

def responseFields : FieldInfo :=
  obj [("content", str), ("finish_reason", str),
    ("usage", obj [("prompt_tokens", num), ("completion_tokens", num), ("total_tokens", num)])]

def processingFields : FieldInfo :=
  obj [("risk_score", num), ("complexity_score", num),
    ("token_estimate", obj [("prompt_tokens", num), ("completion_tokens", num), ("total_tokens", num)]),
    ("cost_estimate", obj [("prompt_cost", num), ("completion_cost", num), ("total_cost", num)]),
    ("content_analysis",
      obj [("pii_detection", obj [("detected", bool), ("types", arr)]),
        ("sentiment", obj [("score", num), ("label", str)]),
        ("sensitive_content", obj [("detected", bool), ("severity", str), ("categories", arr)]),
        ("prompt_injection", obj [("detected", bool), ("confidence", num), ("patterns", arr)])]),
    ("conversation_context",
      obj [("turn_count", num), ("total_tokens", num), ("context_window_percent", num)])]

def contextFields : FieldInfo :=
  obj [("environment", str),
    ("time", obj [("hour", num), ("day_of_week", num), ("timestamp", num)]),
    ("user_attributes",
      obj [("tier", str), ("department", str), ("region", str), ("requests_this_hour", num),
        ("daily_cost", num), ("monthly_cost", num), ("daily_token_usage", num)])]

def dataModel : FieldInfo :=
  obj [("request", requestFields), ("response", responseFields), ("processing", processingFields),
    ("context", contextFields)]

/-- The loop of `LookupField` over the parts of a path. -/
def FieldInfo.lookup : FieldInfo → List String → Option FieldInfo
  | f, [] => some f
  | f, part :: rest =>
    match f.children.lookup part with
    | some next => next.lookup rest
    | none => none

def lookupField (path : String) : Option FieldInfo := dataModel.lookup (Strings.splitDot path)

/-! ## The paths of a model -/

mutual

/-- Every path that leads somewhere, the empty one included. -/
def FieldInfo.paths : FieldInfo → List (List String)
  | .mk _ children => [] :: pathsBelow children

def FieldInfo.pathsBelow : List (String × FieldInfo) → List (List String)
  | [] => []
  | (name, f) :: rest => f.paths.map (name :: ·) ++ pathsBelow rest

end

theorem FieldInfo.mem_pathsBelow {name : String} {f : FieldInfo} {parts : List String}
    (h : parts ∈ f.paths) : ∀ {children : List (String × FieldInfo)}, children.lookup name = some f →
      name :: parts ∈ pathsBelow children
  | [], hl => by cases hl
  | (n, g) :: rest, hl => by
    rw [List.lookup_cons] at hl
    rw [pathsBelow, List.mem_append]
    cases hn : name == n with
    | true =>
      rw [hn] at hl
      cases hl
      obtain rfl := eq_of_beq hn
      exact .inl (List.mem_map_of_mem h)
    | false =>
      rw [hn] at hl
      exact .inr (mem_pathsBelow h hl)

theorem FieldInfo.mem_paths_of_lookup {parts : List String} {f g : FieldInfo}
    (h : f.lookup parts = some g) : parts ∈ f.paths := by
  induction parts generalizing f with
  | nil =>
    cases f
    exact List.mem_cons_self
  | cons part rest ih =>
    rw [lookup] at h
    cases hc : f.children.lookup part with
    | none => rw [hc] at h; cases h
    | some next =>
      rw [hc] at h
      cases f
      exact List.mem_cons_of_mem _ (mem_pathsBelow (ih h) hc)

end Jupiter.Mpl
