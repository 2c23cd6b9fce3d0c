/-
`pkg/providers/openai/transform.go`: the OpenAI request made from a provider request, its JSON encoding, and what
the way from the client's request to that body keeps.

Fields tagged `omitempty` are absent from the body when they hold Go's zero value, so a zero that the client set
explicitly cannot be told from a field left out; and `transformRequest` does not copy the tool calls of a message.
-/
import Jupiter.Proxy.Chat

namespace Jupiter.Providers.OpenAI

open Jupiter.Go

/-! ## Requests -/

structure OpenAIMessage where
  role : String := ""
  content : String := ""
  name : String := ""
  toolCallID : String := ""
  toolCalls : List ToolCall := []

structure OpenAIRequest where
  model : String := ""
  messages : List OpenAIMessage := []
  temperature : ℚ := 0
  maxTokens : Int := 0
  topP : ℚ := 0
  stream : Bool := false
  tools : List Tool := []
  toolChoice : Value := .nil
  stop : List String := []
  presencePenalty : ℚ := 0
  frequencyPenalty : ℚ := 0
  user : String := ""
  n : Int := 0

def transformMessage (msg : Message) : OpenAIMessage :=
  { role := msg.role, content := msg.content, name := msg.name, toolCallID := msg.toolCallID }

def transformTool (tool : Tool) : Tool :=
  { type := tool.type
    function := { name := tool.function.name, description := tool.function.description
                  parameters := tool.function.parameters } }

def transformRequest (req : CompletionRequest) : OpenAIRequest :=
  { model := req.model
    messages := req.messages.map transformMessage
    temperature := req.temperature
    maxTokens := req.maxTokens
    topP := req.topP
    stream := req.stream
    stop := req.stop
    presencePenalty := req.presencePenalty
    frequencyPenalty := req.frequencyPenalty
    user := req.user
    toolChoice := req.toolChoice
    n := 1
    tools := if 0 < req.tools.length then req.tools.map transformTool else [] }

/-! ## JSON -/

/-- `omitempty`: a value that is empty is left out. -/
def omitempty {α : Type} (isEmpty : α → Prop) [DecidablePred isEmpty] (a : α) : Option α :=
  if isEmpty a then none else some a

structure ToolJSON where
  type : String
  name : String
  description : Option String
  parameters : Option (List (String × Value))

structure MessageJSON where
  role : String
  content : Option String
  name : Option String
  toolCallID : Option String
  toolCalls : Option (List ToolCall)

/-- The body of the request: a key that is absent is `none`. -/
structure Body where
  model : String
  messages : List MessageJSON
  temperature : Option ℚ
  maxTokens : Option Int
  topP : Option ℚ
  stream : Option Bool
  tools : Option (List ToolJSON)
  toolChoice : Option Value
  stop : Option (List String)
  presencePenalty : Option ℚ
  frequencyPenalty : Option ℚ
  user : Option String
  n : Option Int

def encodeTool (tool : Tool) : ToolJSON :=
  { type := tool.type
    name := tool.function.name
    description := omitempty (· = "") tool.function.description
    parameters := tool.function.parameters.bind (omitempty fun entries => entries.length = 0) }

def encodeMessage (msg : OpenAIMessage) : MessageJSON :=
  { role := msg.role
    content := omitempty (· = "") msg.content
    name := omitempty (· = "") msg.name
    toolCallID := omitempty (· = "") msg.toolCallID
    toolCalls := omitempty (·.length = 0) msg.toolCalls }

def encode (req : OpenAIRequest) : Body :=
  { model := req.model
    messages := req.messages.map encodeMessage
    temperature := omitempty (· = 0) req.temperature
    maxTokens := omitempty (· = 0) req.maxTokens
    topP := omitempty (· = 0) req.topP
    stream := omitempty (· = false) req.stream
    tools := (omitempty (·.length = 0) req.tools).map fun tools => tools.map encodeTool
    toolChoice := omitempty (·.isNil) req.toolChoice
    stop := omitempty (·.length = 0) req.stop
    presencePenalty := omitempty (· = 0) req.presencePenalty
    frequencyPenalty := omitempty (· = 0) req.frequencyPenalty
    user := omitempty (· = "") req.user
    n := omitempty (· = 0) req.n }

def forward (rt : Runtime) (req : Proxy.ChatCompletionRequest) : Body :=
  encode (transformRequest (Proxy.convertToProviderRequest rt req))

/-! ## What the body keeps -/

structure SameTool (tool : Proxy.Tool) (json : ToolJSON) : Prop where
  type : json.type = tool.type
  name : json.name = tool.function.name
  description : json.description = omitempty (· = "") tool.function.description
  parameters : json.parameters = tool.function.parameters

/-- The body's message is the client's, whose content is a string. -/
structure SameMessage (msg : Proxy.Message) (json : MessageJSON) : Prop where
  role : json.role = msg.role
  content : json.content.map .string = some msg.content
  name : json.name = omitempty (· = "") msg.name
  toolCallID : json.toolCallID = omitempty (· = "") msg.toolCallID
  toolCalls : json.toolCalls = msg.toolCalls.map Proxy.convertToolCalls

/-- The body says what the client's request says: every parameter the client set is there with its value. A string
parameter is set if it is not empty. -/
structure Preserves (req : Proxy.ChatCompletionRequest) (body : Body) : Prop where
  model : body.model = req.model
  messages : List.Forall₂ SameMessage req.messages body.messages
  temperature : body.temperature = req.temperature
  maxTokens : body.maxTokens = req.maxTokens
  topP : body.topP = req.topP
  stop : body.stop = req.stop
  presencePenalty : body.presencePenalty = req.presencePenalty
  frequencyPenalty : body.frequencyPenalty = req.frequencyPenalty
  user : body.user = omitempty (· = "") req.user
  tools : Option.Rel (List.Forall₂ SameTool) req.tools body.tools
  toolChoice : body.toolChoice = omitempty (·.isNil) req.toolChoice

/-- The request sets no parameter to a zero or to an empty list or object, and its messages have text and no tool
calls. -/
structure Plain (req : Proxy.ChatCompletionRequest) : Prop where
  temperature : req.temperature ≠ some 0
  topP : req.topP ≠ some 0
  presencePenalty : req.presencePenalty ≠ some 0
  frequencyPenalty : req.frequencyPenalty ≠ some 0
  stop : req.stop ≠ some []
  tools : req.tools ≠ some []
  parameters : ∀ tools ∈ req.tools, ∀ tool ∈ tools, tool.function.parameters ≠ some []
  content : ∀ msg ∈ req.messages, msg.content ≠ .string ""
  toolCalls : ∀ msg ∈ req.messages, msg.toolCalls = none

/-! ## Field by field -/

/-- A pointer that is dereferenced with the zero value for nil and encoded with `omitempty` loses an explicit zero
only. -/
theorem omitempty_getD {α : Type} [DecidableEq α] (zero : α) (o : Option α) :
    omitempty (· = zero) (o.getD zero) = o ↔ o ≠ some zero := by
  cases o with
  | none => simp [omitempty]
  | some a =>
    by_cases h : a = zero
    · simp [omitempty, h]
    · simp [omitempty, h]

theorem omitempty_slice {α : Type} (o : Option (List α)) :
    omitempty (·.length = 0) (if 0 < Proxy.len o then o.getD [] else []) = o ↔ o ≠ some [] := by
  rcases o with _ | _ | ⟨a, as⟩ <;> simp [omitempty, Proxy.len]

theorem sameTool_iff (tool : Proxy.Tool) :
    SameTool tool (encodeTool (transformTool (Proxy.convertTool tool))) ↔ tool.function.parameters ≠ some [] := by
  constructor
  · rintro ⟨-, -, -, h⟩ hempty
    simp [encodeTool, transformTool, Proxy.convertTool, hempty, omitempty] at h
  · intro h
    refine ⟨rfl, rfl, rfl, ?_⟩
    rcases hp : tool.function.parameters with _ | _ | ⟨e, es⟩
    · simp [encodeTool, transformTool, Proxy.convertTool, hp]
    · exact absurd hp h
    · simp [encodeTool, transformTool, Proxy.convertTool, hp, omitempty]

theorem sameMessage_iff (rt : Runtime) {msg : Proxy.Message} (hs : ∃ s, msg.content = .string s) :
    SameMessage msg (encodeMessage (transformMessage (Proxy.convertMessage rt msg))) ↔
      msg.content ≠ .string "" ∧ msg.toolCalls = none := by
  obtain ⟨s, hs⟩ := hs
  have hcontent : (encodeMessage (transformMessage (Proxy.convertMessage rt msg))).content = omitempty (· = "") s := by
    simp [encodeMessage, transformMessage, Proxy.convertMessage, hs, Proxy.convertMessageContent]
  have hcalls : (encodeMessage (transformMessage (Proxy.convertMessage rt msg))).toolCalls = none := rfl
  constructor
  · rintro ⟨-, hc, -, -, ht⟩
    rw [hcontent, hs] at hc
    rw [hcalls] at ht
    refine ⟨?_, by simpa using ht.symm⟩
    intro hempty
    rw [hs] at hempty
    cases hempty
    simp [omitempty] at hc
  · rintro ⟨hne, hnone⟩
    refine ⟨rfl, ?_, rfl, rfl, ?_⟩
    · rw [hcontent, hs]
      have : s ≠ "" := fun h => hne (by rw [hs, h])
      simp [omitempty, this]
    · rw [hcalls, hnone]
      rfl

theorem messages_iff (rt : Runtime) {req : Proxy.ChatCompletionRequest}
    (hs : ∀ msg ∈ req.messages, ∃ s, msg.content = .string s) :
    List.Forall₂ SameMessage req.messages (forward rt req).messages ↔
      ∀ msg ∈ req.messages, msg.content ≠ .string "" ∧ msg.toolCalls = none := by
  have hmap : (forward rt req).messages =
      req.messages.map fun msg => encodeMessage (transformMessage (Proxy.convertMessage rt msg)) := by
    simp [forward, encode, transformRequest, Proxy.convertToProviderRequest, Function.comp_def]
  rw [hmap, List.forall₂_map_right_iff, List.forall₂_same]
  exact forall₂_congr fun msg hmem => sameMessage_iff rt (hs msg hmem)

theorem tools_iff (rt : Runtime) (req : Proxy.ChatCompletionRequest) :
    Option.Rel (List.Forall₂ SameTool) req.tools (forward rt req).tools ↔
      req.tools ≠ some [] ∧ ∀ tools ∈ req.tools, ∀ tool ∈ tools, tool.function.parameters ≠ some [] := by
  have htools : (forward rt req).tools = (omitempty (·.length = 0)
      (if 0 < Proxy.len req.tools then req.tools.getD [] else [])).map fun tools =>
        tools.map fun tool => encodeTool (transformTool (Proxy.convertTool tool)) := by
    rcases ht : req.tools with _ | _ | ⟨tool, tools⟩ <;>
      simp [forward, encode, transformRequest, Proxy.convertToProviderRequest, ht, Proxy.len, omitempty,
        Proxy.convertTools, Function.comp_def]
  rw [htools]
  rcases ht : req.tools with _ | _ | ⟨tool, tools⟩
  · exact iff_of_true (by simp [omitempty, Proxy.len]) (by simp)
  · refine iff_of_false ?_ (by simp)
    rintro ⟨⟩
  · have hkept := (omitempty_slice (some (tool :: tools))).2 (by simp)
    rw [hkept, Option.map_some]
    constructor
    · rintro ⟨h⟩
      rw [List.forall₂_map_right_iff, List.forall₂_same] at h
      refine ⟨by simp, ?_⟩
      rintro _ ⟨⟩ t hmem
      exact (sameTool_iff t).1 (h t hmem)
    · rintro ⟨-, h⟩
      refine .some ?_
      rw [List.forall₂_map_right_iff, List.forall₂_same]
      exact fun t hmem => (sameTool_iff t).2 (h _ rfl t hmem)

/-- For an accepted request with string contents, the body says what the client said exactly when the request is
plain. -/
theorem forward_preserves_iff (rt : Runtime) (req : Proxy.ChatCompletionRequest) (hv : req.validate = .ok ())
    (hs : ∀ msg ∈ req.messages, ∃ s, msg.content = .string s) :
    Preserves req (forward rt req) ↔ Plain req := by
  have hmax : req.maxTokens ≠ some 0 := by
    intro h0
    have := Proxy.ChatCompletionRequest.one_le_maxTokens hv h0
    omega
  have huser : (if req.user ≠ "" then req.user else "") = req.user := by
    split
    · rfl
    · next hu => exact (not_not.1 hu).symm
  have hchoice : (if req.toolChoice.isNil then .nil else req.toolChoice) = req.toolChoice := by
    cases req.toolChoice <;> rfl
  constructor
  · intro h
    have hmessages := (messages_iff rt hs).1 h.messages
    obtain ⟨htools, hparameters⟩ := (tools_iff rt req).1 h.tools
    exact
      { temperature := (omitempty_getD 0 req.temperature).1 h.temperature
        topP := (omitempty_getD 0 req.topP).1 h.topP
        presencePenalty := (omitempty_getD 0 req.presencePenalty).1 h.presencePenalty
        frequencyPenalty := (omitempty_getD 0 req.frequencyPenalty).1 h.frequencyPenalty
        stop := (omitempty_slice req.stop).1 h.stop
        tools := htools
        parameters := hparameters
        content := fun msg hmem => (hmessages msg hmem).1
        toolCalls := fun msg hmem => (hmessages msg hmem).2 }
  · intro h
    exact
      { model := rfl
        messages := (messages_iff rt hs).2 fun msg hmem => ⟨h.content msg hmem, h.toolCalls msg hmem⟩
        temperature := (omitempty_getD 0 req.temperature).2 h.temperature
        maxTokens := (omitempty_getD 0 req.maxTokens).2 hmax
        topP := (omitempty_getD 0 req.topP).2 h.topP
        stop := (omitempty_slice req.stop).2 h.stop
        presencePenalty := (omitempty_getD 0 req.presencePenalty).2 h.presencePenalty
        frequencyPenalty := (omitempty_getD 0 req.frequencyPenalty).2 h.frequencyPenalty
        user := congrArg (omitempty (· = "")) huser
        tools := (tools_iff rt req).2 ⟨h.tools, h.parameters⟩
        toolChoice := congrArg (omitempty fun v : Value => v.isNil = true) hchoice }

def afterToolCall : Proxy.ChatCompletionRequest where
  model := "gpt-4"
  messages :=
    [{ role := "assistant", content := .string ""
       toolCalls := some [{ id := "call_1", type := "function", function := { name := "f", arguments := "1" } }] },
      { role := "tool", content := .string "2", toolCallID := "call_1" }]
  temperature := some 0

/-- The body asks for no temperature, and its first message has neither content nor tool calls. -/
theorem forward_loses_temperature_and_tool_calls :
    let body := forward ⟨fun _ => "", fun _ => none, fun _ => none⟩ afterToolCall
    afterToolCall.validate = .ok () ∧ afterToolCall.temperature = some 0 ∧ body.temperature = none ∧
      body.messages.map (·.content) = [none, some "2"] ∧ body.messages.map (·.toolCalls) = [none, none] := by
  refine ⟨?_, rfl, ?_, rfl, rfl⟩
  · decide +kernel
  · decide +kernel

def question : Proxy.ChatCompletionRequest where
  model := "gpt-4"
  messages := [{ role := "user", content := .string "Hello?" }]
  temperature := some 1

theorem forward_preserves_question :
    Preserves question (forward ⟨fun _ => "", fun _ => none, fun _ => none⟩ question) := by
  refine (forward_preserves_iff _ question (by decide +kernel) ?_).2 ?_
  · intro msg hmem
    obtain rfl := List.mem_singleton.1 hmem
    exact ⟨"Hello?", rfl⟩
  · refine ⟨?_, ?_, ?_, ?_, ?_, ?_, ?_, ?_, ?_⟩ <;> simp [question]

end Jupiter.Providers.OpenAI
