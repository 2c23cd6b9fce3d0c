/-
`pkg/proxy/handlers/chat.go`: the request the proxy makes for a provider from the one a client sent.

Message content is dynamically typed: a string, an array of content parts of which only the text parts are kept, or any
other value, which is printed.
-/
import Jupiter.Proxy.Response
import Jupiter.Proxy.Types

namespace Jupiter.Proxy

open Jupiter.Go

def textPart : Value → Option String
  | .map "interface {}" partMap =>
    match partMap.lookup "type" with
    | some (.string "text") =>
      match partMap.lookup "text" with
      | some (.string text) => some text
      | _ => none
    | _ => none
  | _ => none

/-- The loop that joins text parts with a space between them. -/
def joinParts : List String → String
  | [] => ""
  | part :: parts => parts.foldl (fun result part => result ++ " " ++ part) part

def convertMultimodalContent (parts : List Value) : String := joinParts (parts.filterMap textPart)

def convertMessageContent (rt : Runtime) : Value → String
  | .nil => ""
  | .string str => str
  | .slice "interface {}" arr => convertMultimodalContent arr
  | content => rt.sprint content

def convertToolCall (tc : ToolCall) : Providers.ToolCall :=
  { id := tc.id, type := tc.type, function := { name := tc.function.name, arguments := tc.function.arguments } }

def convertToolCalls (toolCalls : List ToolCall) : List Providers.ToolCall := toolCalls.map convertToolCall

def convertTool (tool : Tool) : Providers.Tool :=
  { type := tool.type
    function := { name := tool.function.name, description := tool.function.description
                  parameters := tool.function.parameters } }

def convertTools (tools : List Tool) : List Providers.Tool := tools.map convertTool

def convertMessage (rt : Runtime) (msg : Message) : Providers.Message :=
  { role := msg.role
    name := msg.name
    toolCallID := msg.toolCallID
    content := convertMessageContent rt msg.content
    toolCalls := if 0 < len msg.toolCalls then convertToolCalls (msg.toolCalls.getD []) else [] }

def convertToProviderRequest (rt : Runtime) (req : ChatCompletionRequest) : Providers.CompletionRequest :=
  { model := req.model
    messages := req.messages.map (convertMessage rt)
    stream := req.stream
    temperature := req.temperature.getD 0
    maxTokens := req.maxTokens.getD 0
    topP := req.topP.getD 0
    stop := if 0 < len req.stop then req.stop.getD [] else []
    presencePenalty := req.presencePenalty.getD 0
    frequencyPenalty := req.frequencyPenalty.getD 0
    user := if req.user ≠ "" then req.user else ""
    tools := if 0 < len req.tools then convertTools (req.tools.getD []) else []
    toolChoice := if req.toolChoice.isNil then .nil else req.toolChoice }

/-! ## The provider of a request -/

/-- The beginnings of model names, and the providers they go to. -/
def modelPrefixes : List (String × String) :=
  [("gpt-", "openai"), ("gpt4", "openai"), ("text-davinci", "openai"), ("claude-", "anthropic"),
    ("anthropic.", "anthropic"), ("gemini-", "google"), ("command", "cohere"), ("mistral-", "mistral"),
    ("llama-", "meta"), ("mixtral", "mistral")]

section Selection

variable {P : Type} (healthy : List (String × P)) (model : String)

def providerFor (entry : String × String) : Option P :=
  if Strings.startsWith model entry.1 then healthy.lookup entry.2 else none

def selectProviderByModel (prefixes : MapRange modelPrefixes) : Option P :=
  prefixes.order.findSome? (providerFor healthy model)

/-- When the model leads to no healthy provider, the first one of the map is taken. -/
def selectProviderFromManager (prefixes : MapRange modelPrefixes) (range : MapRange healthy) : Except ErrorLink P :=
  if healthy.isEmpty then .error (.provider "none" 503 "No healthy providers available")
  else
    match selectProviderByModel healthy model prefixes with
    | some provider => .ok provider
    | none =>
      match range.order with
      | (_, provider) :: _ => .ok provider
      | [] => .error (.provider "none" 500 "Provider selection failed")

variable {healthy model}

/-- Two beginnings of one model name go to the same provider: one of them begins with the other. -/
theorem providerFor_unique {e e' : String × String} (he : e ∈ modelPrefixes) (he' : e' ∈ modelPrefixes) {p p' : P}
    (hp : providerFor healthy model e = some p) (hp' : providerFor healthy model e' = some p') : p = p' := by
  have htable : ∀ e ∈ modelPrefixes, ∀ e' ∈ modelPrefixes,
      e.1.toList <+: e'.1.toList ∨ e'.1.toList <+: e.1.toList → e.2 = e'.2 := by decide
  simp only [providerFor, Option.ite_none_right_eq_some, Strings.startsWith_iff] at hp hp'
  have hname := htable e he e' he' (List.prefix_or_prefix_of_prefix hp.1 hp'.1)
  exact Option.some.inj (hp.2.symm.trans (hname ▸ hp'.2))

theorem selectProviderByModel_eq_some_iff {prefixes : MapRange modelPrefixes} {p : P} :
    selectProviderByModel healthy model prefixes = some p ↔ ∃ e ∈ modelPrefixes, providerFor healthy model e = some p := by
  constructor
  · intro h
    obtain ⟨e, he, hp⟩ := List.exists_of_findSome?_eq_some h
    exact ⟨e, prefixes.perm.mem_iff.1 he, hp⟩
  · rintro ⟨e, he, hp⟩
    cases h : selectProviderByModel healthy model prefixes with
    | none => rw [List.findSome?_eq_none_iff.1 h e (prefixes.perm.mem_iff.2 he)] at hp; cases hp
    | some p' =>
      obtain ⟨e', he', hp'⟩ := List.exists_of_findSome?_eq_some h
      rw [providerFor_unique he (prefixes.perm.mem_iff.1 he') hp hp']

theorem selectProviderFromManager_ok (hne : healthy ≠ []) (prefixes : MapRange modelPrefixes) (range : MapRange healthy) :
    ∃ x ∈ healthy, selectProviderFromManager healthy model prefixes range = .ok x.2 := by
  cases hmodel : selectProviderByModel healthy model prefixes with
  | some p =>
    obtain ⟨e, -, hp⟩ := selectProviderByModel_eq_some_iff.1 hmodel
    simp only [providerFor, Option.ite_none_right_eq_some] at hp
    exact ⟨(e.2, p), Lib.Table.mem_of_lookup hp.2, by simp [selectProviderFromManager, hne, hmodel]⟩
  | none =>
    cases horder : range.order with
    | nil => exact absurd (List.nil_perm.1 (horder ▸ range.perm)) hne
    | cons x _ =>
      exact ⟨x, range.perm.mem_iff.1 (horder ▸ List.mem_cons_self),
        by simp [selectProviderFromManager, hne, hmodel, horder]⟩

/-- Whatever the order of the maps, a request goes to the provider that its model leads to, if that one is healthy, and
else to some healthy one, if there is one; which of them it is, is left to the order. -/
theorem selectProviderFromManager_spec (prefixes : MapRange modelPrefixes) (range : MapRange healthy) :
    (∀ e ∈ modelPrefixes, ∀ p, providerFor healthy model e = some p →
      selectProviderFromManager healthy model prefixes range = .ok p) ∧
    (healthy ≠ [] → ∃ x ∈ healthy, selectProviderFromManager healthy model prefixes range = .ok x.2) ∧
    ((∀ e ∈ modelPrefixes, providerFor healthy model e = none) →
      ∀ x ∈ healthy, ∃ range', selectProviderFromManager healthy model prefixes range' = .ok x.2) := by
  refine ⟨fun e he p hp => ?_, fun hne => selectProviderFromManager_ok hne prefixes range, fun hnone x hx => ?_⟩
  · have hne : healthy ≠ [] := by
      rintro rfl
      simp [providerFor] at hp
    simp [selectProviderFromManager, hne, selectProviderByModel_eq_some_iff.2 ⟨e, he, hp⟩]
  · obtain ⟨before, after, hsplit⟩ := List.append_of_mem hx
    refine ⟨⟨x :: (before ++ after), hsplit ▸ List.perm_middle.symm⟩, ?_⟩
    have hmodel : selectProviderByModel healthy model prefixes = none :=
      List.findSome?_eq_none_iff.2 fun e he => hnone e (prefixes.perm.mem_iff.1 he)
    simp [selectProviderFromManager, List.ne_nil_of_mem hx, hmodel]

end Selection

end Jupiter.Proxy
