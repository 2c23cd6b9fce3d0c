/-
`pkg/providers/anthropic/transform.go`: the translation of a request to Anthropic's format.

One loop splits the messages: a system message sets the system text, overwriting an earlier one, and any other message
is passed on with its role and its text.
-/
import Jupiter.Providers.Anthropic
import Mathlib.Data.List.Forall2

namespace Jupiter.Providers.Anthropic

open Jupiter.Go

/-! ## The translation -/

/-- A `ContentBlock` with the fields of a tool result, which only requests have. -/
structure RequestBlock extends ContentBlock where
  toolUseID : String := ""
  content : String := ""

/-- The `Content` of a message: a string or blocks. -/
inductive MessageContent where
  | string (text : String)
  | blocks (items : List RequestBlock)

structure AnthropicMessage where
  role : String
  content : MessageContent

structure AnthropicTool where
  name : String
  description : String
  inputSchema : Option (List (String × Value))

structure AnthropicRequest where
  model : String
  messages : List AnthropicMessage
  system : String
  maxTokens : Int
  temperature : ℚ
  topP : ℚ
  stream : Bool
  tools : List AnthropicTool
  stopSequences : List String

structure ValidationError where
  field : String
  message : String

def splitMessages : List Message → String → List AnthropicMessage → String × List AnthropicMessage
  | [], systemMessage, messages => (systemMessage, messages)
  | msg :: rest, systemMessage, messages =>
    if msg.role = roleSystem then splitMessages rest msg.content messages
    else splitMessages rest systemMessage (messages ++ [{ role := msg.role, content := .string msg.content }])

def checkAlternation : Nat → String → List AnthropicMessage → Except ValidationError Unit
  | _, _, [] => .ok ()
  | i, prev, message :: messages =>
    if prev = message.role then
      .error { field := "messages"
               message := "messages must alternate between user and assistant (Anthropic requirement), " ++
                 "found consecutive " ++ message.role ++ " messages at index " ++ toString i }
    else checkAlternation (i + 1) message.role messages

def validateMessageSequence : List AnthropicMessage → Except ValidationError Unit
  | [] => .ok ()
  | message :: messages =>
    if message.role ≠ roleUser then
      .error { field := "messages", message := "first message must be from user (Anthropic requirement)" }
    else checkAlternation 1 message.role messages

def transformRequest (req : CompletionRequest) : Except ValidationError AnthropicRequest :=
  let (systemMessage, messages) := splitMessages req.messages "" []
  match validateMessageSequence messages with
  | .error err => .error err
  | .ok () =>
    .ok { model := req.model
          messages
          system := systemMessage
          maxTokens := if req.maxTokens = 0 then 4096 else req.maxTokens
          temperature := req.temperature
          topP := req.topP
          stream := req.stream
          tools := req.tools.map fun tool =>
            { name := tool.function.name, description := tool.function.description
              inputSchema := tool.function.parameters }
          stopSequences := req.stop }

/-! ## Keeping the conversation -/

def systemMessages (req : CompletionRequest) : List Message := req.messages.filter (·.role = roleSystem)

def otherMessages (req : CompletionRequest) : List Message := req.messages.filter (·.role ≠ roleSystem)

/-- The pieces stand in the text one after another. -/
def ContainsInOrder : List String → List Char → Prop
  | [], _ => True
  | piece :: pieces, text => ∃ before after, text = before ++ piece.toList ++ after ∧ ContainsInOrder pieces after

namespace MessageContent

def text : MessageContent → String
  | .string text => text
  | .blocks items => String.join ((items.filter (·.type = .text)).map (·.text))

def toolUses : MessageContent → List (String × String)
  | .string _ => []
  | .blocks items => (items.filter (·.type = .toolUse)).map fun b => (b.id, b.name)

def toolResults : MessageContent → List (String × String)
  | .string _ => []
  | .blocks items => (items.filter (·.type = .toolResult)).map fun b => (b.toolUseID, b.content)

end MessageContent

/-- A message and what it becomes: the same role and text, its tool calls by id and name, and for a tool the result
with the call it answers. -/
structure Represents (msg : Message) (message : AnthropicMessage) : Prop where
  text : msg.role ≠ roleTool → message.role = msg.role ∧ message.content.text = msg.content
  toolCalls : message.content.toolUses = msg.toolCalls.map fun call => (call.id, call.function.name)
  toolResult : msg.role = roleTool → (msg.toolCallID, msg.content) ∈ message.content.toolResults

def turns (first second : String) : Nat → List String
  | 0 => []
  | n + 1 => first :: turns second first n

def KeepsConversation (req : CompletionRequest) : Prop :=
  ∀ out, transformRequest req = .ok out →
    ContainsInOrder ((systemMessages req).map (·.content)) out.system.toList ∧
    List.Forall₂ Represents (otherMessages req) out.messages ∧
    out.messages.map (·.role) = turns roleUser roleAssistant out.messages.length

/-- The messages besides the system's start with the user, and no two neighbours have one role. -/
def Accepted (req : CompletionRequest) : Prop :=
  (∀ msg ∈ (otherMessages req).head?, msg.role = roleUser) ∧
    ((otherMessages req).map (·.role)).IsChain (· ≠ ·)

/-- Only the last system message has a text, and the other messages are texts of the user and the assistant. -/
structure PlainTexts (req : CompletionRequest) : Prop where
  system : ∀ msg ∈ (systemMessages req).dropLast, msg.content = ""
  roles : ∀ msg ∈ otherMessages req, msg.role = roleUser ∨ msg.role = roleAssistant
  toolCalls : ∀ msg ∈ otherMessages req, msg.toolCalls = []

/-! ## What the translation returns -/

theorem splitMessages_eq (msgs : List Message) (systemMessage : String) (messages : List AnthropicMessage) :
    splitMessages msgs systemMessage messages =
      (((msgs.filter (·.role = roleSystem)).map (·.content)).getLast?.getD systemMessage,
        messages ++ (msgs.filter (·.role ≠ roleSystem)).map fun msg => ⟨msg.role, .string msg.content⟩) := by
  induction msgs generalizing systemMessage messages with
  | nil => simp [splitMessages]
  | cons msg msgs ih =>
    rw [splitMessages]
    split
    · next h =>
      rw [ih, List.filter_cons_of_pos (by simpa using h), List.filter_cons_of_neg (by simpa using h), List.map_cons,
        List.getLast?_cons, Option.getD_some]
    · next h =>
      rw [ih, List.filter_cons_of_neg (by simpa using h), List.filter_cons_of_pos (by simpa using h), List.map_cons,
        List.append_assoc, List.singleton_append]

theorem checkAlternation_ok_iff (i : Nat) (prev : String) (messages : List AnthropicMessage) :
    checkAlternation i prev messages = .ok () ↔ (prev :: messages.map (·.role)).IsChain (· ≠ ·) := by
  induction messages generalizing i prev with
  | nil => simp [checkAlternation]
  | cons message messages ih =>
    rw [checkAlternation, List.map_cons, List.isChain_cons_cons, ← ih (i + 1)]
    split
    · next h => simp [h]
    · next h => simp [h]

theorem validateMessageSequence_ok_iff (messages : List AnthropicMessage) :
    validateMessageSequence messages = .ok () ↔
      (∀ m ∈ messages.head?, m.role = roleUser) ∧ (messages.map (·.role)).IsChain (· ≠ ·) := by
  cases messages with
  | nil => simp [validateMessageSequence]
  | cons message messages =>
    rw [validateMessageSequence]
    split
    · next h => simp [h]
    · next h =>
      rw [checkAlternation_ok_iff]
      simp [not_not.1 h]

theorem accepted_iff (req : CompletionRequest) :
    Accepted req ↔ validateMessageSequence (splitMessages req.messages "" []).2 = .ok () := by
  rw [validateMessageSequence_ok_iff, splitMessages_eq, List.nil_append, List.head?_map, List.map_map]
  refine and_congr ?_ Iff.rfl
  unfold otherMessages
  cases (req.messages.filter (·.role ≠ roleSystem)).head? with
  | none => simp
  | some msg => simp

theorem transformRequest_ok_iff (req : CompletionRequest) :
    (∃ out, transformRequest req = .ok out) ↔ Accepted req := by
  rw [accepted_iff]
  unfold transformRequest
  cases hv : validateMessageSequence (splitMessages req.messages "" []).2 with
  | error err => simp [hv]
  | ok u => simp [hv]

theorem transformRequest_ok {req : CompletionRequest} {out : AnthropicRequest} (h : transformRequest req = .ok out) :
    out.system = ((systemMessages req).map (·.content)).getLast?.getD "" ∧
      out.messages = (otherMessages req).map fun msg => ⟨msg.role, .string msg.content⟩ := by
  unfold transformRequest at h
  rw [splitMessages_eq] at h
  dsimp only at h
  split at h
  · cases h
  · cases h
    exact ⟨rfl, List.nil_append _⟩

/-! ## Several system messages -/

theorem ContainsInOrder.length_le {pieces : List String} {text : List Char} (h : ContainsInOrder pieces text) :
    (pieces.map (·.toList)).flatten.length ≤ text.length := by
  induction pieces generalizing text with
  | nil => simp
  | cons piece pieces ih =>
    obtain ⟨before, after, rfl, hrest⟩ := h
    have := ih hrest
    simp only [List.map_cons, List.flatten_cons, List.length_append]
    omega

theorem containsInOrder_of_empty {pieces : List String} (last : String) (h : ∀ piece ∈ pieces, piece = "") :
    ContainsInOrder (pieces ++ [last]) last.toList := by
  induction pieces with
  | nil => exact ⟨[], [], by simp, trivial⟩
  | cons piece pieces ih =>
    obtain rfl := h piece List.mem_cons_self
    exact ⟨[], last.toList, by simp, ih fun p hp => h p (List.mem_cons_of_mem _ hp)⟩

theorem containsInOrder_getLast_iff (pieces : List String) :
    ContainsInOrder pieces (pieces.getLast?.getD "").toList ↔ ∀ piece ∈ pieces.dropLast, piece = "" := by
  rcases List.eq_nil_or_concat pieces with rfl | ⟨init, last, rfl⟩
  · simp [ContainsInOrder]
  · rw [List.concat_eq_append, List.getLast?_concat, List.dropLast_concat, Option.getD_some]
    constructor
    · intro h piece hpiece
      have hlen := h.length_le
      rw [List.map_append, List.flatten_append, List.map_singleton, List.flatten_singleton,
        List.length_append] at hlen
      have hnil : (init.map (·.toList)).flatten = [] := List.length_eq_zero_iff.1 (by omega)
      exact String.toList_eq_nil_iff.1 (List.flatten_eq_nil_iff.1 hnil _ (List.mem_map_of_mem hpiece))
    · exact containsInOrder_of_empty last

/-! ## Roles -/

theorem eq_turns {first second : String} {roles : List String} (hhead : ∀ r ∈ roles.head?, r = first)
    (hchain : roles.IsChain (· ≠ ·)) (hroles : ∀ r ∈ roles, r = first ∨ r = second) :
    roles = turns first second roles.length := by
  induction roles generalizing first second with
  | nil => rfl
  | cons role roles ih =>
    obtain rfl := hhead role rfl
    rw [List.length_cons, turns]
    congr 1
    refine ih ?_ (List.isChain_of_isChain_cons hchain) ?_
    · intro r hr
      cases roles with
      | nil => cases hr
      | cons r' roles =>
        cases hr
        have hne := (List.isChain_cons_cons.1 hchain).1
        exact (hroles r (by simp)).resolve_left (Ne.symm hne)
    · intro r hr
      exact (hroles r (List.mem_cons_of_mem _ hr)).symm

theorem mem_turns {first second r : String} {n : Nat} (h : r ∈ turns first second n) : r = first ∨ r = second := by
  induction n generalizing first second with
  | zero => cases h
  | succ n ih =>
    rcases List.mem_cons.1 h with rfl | h
    · exact .inl rfl
    · exact (ih h).symm

/-! ## The condition -/

theorem represents_string_iff {msg : Message} (hrole : msg.role ≠ roleTool) :
    Represents msg ⟨msg.role, .string msg.content⟩ ↔ msg.toolCalls = [] := by
  constructor
  · intro h
    exact List.map_eq_nil_iff.1 h.toolCalls.symm
  · intro h
    exact ⟨fun _ => ⟨rfl, rfl⟩, by rw [h]; rfl, fun ht => absurd ht hrole⟩

theorem systemMessages_contained_iff (req : CompletionRequest) :
    ContainsInOrder ((systemMessages req).map (·.content))
        (((systemMessages req).map (·.content)).getLast?.getD "").toList ↔
      ∀ msg ∈ (systemMessages req).dropLast, msg.content = "" := by
  rw [containsInOrder_getLast_iff, ← List.map_dropLast, List.forall_mem_map]

theorem ne_roleTool {role : String} (h : role = roleUser ∨ role = roleAssistant) : role ≠ roleTool := by
  rcases h with rfl | rfl <;> decide

theorem KeepsConversation.plainTexts {req : CompletionRequest} (h : KeepsConversation req) (hacc : Accepted req) :
    PlainTexts req := by
  obtain ⟨out, hout⟩ := (transformRequest_ok_iff req).2 hacc
  obtain ⟨hsys, hmsgs⟩ := transformRequest_ok hout
  obtain ⟨hcontains, hrep, hturns⟩ := h out hout
  rw [hsys, systemMessages_contained_iff] at hcontains
  rw [hmsgs, List.forall₂_map_right_iff, List.forall₂_same] at hrep
  have hroles : ∀ msg ∈ otherMessages req, msg.role = roleUser ∨ msg.role = roleAssistant := by
    intro msg hmsg
    refine mem_turns (n := out.messages.length) ?_
    rw [← hturns, hmsgs, List.map_map]
    exact List.mem_map_of_mem hmsg
  refine ⟨hcontains, hroles, ?_⟩
  intro msg hmsg
  exact (represents_string_iff (ne_roleTool (hroles msg hmsg))).1 (hrep msg hmsg)

theorem keepsConversation_of_plainTexts {req : CompletionRequest} (h : Accepted req → PlainTexts req) :
    KeepsConversation req := by
  intro out hout
  have hacc := (transformRequest_ok_iff req).1 ⟨out, hout⟩
  obtain ⟨hempty, hroles, hcalls⟩ := h hacc
  obtain ⟨hsys, hmsgs⟩ := transformRequest_ok hout
  refine ⟨?_, ?_, ?_⟩
  · rw [hsys, systemMessages_contained_iff]
    exact hempty
  · rw [hmsgs, List.forall₂_map_right_iff, List.forall₂_same]
    intro msg hmsg
    exact (represents_string_iff (ne_roleTool (hroles msg hmsg))).2 (hcalls msg hmsg)
  · have hmap : out.messages.map (·.role) = (otherMessages req).map (·.role) := by
      rw [hmsgs, List.map_map]
      rfl
    rw [hmap, ← List.length_map (·.role), hmap]
    refine eq_turns ?_ hacc.2 ?_
    · rw [List.head?_map]
      intro r hr
      obtain ⟨msg, hmsg, rfl⟩ := Option.map_eq_some_iff.1 hr
      exact hacc.1 msg hmsg
    · intro r hr
      obtain ⟨msg, hmsg, rfl⟩ := List.mem_map.1 hr
      exact hroles msg hmsg

/-- The translation keeps the conversation exactly when the sequence check refuses it, or all system messages but the
last are empty and the other messages are texts of the user and the assistant without tool calls. -/
theorem keepsConversation_iff (req : CompletionRequest) :
    KeepsConversation req ↔ (Accepted req → PlainTexts req) :=
  ⟨KeepsConversation.plainTexts, keepsConversation_of_plainTexts⟩

/-- Of two system messages the first is lost. -/
theorem first_system_message_lost :
    ∃ req : CompletionRequest, (∀ msg ∈ req.messages, msg.role ∈ [roleSystem, roleUser, roleAssistant, roleTool]) ∧
      (∃ out, transformRequest req = .ok out ∧ out.system = "Be brief.") ∧
      (systemMessages req).map (·.content) = ["Be safe.", "Be brief."] ∧ ¬ KeepsConversation req := by
  refine ⟨{ messages := [⟨roleSystem, "Be safe.", "", [], ""⟩, ⟨roleSystem, "Be brief.", "", [], ""⟩,
    ⟨roleUser, "Hello", "", [], ""⟩] }, by decide, ⟨_, rfl, by decide⟩, by decide, ?_⟩
  intro h
  have hacc : Accepted { messages := [⟨roleSystem, "Be safe.", "", [], ""⟩, ⟨roleSystem, "Be brief.", "", [], ""⟩,
      ⟨roleUser, "Hello", "", [], ""⟩] } := (transformRequest_ok_iff _).1 ⟨_, rfl⟩
  have hempty := (h.plainTexts hacc).system ⟨roleSystem, "Be safe.", "", [], ""⟩
    (by simp [systemMessages, roleSystem, roleUser])
  exact absurd hempty (by decide)

end Jupiter.Providers.Anthropic
