/-
`pkg/providers/anthropic/transform.go`: the two decodings of an Anthropic message, whole and as a stream of events.

`transformStreamChunk` keeps only the id and model of `message_start` and decodes only text deltas.
-/
import Jupiter.Providers.Types

namespace Jupiter.Providers.Anthropic

open Jupiter.Go

/-! ## Messages -/

/-- The type of a content block, a string in the source: the constants it knows and any other. -/
inductive BlockType where
  | text
  | toolUse
  | toolResult
  | other (name : String)
  deriving DecidableEq

structure ContentBlock where
  type : BlockType
  text : String := ""
  id : String := ""
  name : String := ""
  input : List (String × Value) := []

structure AnthropicUsage where
  inputTokens : Int := 0
  outputTokens : Int := 0

structure AnthropicResponse where
  id : String := ""
  content : List ContentBlock := []
  model : String := ""
  stopReason : String := ""
  stopSequence : String := ""
  usage : AnthropicUsage := {}

def normalizeStopReason (reason : String) : String :=
  if reason = "end_turn" then finishReasonStop
  else if reason = "max_tokens" then finishReasonLength
  else if reason = "tool_use" then finishReasonToolCalls
  else if reason = "stop_sequence" then finishReasonStop
  else reason

/-- `json.Marshal` of a tool's input, as a string; nothing below depends on what it writes. -/
abbrev JsonMarshalString := List (String × Value) → Except String String

def transformBlocks (jsonMarshalString : JsonMarshalString) :
    List ContentBlock → String → List ToolCall → Except String (String × List ToolCall)
  | [], content, toolCalls => .ok (content, toolCalls)
  | block :: blocks, content, toolCalls =>
    match block.type with
    | .text => transformBlocks jsonMarshalString blocks (content ++ block.text) toolCalls
    | .toolUse =>
      match jsonMarshalString block.input with
      | .error err => .error ("failed to marshal tool input: " ++ err)
      | .ok argsJSON =>
        transformBlocks jsonMarshalString blocks content
          (toolCalls ++ [{ id := block.id, type := toolTypeFunction
                           function := { name := block.name, arguments := argsJSON } }])
    | _ => transformBlocks jsonMarshalString blocks content toolCalls

def transformResponse (jsonMarshalString : JsonMarshalString) (resp : AnthropicResponse) :
    Except String CompletionResponse :=
  match transformBlocks jsonMarshalString resp.content "" [] with
  | .error err => .error err
  | .ok (content, toolCalls) =>
    .ok { id := resp.id
          model := resp.model
          content
          finishReason := normalizeStopReason resp.stopReason
          usage := { promptTokens := resp.usage.inputTokens
                     completionTokens := resp.usage.outputTokens
                     totalTokens := resp.usage.inputTokens + resp.usage.outputTokens }
          toolCalls }

/-! ## Events -/

inductive EventType where
  | messageStart
  | contentBlockStart
  | contentBlockDelta
  | contentBlockStop
  | messageDelta
  | messageStop
  | ping
  | other (name : String)
  deriving DecidableEq

/-- `ContentBlockDelta`: the text of a `text_delta`. The `partial_json` of an `input_json_delta` has no field. -/
structure ContentBlockDelta where
  type : String
  text : String := ""

structure MessageDelta where
  stopReason : String := ""
  stopSequence : String := ""

structure AnthropicStreamEvent where
  type : EventType
  message : Option AnthropicResponse := none
  index : Int := 0
  contentBlock : Option ContentBlock := none
  delta : Option ContentBlockDelta := none
  delta2 : Option MessageDelta := none
  usage : Option AnthropicUsage := none

structure StreamState where
  id : String := ""
  model : String := ""

/-- `transformStreamChunk`: the chunk to emit, if there is one, and the state left behind. -/
def transformStreamChunk (event : AnthropicStreamEvent) (state : StreamState) :
    Except String (Option StreamChunk × StreamState) :=
  match event.type with
  | .messageStart =>
    match event.message with
    | some message => .ok (none, { id := message.id, model := message.model })
    | none => .ok (none, state)
  | .contentBlockStart => .ok (none, state)
  | .contentBlockDelta =>
    match event.delta with
    | some delta =>
      if delta.text ≠ "" then .ok (some { id := state.id, model := state.model, delta := delta.text }, state)
      else .ok (none, state)
    | none => .ok (none, state)
  | .contentBlockStop => .ok (none, state)
  | .messageDelta =>
    .ok (some { id := state.id
                model := state.model
                delta := ""
                finishReason := match event.delta2 with
                  | some delta => normalizeStopReason delta.stopReason
                  | none => ""
                usage := event.usage.map fun usage =>
                  { promptTokens := usage.inputTokens
                    completionTokens := usage.outputTokens
                    totalTokens := usage.inputTokens + usage.outputTokens } }, state)
  | .messageStop => .ok (none, state)
  | .ping => .ok (none, state)
  | .other name => .error ("unknown stream event type: " ++ name)

def readAll : List AnthropicStreamEvent → StreamState → Except String (List StreamChunk)
  | [], _ => .ok []
  | event :: events, state =>
    match transformStreamChunk event state with
    | .error err => .error err
    | .ok (chunk, state) => (readAll events state).map (chunk.toList ++ ·)

/-! ## The events of a message -/

def textDelta (index : Int) (piece : String) : AnthropicStreamEvent :=
  { type := .contentBlockDelta, index, delta := some { type := "text_delta", text := piece } }

def inputJSONDelta (index : Int) : AnthropicStreamEvent :=
  { type := .contentBlockDelta, index, delta := some { type := "input_json_delta" } }

/-- The events of a content block: its text in pieces, or the JSON of its input in pieces. -/
inductive BlockStream (index : Int) : ContentBlock → List AnthropicStreamEvent → Prop
  | text {b : ContentBlock} (pieces : List String) :
    b.type = .text → String.join pieces = b.text →
    BlockStream index b
      ({ type := .contentBlockStart, index, contentBlock := some { b with text := "" } } ::
        pieces.map (textDelta index) ++ [{ type := .contentBlockStop, index }])
  | toolUse {b : ContentBlock} (pieces : Nat) :
    b.type = .toolUse →
    BlockStream index b
      ({ type := .contentBlockStart, index, contentBlock := some { b with input := [] } } ::
        List.replicate pieces (inputJSONDelta index) ++ [{ type := .contentBlockStop, index }])

/-- The events of the content blocks from `index` on. -/
inductive ContentStream : Int → List ContentBlock → List AnthropicStreamEvent → Prop
  | nil (index : Int) : ContentStream index [] []
  | cons {index : Int} {b : ContentBlock} {bs : List ContentBlock} {es es' : List AnthropicStreamEvent} :
    BlockStream index b es → ContentStream (index + 1) bs es' → ContentStream index (b :: bs) (es ++ es')

/-- The events that stream a message: `message_start` has no content yet and may report a first output token count,
`message_delta` reports the output usage only. -/
inductive MessageStream (msg : AnthropicResponse) : List AnthropicStreamEvent → Prop
  | mk (started : Int) {es : List AnthropicStreamEvent} :
    ContentStream 0 msg.content es →
    MessageStream msg
      ({ type := .messageStart
         message := some { msg with
           content := [], stopReason := "", stopSequence := ""
           usage := { inputTokens := msg.usage.inputTokens, outputTokens := started } } } ::
        es ++
        [{ type := .messageDelta
           delta2 := some { stopReason := msg.stopReason, stopSequence := msg.stopSequence }
           usage := some { outputTokens := msg.usage.outputTokens } },
          { type := .messageStop }])

/-! ## What each decoding tells -/

def textOf (blocks : List ContentBlock) : String :=
  String.join ((blocks.filter fun b => b.type = .text).map (·.text))

theorem textOf_cons (b : ContentBlock) (bs : List ContentBlock) : textOf (b :: bs) = textOf [b] ++ textOf bs := by
  by_cases h : b.type = .text <;> simp [textOf, h, String.join_cons]

/-- The whole message gives its text and one tool call for each `tool_use` block. -/
theorem transformBlocks_ok {jsonMarshalString : JsonMarshalString} {blocks : List ContentBlock}
    {content content' : String} {toolCalls toolCalls' : List ToolCall}
    (h : transformBlocks jsonMarshalString blocks content toolCalls = .ok (content', toolCalls')) :
    content' = content ++ textOf blocks ∧
      toolCalls'.length = toolCalls.length + (blocks.filter fun b => b.type = .toolUse).length := by
  induction blocks generalizing content toolCalls with
  | nil =>
    cases h
    simp [textOf]
  | cons b bs ih =>
    rw [transformBlocks] at h
    cases ht : b.type with
    | text =>
      obtain ⟨hc, hn⟩ := ih (by simpa only [ht] using h)
      refine ⟨?_, by simpa [ht] using hn⟩
      rw [hc, textOf_cons, String.append_assoc]
      simp [textOf, ht, String.join_cons]
    | toolUse =>
      simp only [ht] at h
      cases hm : jsonMarshalString b.input with
      | error err => simp [hm] at h
      | ok argsJSON =>
        obtain ⟨hc, hn⟩ := ih (by simpa only [hm] using h)
        refine ⟨?_, ?_⟩
        · rw [hc, textOf_cons]
          simp [textOf, ht]
        · rw [hn]
          simp [ht]
          omega
    | toolResult =>
      obtain ⟨hc, hn⟩ := ih (by simpa only [ht] using h)
      refine ⟨?_, by simpa [ht] using hn⟩
      rw [hc, textOf_cons]
      simp [textOf, ht]
    | other name =>
      obtain ⟨hc, hn⟩ := ih (by simpa only [ht] using h)
      refine ⟨?_, by simpa [ht] using hn⟩
      rw [hc, textOf_cons]
      simp [textOf, ht]

theorem exists_transformBlocks (jsonMarshalString : JsonMarshalString) {blocks : List ContentBlock}
    (h : ∀ b ∈ blocks, b.type ≠ .toolUse) (content : String) (toolCalls : List ToolCall) :
    ∃ content', transformBlocks jsonMarshalString blocks content toolCalls = .ok (content', toolCalls) := by
  induction blocks generalizing content with
  | nil => exact ⟨content, rfl⟩
  | cons b bs ih =>
    have hb := h b List.mem_cons_self
    have ih := ih fun b' hb' => h b' (List.mem_cons_of_mem _ hb')
    rw [transformBlocks]
    cases ht : b.type with
    | toolUse => exact absurd ht hb
    | text => exact ih _
    | toolResult => exact ih _
    | other name => exact ih _

def textChunks (state : StreamState) (pieces : List String) : List StreamChunk :=
  (pieces.filter (· ≠ "")).map fun piece => { id := state.id, model := state.model, delta := piece }

theorem textChunks_append (state : StreamState) (pieces pieces' : List String) :
    textChunks state (pieces ++ pieces') = textChunks state pieces ++ textChunks state pieces' := by
  simp [textChunks]

theorem map_nil_append (r : Except String (List StreamChunk)) : r.map ([] ++ ·) = r := by
  cases r <;> rfl

theorem map_append_map (r : Except String (List StreamChunk)) (chunks chunks' : List StreamChunk) :
    (r.map (chunks' ++ ·)).map (chunks ++ ·) = r.map ((chunks ++ chunks') ++ ·) := by
  cases r <;> simp [Except.map]

theorem readAll_silent {e : AnthropicStreamEvent} {state : StreamState}
    (h : transformStreamChunk e state = .ok (none, state)) (rest : List AnthropicStreamEvent) :
    readAll (e :: rest) state = readAll rest state := by
  rw [readAll, h]
  exact map_nil_append _

theorem readAll_pieces (index : Int) (state : StreamState) (rest : List AnthropicStreamEvent) (pieces : List String) :
    readAll (pieces.map (textDelta index) ++ rest) state =
      (readAll rest state).map (textChunks state pieces ++ ·) := by
  induction pieces with
  | nil => exact (map_nil_append _).symm
  | cons piece pieces ih =>
    rw [List.map_cons, List.cons_append]
    by_cases hp : piece = ""
    · rw [readAll_silent (by simp [transformStreamChunk, textDelta, hp]), ih]
      simp [textChunks, hp]
    · have hone : transformStreamChunk (textDelta index piece) state =
          .ok (some { id := state.id, model := state.model, delta := piece }, state) := by
        simp [transformStreamChunk, textDelta, hp]
      simp only [readAll, hone, ih, map_append_map]
      simp [textChunks, hp]

theorem readAll_inputJSON (index : Int) (state : StreamState) (rest : List AnthropicStreamEvent) (n : Nat) :
    readAll (List.replicate n (inputJSONDelta index) ++ rest) state = readAll rest state := by
  induction n with
  | zero => rfl
  | succ n ih => rw [List.replicate_succ, List.cons_append, readAll_silent rfl, ih]

theorem BlockStream.readAll {index : Int} {b : ContentBlock} {es : List AnthropicStreamEvent}
    (h : BlockStream index b es) (state : StreamState) :
    ∃ pieces, String.join pieces = textOf [b] ∧
      ∀ rest, readAll (es ++ rest) state = (readAll rest state).map (textChunks state pieces ++ ·) := by
  cases h with
  | text pieces ht hp =>
    refine ⟨pieces, by simp [textOf, ht, hp], fun rest => ?_⟩
    rw [List.append_assoc, List.cons_append, readAll_silent rfl, readAll_pieces, List.singleton_append,
      readAll_silent rfl]
  | toolUse n ht =>
    refine ⟨[], by simp [textOf, ht], fun rest => ?_⟩
    rw [List.append_assoc, List.cons_append, readAll_silent rfl, readAll_inputJSON, List.singleton_append,
      readAll_silent rfl]
    exact (map_nil_append _).symm

theorem ContentStream.readAll {index : Int} {bs : List ContentBlock} {es : List AnthropicStreamEvent}
    (h : ContentStream index bs es) (state : StreamState) :
    ∃ pieces, String.join pieces = textOf bs ∧
      ∀ rest, readAll (es ++ rest) state = (readAll rest state).map (textChunks state pieces ++ ·) := by
  induction h with
  | nil index =>
    refine ⟨[], rfl, fun rest => ?_⟩
    exact (map_nil_append _).symm
  | @cons index b bs es es' hb _ ih =>
    obtain ⟨pieces, hp, hread⟩ := hb.readAll state
    obtain ⟨pieces', hp', hread'⟩ := ih
    refine ⟨pieces ++ pieces', ?_, fun rest => ?_⟩
    · rw [String.join_append, hp, hp', ← textOf_cons]
    · rw [List.append_assoc, hread, hread', textChunks_append, map_append_map]

theorem foldl_add_textChunks (state : StreamState) (pieces : List String) (r : Received) :
    (textChunks state pieces).foldl Received.add r = { r with content := r.content ++ String.join pieces } := by
  induction pieces generalizing r with
  | nil => simp [textChunks]
  | cons piece pieces ih =>
    by_cases hp : piece = ""
    · rw [← List.singleton_append, textChunks_append, List.foldl_append, ih]
      simp [textChunks, hp]
    · rw [← List.singleton_append, textChunks_append, List.foldl_append, ih]
      simp [textChunks, hp, String.join_cons, Received.add, String.append_assoc]

theorem MessageStream.received {msg : AnthropicResponse} {events : List AnthropicStreamEvent}
    (h : MessageStream msg events) :
    ∃ chunks, Anthropic.readAll events {} = .ok chunks ∧
      accumulate chunks =
        { content := textOf msg.content
          finishReason := normalizeStopReason msg.stopReason
          toolCalls := []
          usage := some { promptTokens := 0, completionTokens := msg.usage.outputTokens
                          totalTokens := 0 + msg.usage.outputTokens } } := by
  cases h with
  | @mk started es hcontent =>
    obtain ⟨pieces, hp, hread⟩ := hcontent.readAll { id := msg.id, model := msg.model }
    rw [List.cons_append, Anthropic.readAll]
    simp only [transformStreamChunk, hread]
    refine ⟨_, rfl, ?_⟩
    simp only [accumulate, Option.toList_none, List.nil_append, List.foldl_append, foldl_add_textChunks, hp]
    by_cases hr : normalizeStopReason msg.stopReason = "" <;> simp [Received.add, hr]

/-- A streamed message tells the client what the whole message would exactly when it calls no tool and has no input
tokens. -/
theorem stream_agrees_iff (jsonMarshalString : JsonMarshalString) (msg : AnthropicResponse)
    (events : List AnthropicStreamEvent) (h : MessageStream msg events) :
    (∃ response chunks, transformResponse jsonMarshalString msg = .ok response ∧
        readAll events {} = .ok chunks ∧ (accumulate chunks).Agrees response) ↔
      (∀ b ∈ msg.content, b.type ≠ .toolUse) ∧ msg.usage.inputTokens = 0 := by
  obtain ⟨chunks, hread, hacc⟩ := h.received
  constructor
  · rintro ⟨response, chunks', hresp, hread', hagree⟩
    obtain rfl : chunks = chunks' := Except.ok.inj (hread.symm.trans hread')
    unfold transformResponse at hresp
    cases hb : transformBlocks jsonMarshalString msg.content "" [] with
    | error err => simp [hb] at hresp
    | ok decoded =>
      obtain ⟨content, toolCalls⟩ := decoded
      simp only [hb, Except.ok.injEq] at hresp
      subst hresp
      have hcalls : toolCalls = [] := by simpa [hacc] using hagree.toolCalls.symm
      have hprompt : msg.usage.inputTokens = 0 := by simpa [hacc] using hagree.promptTokens.symm
      have hcount := (transformBlocks_ok hb).2
      refine ⟨fun b hmem ht => ?_, hprompt⟩
      -- a `tool_use` block would have given the whole message a tool call
      have : b ∈ msg.content.filter fun b => b.type = .toolUse := List.mem_filter.2 ⟨hmem, by simp [ht]⟩
      simp only [hcalls, List.length_nil, Nat.zero_add] at hcount
      rw [List.eq_nil_of_length_eq_zero hcount.symm] at this
      cases this
  · rintro ⟨htools, hinput⟩
    obtain ⟨content, hb⟩ := exists_transformBlocks jsonMarshalString htools "" []
    have hcontent : content = textOf msg.content := by simpa using (transformBlocks_ok hb).1
    refine ⟨_, chunks, by simp only [transformResponse, hb]; rfl, hread, ?_⟩
    rw [hacc]
    constructor <;> simp [hcontent, hinput]

def weatherMessage : AnthropicResponse where
  id := "msg_1"
  model := "claude-3-opus"
  content := [{ type := .text, text := "Checking." }, { type := .toolUse, id := "toolu_1", name := "get_weather" }]
  stopReason := "tool_use"
  usage := { inputTokens := 25, outputTokens := 7 }

/-- Its stream says that a tool is called, but not which, and counts 7 tokens instead of 32. -/
theorem stream_loses_tool_call :
    ∃ events, MessageStream weatherMessage events ∧
      (readAll events {}).toOption.map accumulate =
        some { content := "Checking.", finishReason := "tool_calls", toolCalls := []
               usage := some { promptTokens := 0, completionTokens := 7, totalTokens := 7 } } ∧
      transformResponse (fun _ => .ok "\x7b\x7d") weatherMessage =
        .ok { id := "msg_1", model := "claude-3-opus", content := "Checking.", finishReason := "tool_calls"
              usage := { promptTokens := 25, completionTokens := 7, totalTokens := 32 }
              toolCalls := [{ id := "toolu_1", type := "function"
                              function := { name := "get_weather", arguments := "\x7b\x7d" } }] } := by
  refine ⟨_, .mk 1 (.cons (.text ["Check", "ing."] rfl rfl) (.cons (.toolUse 1 rfl) (.nil _))), ?_, ?_⟩
  · rfl
  · rfl

theorem stream_agrees_greeting :
    ∃ events, MessageStream { content := [{ type := .text, text := "Hello." }] } events ∧
      ∃ response chunks,
        transformResponse (fun _ => .ok "null") { content := [{ type := .text, text := "Hello." }] } = .ok response ∧
        readAll events {} = .ok chunks ∧ (accumulate chunks).Agrees response := by
  refine ⟨_, .mk 0 (.cons (.text ["Hel", "lo."] rfl rfl) (.nil _)), ?_⟩
  exact (stream_agrees_iff (fun _ => .ok "null") _ _ (.mk 0 (.cons (.text ["Hel", "lo."] rfl rfl) (.nil _)))).2
    ⟨by simp, rfl⟩

end Jupiter.Providers.Anthropic
