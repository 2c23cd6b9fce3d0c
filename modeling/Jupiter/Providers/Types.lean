/-
`pkg/providers`: the provider-agnostic requests, responses and stream chunks that every adapter translates to and
from. Names are the source's, and default field values are Go's zero values; `none` is a nil pointer.
-/
import Jupiter.Go.Value

namespace Jupiter.Providers

open Jupiter.Go

structure FunctionCall where
  name : String := ""
  arguments : String := ""
  deriving DecidableEq

structure ToolCall where
  id : String := ""
  type : String := ""
  function : FunctionCall := {}
  deriving DecidableEq

structure Message where
  role : String := ""
  content : String := ""
  name : String := ""
  toolCalls : List ToolCall := []
  toolCallID : String := ""

structure FunctionDefinition where
  name : String := ""
  description : String := ""
  parameters : Option (List (String × Value)) := none

structure Tool where
  type : String := ""
  function : FunctionDefinition := {}

/-- `providers.CompletionRequest`, without the metadata, which is not sent. A nil slice is an empty list. -/
structure CompletionRequest where
  model : String := ""
  messages : List Message := []
  temperature : ℚ := 0
  maxTokens : Int := 0
  topP : ℚ := 0
  stream : Bool := false
  tools : List Tool := []
  toolChoice : Value := .nil
  stop : List String := []
  presencePenalty : ℚ := 0
  frequencyPenalty : ℚ := 0
  user : String := ""

structure TokenUsage where
  promptTokens : Int := 0
  completionTokens : Int := 0
  totalTokens : Int := 0
  deriving DecidableEq

/-- `providers.CompletionResponse`, without the metadata, which the adapters leave empty. -/
structure CompletionResponse where
  id : String := ""
  model : String := ""
  content : String := ""
  finishReason : String := ""
  usage : TokenUsage := {}
  toolCalls : List ToolCall := []
  created : Int := 0
  deriving DecidableEq

structure StreamChunk where
  id : String := ""
  model : String := ""
  delta : String := ""
  finishReason : String := ""
  toolCalls : List ToolCall := []
  usage : Option TokenUsage := none
  created : Int := 0
  deriving DecidableEq

def roleSystem : String := "system"
def roleUser : String := "user"
def roleAssistant : String := "assistant"
def roleTool : String := "tool"

def finishReasonStop : String := "stop"
def finishReasonLength : String := "length"
def finishReasonToolCalls : String := "tool_calls"
def finishReasonContentFilter : String := "content_filter"

def toolTypeFunction : String := "function"

/-! ## What a client makes of a stream -/

/-- The chunks received so far put together: deltas and tool calls appended, the last finish reason and the last
usage kept. -/
structure Received where
  content : String := ""
  finishReason : String := ""
  toolCalls : List ToolCall := []
  usage : Option TokenUsage := none
  deriving DecidableEq

def Received.add (r : Received) (chunk : StreamChunk) : Received where
  content := r.content ++ chunk.delta
  finishReason := if chunk.finishReason = "" then r.finishReason else chunk.finishReason
  toolCalls := r.toolCalls ++ chunk.toolCalls
  usage := chunk.usage <|> r.usage

def accumulate (chunks : List StreamChunk) : Received := chunks.foldl Received.add {}

/-- The stream told the client what the response would have: the text, the finish reason, the tool calls, the prompt
tokens and the total. -/
structure Received.Agrees (r : Received) (response : CompletionResponse) : Prop where
  content : r.content = response.content
  finishReason : r.finishReason = response.finishReason
  toolCalls : r.toolCalls = response.toolCalls
  promptTokens : r.usage.map (·.promptTokens) = some response.usage.promptTokens
  totalTokens : r.usage.map (·.totalTokens) = some response.usage.totalTokens

end Jupiter.Providers
