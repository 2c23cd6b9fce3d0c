/-
`handleChatRequest` of `pkg/proxy/handlers/chat.go`: a request from its body to the response, streamed or not.

What `json.Unmarshal` makes of a body, how a response is encoded and what the providers answer is given (`Backend`).
-/
import Jupiter.Proxy.Chat
import Jupiter.Proxy.Stream

namespace Jupiter.Proxy

open Jupiter.Go

def ErrorDetail.httpStatusCode (e : ErrorDetail) : Nat :=
  match e.type with
  | "invalid_request_error" => 400
  | "authentication_error" => 401
  | "permission_denied" => 403
  | "not_found" => 404
  | "rate_limit_exceeded" => 429
  | "server_error" => 500
  | "bad_gateway" => 502
  | "service_unavailable" => 503
  | "gateway_timeout" => 504
  | _ => 500

def writeJSONResponse (statusCode : Nat) (data : String) : List WriterCall :=
  [.setHeader "Content-Type" "application/json", .writeHeader statusCode, .write (data ++ "\n")]

def writeErrorResponse (e : ErrorDetail) : List WriterCall := writeJSONResponse e.httpStatusCode (marshalError e)

def maxRequestBodySize : Nat := 10 * 1024 * 1024

structure Backend (P : Type) where
  rt : Runtime
  unmarshal : List UInt8 → Except String ChatCompletionRequest
  encode : Providers.CompletionResponse → String → String
  healthy : List (String × P)
  prefixes : MapRange modelPrefixes
  range : MapRange healthy
  sendCompletion : P → Providers.CompletionRequest → Except (List ErrorLink) Providers.CompletionResponse
  streamCompletion : P → Providers.CompletionRequest → Except (List ErrorLink) (List FromChannel)
  stream : StreamEnv
  requestID : String

namespace Backend

variable {P : Type} (b : Backend P)

def parseChatCompletionRequest : Except String (List UInt8) → Except (List ErrorLink) ChatCompletionRequest
  | .error err => .error [.other ("failed to read request body: " ++ err)]
  | .ok sent =>
    let body := sent.take maxRequestBodySize
    if body.length ≥ maxRequestBodySize then
      .error [.request "request body exceeds maximum size of 10485760 bytes" "request_too_large" "body"]
    else
      match b.unmarshal body with
      | .error err => .error [.request ("invalid JSON: " ++ err) "invalid_json" "body"]
      | .ok req =>
        match req.validate with
        | .error err => .error [.request err.message "invalid_value" err.field]
        | .ok () => .ok req

/-- The headers of a stream go out before the provider is asked. -/
def streamResponse (provider : P) (req : ChatCompletionRequest) : List WriterCall :=
  let events :=
    match b.streamCompletion provider (convertToProviderRequest b.rt req) with
    | .error err => if b.stream.fails 0 then [] else [sseError (handleError err)]
    | .ok chunks => handleStreamRequest b.stream req.model ("chatcmpl-" ++ b.requestID) chunks
  setSSEHeaders ++ .flush :: events.flatMap fun event => [.write event, .flush]

def chatResponse (provider : P) (req : ChatCompletionRequest) : List WriterCall :=
  match b.sendCompletion provider (convertToProviderRequest b.rt req) with
  | .error err => writeErrorResponse (handleError err)
  | .ok resp => writeJSONResponse 200 (b.encode resp req.model)

def handleChatRequest (method : String) (body : Except String (List UInt8)) : List WriterCall :=
  if method ≠ "POST" then
    writeErrorResponse (newInvalidRequestError ("Method " ++ method ++ " not allowed. Use POST instead.") "method"
      "method_not_allowed")
  else
    match b.parseChatCompletionRequest body with
    | .error err => writeErrorResponse (handleError err)
    | .ok req =>
      match selectProviderFromManager b.healthy req.model b.prefixes b.range with
      | .error err => writeErrorResponse (handleError [err])
      | .ok provider => if req.stream then b.streamResponse provider req else b.chatResponse provider req

end Backend

/-! ## What the client is told -/

theorem ErrorDetail.le_httpStatusCode (e : ErrorDetail) : 400 ≤ e.httpStatusCode := by
  unfold httpStatusCode
  split <;> decide

theorem received_writeErrorResponse (e : ErrorDetail) : (Writer.after (writeErrorResponse e)).received =
    ((e.httpStatusCode, [("Content-Type", "application/json")]), marshalError e ++ "\n") := by
  rw [writeErrorResponse, writeJSONResponse, Writer.after]
  rfl

/-- The status line that went out stays what it is. -/
theorem sent_foldl_call {w : Writer} {line : Nat × List (String × String)} (h : w.sent = some line)
    (calls : List WriterCall) : (calls.foldl Writer.call w).sent = some line := by
  induction calls generalizing w with
  | nil => exact h
  | cons c calls ih =>
    refine ih ?_
    cases c <;> simp [Writer.call, Writer.writeHeader, h]

namespace Backend

variable {P : Type} {b : Backend P} {req : ChatCompletionRequest} {provider : P}

theorem status_streamResponse : (Writer.after (b.streamResponse provider req)).received.1.1 = 200 := by
  have hflushed : ((setSSEHeaders ++ [WriterCall.flush]).foldl Writer.call {}).sent = some (200, _) := rfl
  rw [streamResponse, Writer.after, List.append_cons, List.foldl_append, Writer.received, sent_foldl_call hflushed]
  rfl

/-- The request is accepted and a provider found for it, which answers unless a stream was asked for. -/
def Answered (b : Backend P) (method : String) (body : Except String (List UInt8)) : Prop :=
  ∃ req provider, method = "POST" ∧ b.parseChatCompletionRequest body = .ok req ∧
    selectProviderFromManager b.healthy req.model b.prefixes b.range = .ok provider ∧
    (req.stream = true ∨ ∃ resp, b.sendCompletion provider (convertToProviderRequest b.rt req) = .ok resp)

/-- The status is 200 for an answer, and for a stream also when the provider refuses it; everything else the client is
told with the status and the text of an error. -/
theorem handleChatRequest_status (b : Backend P) (method : String) (body : Except String (List UInt8)) :
    (b.Answered method body → (Writer.after (b.handleChatRequest method body)).received.1.1 = 200) ∧
    (¬ b.Answered method body → ∃ e : ErrorDetail, 400 ≤ e.httpStatusCode ∧
      (Writer.after (b.handleChatRequest method body)).received =
        ((e.httpStatusCode, [("Content-Type", "application/json")]), marshalError e ++ "\n")) := by
  constructor
  · rintro ⟨req, provider, rfl, hparse, hselect, hanswer⟩
    simp only [handleChatRequest, ne_eq, not_true_eq_false, if_false, hparse, hselect]
    split
    · exact status_streamResponse
    · rename_i hwhole
      obtain ⟨resp, hresp⟩ := hanswer.resolve_left hwhole
      rw [chatResponse, hresp]
      rfl
  · intro hnot
    have herror (e : ErrorDetail) := And.intro e.le_httpStatusCode (received_writeErrorResponse e)
    rw [handleChatRequest]
    split
    · exact ⟨_, herror _⟩
    · rename_i hmethod
      split
      · exact ⟨_, herror _⟩
      · rename_i req hparse
        split
        · exact ⟨_, herror _⟩
        · rename_i provider hselect
          have hnone : ¬ (req.stream = true ∨ ∃ resp, _) := fun h =>
            hnot ⟨req, provider, not_not.1 hmethod, hparse, hselect, h⟩
          rw [not_or] at hnone
          rw [if_neg hnone.1, chatResponse]
          split
          · exact ⟨_, herror _⟩
          · rename_i resp hresp
            exact absurd ⟨resp, hresp⟩ hnone.2

end Backend

end Jupiter.Proxy
