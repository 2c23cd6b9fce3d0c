/-
`pkg/proxy/response.go`, `errors.go` and `types/error.go`: what the proxy writes to a client.

`Writer` is an `http.ResponseWriter`: the first `WriteHeader`, `Write` or `Flush` sends the status line with the headers
as they are then, and later ones change neither. What is still not sent when the handler returns goes out with status
200.

Fields that the proxy never sets and JSON omits are left out.
-/
import Jupiter.Go.Json
import Jupiter.Lib.Table
import Jupiter.Providers.Types

namespace Jupiter.Proxy

open Jupiter.Go Jupiter.Lib

/-! ## The response writer -/

structure Writer where
  header : List (String × String) := []
  sent : Option (Nat × List (String × String)) := none
  body : String := ""
  deriving DecidableEq

inductive WriterCall where
  | setHeader (key value : String)
  | writeHeader (statusCode : Nat)
  | write (data : String)
  | flush
  deriving DecidableEq

namespace Writer

def writeHeader (w : Writer) (statusCode : Nat) : Writer :=
  match w.sent with
  | none => { w with sent := some (statusCode, w.header) }
  | some _ => w

def call (w : Writer) : WriterCall → Writer
  | .setHeader key value => { w with header := Table.upsert key (fun _ => value) w.header }
  | .writeHeader statusCode => w.writeHeader statusCode
  | .write data => { w.writeHeader 200 with body := w.body ++ data }
  | .flush => w.writeHeader 200

def after (calls : List WriterCall) : Writer := calls.foldl call {}

/-- What the client receives once the handler has returned: status, headers and body. -/
def received (w : Writer) : (Nat × List (String × String)) × String := (w.sent.getD (200, w.header), w.body)

end Writer

/-! ## Errors -/

structure ErrorDetail where
  message : String
  type : String
  param : String := ""
  code : String := ""
  deriving DecidableEq

def newInvalidRequestError (message param code : String) : ErrorDetail :=
  { message, type := "invalid_request_error", param, code }

def newServerError (message : String) : ErrorDetail := { message, type := "server_error", code := "internal_error" }

def newBadGatewayError (message : String) : ErrorDetail := { message, type := "bad_gateway", code := "provider_error" }

def newGatewayTimeoutError (message : String) : ErrorDetail :=
  { message, type := "gateway_timeout", code := "provider_timeout" }

def omitEmpty (name value : String) : List (String × String) := if value = "" then [] else [(name, Json.string value)]

def ErrorDetail.marshal (e : ErrorDetail) : String :=
  Json.object ([("message", Json.string e.message), ("type", Json.string e.type)] ++
    omitEmpty "param" e.param ++ omitEmpty "code" e.code)

def marshalError (e : ErrorDetail) : String := Json.object [("error", e.marshal)]

/-- One error of a chain, with what `HandleError` reads of it; `text` is what its `Error` method returns. -/
inductive ErrorLink where
  | request (message code param : String)
  | provider (name : String) (statusCode : Int) (message : String)
  | auth (text : String)
  | rateLimit (text : String)
  | timeout (text : String)
  | parse (text : String)
  | modelNotFound (text : String)
  | other (text : String)
  deriving DecidableEq

def handleProviderError (provider : String) (statusCode : Int) (message : String) : ErrorDetail :=
  if statusCode ≥ 500 then newBadGatewayError ("Provider error (" ++ provider ++ "): " ++ message)
  else if statusCode = 429 then
    { message := "Provider rate limit exceeded (" ++ provider ++ ")", type := "rate_limit_exceeded"
      code := "rate_limit_exceeded" }
  else if statusCode = 404 then
    newInvalidRequestError ("Model not found (" ++ provider ++ ")") "model" "model_not_found"
  else if statusCode = 401 ∨ statusCode = 403 then
    { message := "Provider authentication failed (" ++ provider ++ ")", type := "authentication_error"
      code := "authentication_failed" }
  else if statusCode ≥ 400 then
    newInvalidRequestError ("Invalid request to provider (" ++ provider ++ "): " ++ message) "" "invalid_value"
  else newServerError ("Provider error (" ++ provider ++ "): " ++ message)

/-- The place of the error's type in the order in which `HandleError` asks for the types. -/
def ErrorLink.rank : ErrorLink → Nat
  | .request .. => 0
  | .provider .. => 1
  | .auth _ => 2
  | .rateLimit _ => 3
  | .timeout _ => 4
  | .parse _ => 5
  | .modelNotFound _ => 6
  | .other _ => 7

def ErrorLink.response : ErrorLink → ErrorDetail
  | .request message code param => newInvalidRequestError message param code
  | .provider name statusCode message => handleProviderError name statusCode message
  | .auth text => { message := text, type := "authentication_error", code := "authentication_failed" }
  | .rateLimit text => { message := text, type := "rate_limit_exceeded", code := "rate_limit_exceeded" }
  | .timeout text => newGatewayTimeoutError ("Provider request timed out: " ++ text)
  | .parse text => newBadGatewayError ("Failed to parse provider response: " ++ text)
  | .modelNotFound text => newInvalidRequestError text "model" "model_not_found"
  | .other _ => newServerError "An internal error occurred. Please try again later."

/-- `HandleError` of an error, given as its chain: each type is looked for in the whole chain before the next. -/
def handleError (chain : List ErrorLink) : ErrorDetail :=
  ((List.range 7).findSome? fun k => (chain.find? (·.rank == k)).map ErrorLink.response).getD
    (newServerError "An internal error occurred. Please try again later.")

/-! ## Events -/

def marshalToolCall (tc : Providers.ToolCall) : String :=
  Json.object [("id", Json.string tc.id), ("type", Json.string "function"),
    ("function", Json.object
      [("name", Json.string tc.function.name), ("arguments", Json.string tc.function.arguments)])]

/-- `json.Marshal` of the chunk `FormatStreamChunk` makes, at the time `now`. -/
def formatStreamChunk (now : Time) (chunk : Providers.StreamChunk) (requestedModel responseID : String) : String :=
  let responseID := if responseID = "" then "chatcmpl-" ++ chunk.id else responseID
  let delta := omitEmpty "content" chunk.delta ++
    (if chunk.toolCalls.isEmpty then [] else [("tool_calls", Json.slice marshalToolCall (some chunk.toolCalls))])
  let finishReason := if chunk.finishReason = "" then "null" else Json.string chunk.finishReason
  Json.object [("id", Json.string responseID), ("object", Json.string "chat.completion.chunk"),
    ("created", Json.int (Time.unix now)), ("model", Json.string requestedModel),
    ("choices",
      "[" ++ Json.object [("index", "0"), ("delta", Json.object delta), ("finish_reason", finishReason)] ++ "]")]

def sseEvent (data : String) : String := "data: " ++ data ++ "\n\n"

def sseError (e : ErrorDetail) : String := sseEvent (marshalError e)

def sseDone : String := sseEvent "[DONE]"

def setSSEHeaders : List WriterCall :=
  [.setHeader "Content-Type" "text/event-stream", .setHeader "Cache-Control" "no-cache",
    .setHeader "Connection" "keep-alive", .setHeader "Transfer-Encoding" "chunked"]

end Jupiter.Proxy
