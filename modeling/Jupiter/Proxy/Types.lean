/-
`pkg/proxy/types/request.go`: the chat completion request a client sends, and the check it has to pass.

Names are the source's. A pointer, slice or map field that can be left out is an `Option`: `none` is nil, and `some
[]` is a list or an object the client sent empty. Floating-point numbers are rationals. What the policy engine sees
of the same request is in `Processing.Types`.
-/
import Jupiter.Go.Value

namespace Jupiter.Proxy

open Jupiter.Go

structure FunctionCall where
  name : String := ""
  arguments : String := ""
  deriving DecidableEq

structure ToolCall where
  id : String := ""
  type : String := ""
  function : FunctionCall := {}
  deriving DecidableEq

structure FunctionDefinition where
  name : String := ""
  description : String := ""
  parameters : Option (List (String × Value)) := none

structure Tool where
  type : String := ""
  function : FunctionDefinition := {}

structure Message where
  role : String := ""
  content : Value := .nil
  name : String := ""
  toolCalls : Option (List ToolCall) := none
  toolCallID : String := ""

structure ChatCompletionRequest where
  model : String := ""
  messages : List Message := []
  temperature : Option ℚ := none
  maxTokens : Option Int := none
  topP : Option ℚ := none
  n : Option Int := none
  stream : Bool := false
  stop : Option (List String) := none
  presencePenalty : Option ℚ := none
  frequencyPenalty : Option ℚ := none
  user : String := ""
  tools : Option (List Tool) := none
  toolChoice : Value := .nil

structure ValidationError where
  field : String
  message : String
  deriving DecidableEq

def len {α : Type} (s : Option (List α)) : Nat := (s.getD []).length

/-- A check of `Validate`: the request is rejected if the condition holds. -/
def reject (c : Prop) [Decidable c] (field message : String) : Except ValidationError Unit :=
  if c then .error { field, message } else .ok ()

def checkRange (field message : String) (lo hi : ℚ) (v : Option ℚ) : Except ValidationError Unit :=
  reject (∃ q ∈ v, q < lo ∨ hi < q) field message

def checkPositive (field message : String) (v : Option Int) : Except ValidationError Unit :=
  reject (∃ n ∈ v, n < 1) field message

/-- `"messages[" + string(rune(i)) + "]." + name`: the character with code `i`, not the number. -/
def messageField (i : Nat) (name : String) : String :=
  "messages[" ++ String.singleton (if i.isValidChar then Char.ofNat i else Char.ofNat 0xFFFD) ++ "]." ++ name

def validateMessages : Nat → List Message → Except ValidationError Unit
  | _, [] => .ok ()
  | i, msg :: msgs =>
    if msg.role = "" then .error { field := messageField i "role", message := "message role is required" }
    else if msg.content.isNil ∧ len msg.toolCalls = 0 then
      .error { field := messageField i "content"
               message := "message content is required when no tool_calls present" }
    else validateMessages (i + 1) msgs

namespace ChatCompletionRequest

def validate (r : ChatCompletionRequest) : Except ValidationError Unit := do
  reject (r.model = "") "model" "model is required"
  reject (r.messages.length = 0) "messages" "messages must contain at least one message"
  checkRange "temperature" "temperature must be between 0.0 and 2.0" 0 2 r.temperature
  checkRange "top_p" "top_p must be between 0.0 and 1.0" 0 1 r.topP
  checkPositive "max_tokens" "max_tokens must be greater than 0" r.maxTokens
  checkPositive "n" "n must be greater than 0" r.n
  reject (4 < len r.stop) "stop" "stop sequences must not exceed 4"
  checkRange "presence_penalty" "presence_penalty must be between -2.0 and 2.0" (-2) 2 r.presencePenalty
  checkRange "frequency_penalty" "frequency_penalty must be between -2.0 and 2.0" (-2) 2 r.frequencyPenalty
  validateMessages 0 r.messages

theorem bind_eq_ok {c k : Except ValidationError Unit} : (c >>= fun _ => k) = .ok () ↔ c = .ok () ∧ k = .ok () := by
  cases c with
  | error e => simp [bind, Except.bind]
  | ok u => simp [bind, Except.bind]

theorem reject_eq_ok {c : Prop} [Decidable c] {field message : String} :
    reject c field message = .ok () ↔ ¬ c := by
  unfold reject
  split <;> simp [*]

theorem one_le_maxTokens {r : ChatCompletionRequest} (h : r.validate = .ok ()) {v : Int} (hv : r.maxTokens = some v) :
    1 ≤ v := by
  simp only [validate, bind_eq_ok] at h
  obtain ⟨-, -, -, -, hmax, -⟩ := h
  have := reject_eq_ok.1 hmax
  by_contra hlt
  exact this ⟨v, hv, by omega⟩

end ChatCompletionRequest

end Jupiter.Proxy
