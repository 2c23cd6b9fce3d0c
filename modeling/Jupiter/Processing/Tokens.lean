/-
`pkg/processing/tokens/simple.go`: token estimates from the number of bytes of a text.

Every text is estimated by a call of `EstimateText`, which looks the characters-per-token ratio of the model up again.
A call stands at a position of the request (a path of numbers, innermost first), where it finds the ratio `ratio` gives.

Counts are added without bounds and wrap around where a sum is stored in the estimate, which comes to what sums of `int`
are. Go leaves the conversion of a number of tokens that no `int` holds to the implementation.
-/
import Jupiter.Config.Types
import Jupiter.Go.Int64
import Jupiter.Processing.ModelTable
import Jupiter.Processing.Types
import Jupiter.Proxy.Chat
import Mathlib.Algebra.Order.BigOperators.Group.List
import Mathlib.Data.Rat.Floor

namespace Jupiter.Processing

open Jupiter.Go Jupiter.Proxy

/-! ## Estimates -/

inductive EstimateError where
  | nilRequest

/-- `EstimateText` with a ratio of `charsPerToken`. The conversion to `int` cuts the fraction off, of a number that
is at least one. -/
def estimateText (charsPerToken : ℚ) (text : String) : Int :=
  if text = "" then 0
  else
    let tokens := (text.utf8ByteSize : ℚ) / charsPerToken
    ⌊(if tokens < 1 then 1 else tokens) + 1 / 2⌋

def tokenModels (config : Config.TokensConfig) : List (String × ℚ) := config.models.getD []

def getCharsPerToken (config : Config.TokensConfig) (model : String) (visit : MapRange (tokenModels config)) : ℚ :=
  match findModel model visit with
  | some ratio => ratio
  | none => ((tokenModels config).lookup "default").getD 4

/-- An image stands for 4000 characters. -/
def isImagePart : Value → Bool
  | .map "interface {}" partMap =>
    match partMap.lookup "type" with
    | some (.string "image_url") => true
    | _ => false
  | _ => false

def extractContent (rt : Runtime) : Value → String
  | .nil => ""
  | .string str => str
  | .slice "interface {}" arr =>
    " ".intercalate (arr.filterMap textPart) ++
      String.ofList (List.replicate ((arr.filter isImagePart).length * 4000) 'X')
  | content => rt.sprint content

section Estimator

-- `marshal` is `json.Marshal` of the parameters of a tool, if it succeeds.
variable (rt : Runtime) (marshal : List (String × Value) → Option String) (ratio : List Nat → ℚ)

def estimateToolCalls (at_ : List Nat) : Nat → List ToolCall → Int
  | _, [] => 0
  | i, tc :: rest =>
    10 + estimateText (ratio (0 :: i :: at_)) tc.function.name +
      estimateText (ratio (1 :: i :: at_)) tc.function.arguments + 5 + estimateToolCalls at_ (i + 1) rest

def estimateMessage (at_ : List Nat) (msg : Message) : Int :=
  1 + estimateText (ratio (0 :: at_)) (extractContent rt msg.content) +
    (if msg.name ≠ "" then estimateText (ratio (1 :: at_)) msg.name else 0) +
    (if 0 < len msg.toolCalls then estimateToolCalls ratio (2 :: at_) 0 (msg.toolCalls.getD []) else 0) + 3

def estimateEach (at_ : List Nat) : Nat → List Message → Int
  | _, [] => 0
  | i, msg :: rest => estimateMessage rt ratio (i :: at_) msg + estimateEach at_ (i + 1) rest

def estimateMessages (at_ : List Nat) (messages : List Message) : Int :=
  if messages = [] then 0 else estimateEach rt ratio at_ 0 messages + 3

def estimateTool (at_ : List Nat) (tool : Tool) : Int :=
  estimateText (ratio (0 :: at_)) tool.function.name +
    (if tool.function.description ≠ "" then estimateText (ratio (1 :: at_)) tool.function.description else 0) +
    (match tool.function.parameters.bind marshal with
      | some paramsJSON => estimateText (ratio (2 :: at_)) paramsJSON
      | none => 0) + 10

def estimateTools (at_ : List Nat) : Nat → List Tool → Int
  | _, [] => 0
  | i, tool :: rest => estimateTool marshal ratio (i :: at_) tool + estimateTools at_ (i + 1) rest

/-- The default estimate of a completion: a third of the prompt, at least 100 and at most 1000. -/
def defaultCompletion (promptTokens : Int) : Int :=
  let third := promptTokens.tdiv 3
  let third := if third < 100 then 100 else third
  if 1000 < third then 1000 else third

def completionTokens (maxTokens : Option Int) (promptTokens : Int) : Int :=
  match maxTokens with
  | some n => if 0 < n then n else defaultCompletion promptTokens
  | none => defaultCompletion promptTokens

def isSystem (msg : Message) : Bool := msg.role == "system"

def estimateRequest (req : Option Proxy.ChatCompletionRequest) : Except EstimateError TokenEstimate :=
  match req with
  | none => .error .nilRequest
  | some req =>
    let systemPromptTokens := wrap64 (estimateMessages rt ratio [0] (req.messages.filter isSystem))
    let messageTokens := wrap64 (estimateMessages rt ratio [1] (req.messages.filter fun msg => !isSystem msg))
    let toolTokens := wrap64 (estimateTools marshal ratio [2] 0 (req.tools.getD []))
    let promptTokens := wrap64 (systemPromptTokens + messageTokens + toolTokens + 5)
    let estimatedCompletionTokens := completionTokens req.maxTokens promptTokens
    .ok
      { model := req.model, confidence := 95 / 100
        systemPromptTokens, messageTokens, toolTokens, overheadTokens := 5
        promptTokens, estimatedCompletionTokens
        totalTokens := wrap64 (promptTokens + estimatedCompletionTokens) }

end Estimator

/-! ## Rounding a text -/

section Text

variable {r : ℚ}

def rawTokens (r : ℚ) (text : String) : ℚ := max ((text.utf8ByteSize : ℚ) / r) 1

theorem estimateText_of_ne {text : String} (h : text ≠ "") : estimateText r text = ⌊rawTokens r text + 1 / 2⌋ := by
  rw [estimateText, if_neg h, rawTokens]
  dsimp only
  split
  · rename_i hlt
    rw [max_eq_right hlt.le]
  · rename_i hge
    rw [max_eq_left (not_lt.1 hge)]

@[simp] theorem estimateText_empty : estimateText r "" = 0 := if_pos rfl

theorem one_le_estimateText {text : String} (h : text ≠ "") : 1 ≤ estimateText r text := by
  rw [estimateText_of_ne h, Int.le_floor]
  have hone : (1 : ℚ) ≤ rawTokens r text := le_max_right _ _
  push_cast
  linarith

theorem estimateText_nonneg (text : String) : 0 ≤ estimateText r text := by
  by_cases h : text = ""
  · rw [h, estimateText_empty]
  · exact zero_le_one.trans (one_le_estimateText h)

theorem estimateText_mono (hr : 0 < r) {s t : String} (h : s.utf8ByteSize ≤ t.utf8ByteSize) :
    estimateText r s ≤ estimateText r t := by
  by_cases hs : s = ""
  · rw [hs, estimateText_empty]
    exact estimateText_nonneg t
  · have ht : t ≠ "" := by
      rintro rfl
      exact hs (String.utf8ByteSize_eq_zero_iff.1 (Nat.le_zero.1 h))
    rw [estimateText_of_ne hs, estimateText_of_ne ht]
    have hbytes : (s.utf8ByteSize : ℚ) ≤ t.utf8ByteSize := by exact_mod_cast h
    have hraw : rawTokens r s ≤ rawTokens r t := max_le_max (div_le_div_of_nonneg_right hbytes hr.le) le_rfl
    exact Int.floor_le_floor (by linarith)

theorem estimateText_append_le (a b : String) :
    estimateText r (a ++ b) ≤ estimateText r a + estimateText r b + 1 := by
  by_cases ha : a = ""
  · rw [ha, String.empty_append, estimateText_empty]
    omega
  by_cases hb : b = ""
  · rw [hb, String.append_empty, estimateText_empty]
    omega
  have hab : a ++ b ≠ "" := by simp [ha]
  have hle : rawTokens r (a ++ b) ≤ rawTokens r a + rawTokens r b := by
    have hsum : ((a ++ b).utf8ByteSize : ℚ) / r = (a.utf8ByteSize : ℚ) / r + (b.utf8ByteSize : ℚ) / r := by
      rw [String.utf8ByteSize_append, Nat.cast_add, add_div]
    have hone : (1 : ℚ) ≤ rawTokens r b := le_max_right _ _
    have hone' : (1 : ℚ) ≤ rawTokens r a := le_max_right _ _
    rw [rawTokens, hsum]
    exact max_le (add_le_add (le_max_left _ _) (le_max_left _ _)) (by linarith)
  rw [estimateText_of_ne ha, estimateText_of_ne hb, estimateText_of_ne hab, ← Int.lt_add_one_iff, Int.floor_lt]
  have hfa := Int.lt_floor_add_one (rawTokens r a + 1 / 2)
  have hfb := Int.lt_floor_add_one (rawTokens r b + 1 / 2)
  push_cast
  linarith

end Text

/-! ## Messages under one ratio -/

section Messages

variable (rt : Runtime) (marshal : List (String × Value) → Option String) (r : ℚ)

theorem estimateToolCalls_const (at_ at' : List Nat) : ∀ (i j : Nat) (tcs : List ToolCall),
    estimateToolCalls (fun _ => r) at_ i tcs = estimateToolCalls (fun _ => r) at' j tcs
  | _, _, [] => rfl
  | i, j, tc :: rest => by
    rw [estimateToolCalls, estimateToolCalls, estimateToolCalls_const at_ at' (i + 1) (j + 1) rest]

theorem estimateToolCalls_nonneg (at_ : List Nat) : ∀ (i : Nat) (tcs : List ToolCall),
    0 ≤ estimateToolCalls (fun _ => r) at_ i tcs
  | _, [] => le_rfl
  | i, tc :: rest => by
    have hname := estimateText_nonneg (r := r) tc.function.name
    have hargs := estimateText_nonneg (r := r) tc.function.arguments
    have hrest := estimateToolCalls_nonneg at_ (i + 1) rest
    rw [estimateToolCalls]
    omega

def attachedTokens (msg : Message) : Int :=
  (if msg.name ≠ "" then estimateText r msg.name else 0) +
    if 0 < len msg.toolCalls then estimateToolCalls (fun _ => r) [] 0 (msg.toolCalls.getD []) else 0

theorem attachedTokens_nonneg (msg : Message) : 0 ≤ attachedTokens r msg := by
  have hname := estimateText_nonneg (r := r) msg.name
  have hcalls := estimateToolCalls_nonneg r [] 0 (msg.toolCalls.getD [])
  unfold attachedTokens
  split <;> split <;> omega

def messageTokens (msg : Message) : Int :=
  estimateText r (extractContent rt msg.content) + attachedTokens r msg + 4

theorem messageTokens_pos (msg : Message) : 0 < messageTokens rt r msg := by
  have hcontent := estimateText_nonneg (r := r) (extractContent rt msg.content)
  have hattached := attachedTokens_nonneg r msg
  unfold messageTokens
  omega

theorem estimateMessage_const (at_ : List Nat) (msg : Message) :
    estimateMessage rt (fun _ => r) at_ msg = messageTokens rt r msg := by
  rw [estimateMessage, messageTokens, attachedTokens, estimateToolCalls_const r (2 :: at_) [] 0 0]
  omega

theorem estimateEach_const (at_ : List Nat) : ∀ (i : Nat) (messages : List Message),
    estimateEach rt (fun _ => r) at_ i messages = (messages.map (messageTokens rt r)).sum
  | _, [] => rfl
  | i, msg :: rest => by
    rw [estimateEach, estimateMessage_const, estimateEach_const at_ (i + 1) rest, List.map_cons, List.sum_cons]

theorem sum_messageTokens_nonneg (messages : List Message) : 0 ≤ (messages.map (messageTokens rt r)).sum := by
  refine List.sum_nonneg fun n hn => ?_
  obtain ⟨msg, -, rfl⟩ := List.mem_map.1 hn
  exact (messageTokens_pos rt r msg).le

/-- The overhead of a group of messages, which an empty group does not have. -/
def withOverhead (n : Int) : Int := if n = 0 then 0 else n + 3

theorem withOverhead_mono {m n : Int} (hm : 0 ≤ m) (h : m ≤ n) : withOverhead m ≤ withOverhead n := by
  unfold withOverhead
  split <;> split <;> omega

theorem estimateMessages_const (at_ : List Nat) (messages : List Message) :
    estimateMessages rt (fun _ => r) at_ messages = withOverhead (messages.map (messageTokens rt r)).sum := by
  rw [estimateMessages, estimateEach_const]
  cases messages with
  | nil => rfl
  | cons msg rest =>
    have hmsg := messageTokens_pos rt r msg
    have hrest := sum_messageTokens_nonneg rt r rest
    rw [if_neg (List.cons_ne_nil _ _), withOverhead, List.map_cons, List.sum_cons, if_neg (by omega)]

theorem estimateTools_append (at_ : List Nat) (tool : Tool) : ∀ (i : Nat) (tools : List Tool),
    estimateTools marshal (fun _ => r) at_ i (tools ++ [tool]) =
      estimateTools marshal (fun _ => r) at_ i tools + estimateTool marshal (fun _ => r) [] tool
  | _, [] => by
    rw [List.nil_append, estimateTools, estimateTools, estimateTools, add_comm]
    rfl
  | i, t :: tools => by
    rw [List.cons_append, estimateTools, estimateTools, estimateTools_append at_ tool (i + 1) tools, add_assoc]

theorem estimateTool_nonneg (at_ : List Nat) (tool : Tool) : 0 ≤ estimateTool marshal (fun _ => r) at_ tool := by
  have hname := estimateText_nonneg (r := r) tool.function.name
  have hdesc := estimateText_nonneg (r := r) tool.function.description
  have hparams : 0 ≤ (match tool.function.parameters.bind marshal with
      | some paramsJSON => estimateText r paramsJSON
      | none => 0) := by
    split
    · exact estimateText_nonneg _
    · exact le_rfl
  rw [estimateTool]
  split
  · omega
  · omega

theorem defaultCompletion_eq (n : Int) : defaultCompletion n = min (max (n.tdiv 3) 100) 1000 := by
  unfold defaultCompletion
  dsimp only
  split_ifs <;> omega

theorem defaultCompletion_mono {m n : Int} (hm : 0 ≤ m) (h : m ≤ n) : defaultCompletion m ≤ defaultCompletion n := by
  have hthird : m.tdiv 3 ≤ n.tdiv 3 := by
    rw [Int.tdiv_eq_ediv_of_nonneg hm, Int.tdiv_eq_ediv_of_nonneg (hm.trans h)]
    exact Int.ediv_le_ediv (by decide) h
  rw [defaultCompletion_eq, defaultCompletion_eq]
  exact min_le_min_right _ (max_le_max_right _ hthird)

theorem completionTokens_mono (maxTokens : Option Int) {m n : Int} (hm : 0 ≤ m) (h : m ≤ n) :
    completionTokens maxTokens m ≤ completionTokens maxTokens n := by
  unfold completionTokens
  cases maxTokens with
  | none => exact defaultCompletion_mono hm h
  | some k =>
    dsimp only
    split
    · exact le_rfl
    · exact defaultCompletion_mono hm h

theorem completionTokens_range {maxTokens : Option Int} (h : ∀ n ∈ maxTokens, n < 2 ^ 63) (promptTokens : Int) :
    0 ≤ completionTokens maxTokens promptTokens ∧ completionTokens maxTokens promptTokens < 2 ^ 63 := by
  have hdefault : 100 ≤ defaultCompletion promptTokens ∧ defaultCompletion promptTokens ≤ 1000 := by
    unfold defaultCompletion
    dsimp only
    split <;> split <;> omega
  unfold completionTokens
  cases maxTokens with
  | none => dsimp only; omega
  | some n =>
    have hn := h n rfl
    dsimp only
    split <;> omega

end Messages

/-! ## Adding and splitting text -/

/-- One addition to a request: a message anywhere, a tool, more text around a content, or a message split in two. The
first of the two keeps the name and the tool calls. -/
inductive Grows : Proxy.ChatCompletionRequest → Proxy.ChatCompletionRequest → Prop
  | message {req : Proxy.ChatCompletionRequest} (pre post : List Message) (msg : Message) :
      req.messages = pre ++ post → Grows req { req with messages := pre ++ [msg] ++ post }
  | tool (req : Proxy.ChatCompletionRequest) (tool : Tool) :
      Grows req { req with tools := some (req.tools.getD [] ++ [tool]) }
  | content {req : Proxy.ChatCompletionRequest} (pre post : List Message) (msg : Message)
      (before text after : String) :
      req.messages = pre ++ [msg] ++ post → msg.content = .string text →
      Grows req
        { req with messages := pre ++ [{ msg with content := .string (before ++ text ++ after) }] ++ post }
  | split {req : Proxy.ChatCompletionRequest} (pre post : List Message) (msg one two : Message) (a b : String) :
      req.messages = pre ++ [msg] ++ post → msg.content = .string (a ++ b) →
      one.content = .string a → two.content = .string b → one.role = msg.role → two.role = msg.role →
      one.name = msg.name → one.toolCalls = msg.toolCalls →
      Grows req { req with messages := pre ++ [one, two] ++ post }

section Growth

variable (rt : Runtime) (marshal : List (String × Value) → Option String) {r : ℚ}
  {req req' : Proxy.ChatCompletionRequest}

def groupTokens (r : ℚ) (group : Message → Bool) (messages : List Message) : Int :=
  ((messages.filter group).map (messageTokens rt r)).sum

variable {rt} in
theorem groupTokens_append (group : Message → Bool) (ms ns : List Message) :
    groupTokens rt r group (ms ++ ns) = groupTokens rt r group ms + groupTokens rt r group ns := by
  simp only [groupTokens, List.filter_append, List.map_append, List.sum_append]

variable {rt} in
theorem groupTokens_nonneg (group : Message → Bool) (ms : List Message) : 0 ≤ groupTokens rt r group ms :=
  sum_messageTokens_nonneg rt r _

variable {rt} in
theorem groupTokens_singleton (group : Message → Bool) (msg : Message) :
    groupTokens rt r group [msg] = if group msg then messageTokens rt r msg else 0 := by
  unfold groupTokens
  cases h : group msg <;> simp [h]

def ByRole (group : Message → Bool) : Prop := ∀ m n : Message, m.role = n.role → group m = group n

theorem byRole_isSystem : ByRole isSystem := fun m n h => by rw [isSystem, isSystem, h]

theorem byRole_not_isSystem : ByRole fun msg => !isSystem msg := fun m n h => congrArg (!·) (byRole_isSystem m n h)

variable {rt} in
theorem groupTokens_middle_le {group : Message → Bool} (pre post : List Message) {old new : List Message}
    (h : groupTokens rt r group old ≤ groupTokens rt r group new) :
    groupTokens rt r group (pre ++ old ++ post) ≤ groupTokens rt r group (pre ++ new ++ post) := by
  simp only [groupTokens_append]
  omega

theorem messageTokens_le_of_extended (hr : 0 < r) {msg : Message} {text : String}
    (htext : msg.content = .string text) (before after : String) :
    messageTokens rt r msg ≤ messageTokens rt r { msg with content := .string (before ++ text ++ after) } := by
  have hcontent : estimateText r text ≤ estimateText r (before ++ text ++ after) := by
    apply estimateText_mono hr
    simp only [String.utf8ByteSize_append]
    omega
  simp only [messageTokens, attachedTokens, htext, extractContent]
  omega

theorem messageTokens_le_of_split {msg one two : Message} {a b : String} (h : msg.content = .string (a ++ b))
    (hone : one.content = .string a) (htwo : two.content = .string b) (hname : one.name = msg.name)
    (hcalls : one.toolCalls = msg.toolCalls) :
    messageTokens rt r msg ≤ messageTokens rt r one + messageTokens rt r two := by
  have htext := estimateText_append_le (r := r) a b
  have hattached : attachedTokens r one = attachedTokens r msg := by
    simp only [attachedTokens, hname, hcalls]
  have hmore := attachedTokens_nonneg r two
  simp only [messageTokens, h, hone, htwo, extractContent, hattached]
  omega

variable {rt} in
theorem Grows.groupTokens_le (hr : 0 < r) {group : Message → Bool} (hg : ByRole group) (h : Grows req req') :
    groupTokens rt r group req.messages ≤ groupTokens rt r group req'.messages := by
  cases h with
  | message pre post msg hreq =>
    have hmid := groupTokens_middle_le pre post (show groupTokens rt r group [] ≤ groupTokens rt r group [msg] from
      groupTokens_nonneg group [msg])
    rwa [List.append_nil, ← hreq] at hmid
  | tool => exact le_rfl
  | content pre post msg before text after hreq htext =>
    rw [hreq]
    apply groupTokens_middle_le
    have hsame : group { msg with content := .string (before ++ text ++ after) } = group msg := hg _ _ rfl
    rw [groupTokens_singleton, groupTokens_singleton, hsame]
    split
    · exact messageTokens_le_of_extended rt hr htext before after
    · exact le_rfl
  | split pre post msg one two a b hreq htext hone htwo hrole hrole' hname hcalls =>
    rw [hreq]
    apply groupTokens_middle_le
    rw [show [one, two] = [one] ++ [two] from rfl, groupTokens_append, groupTokens_singleton, groupTokens_singleton,
      groupTokens_singleton, hg one msg hrole, hg two msg hrole']
    split
    · exact messageTokens_le_of_split rt htext hone htwo hname hcalls
    · exact le_rfl

theorem Grows.estimateTools_le (r : ℚ) (h : Grows req req') :
    estimateTools marshal (fun _ => r) [2] 0 (req.tools.getD []) ≤
      estimateTools marshal (fun _ => r) [2] 0 (req'.tools.getD []) := by
  cases h with
  | tool tool =>
    have htool := estimateTool_nonneg marshal r [] tool
    show _ ≤ estimateTools marshal (fun _ => r) [2] 0 (req.tools.getD [] ++ [tool])
    rw [estimateTools_append]
    omega
  | message | content | split => exact le_rfl

theorem estimateTools_nonneg (r : ℚ) (at_ : List Nat) : ∀ (i : Nat) (tools : List Tool),
    0 ≤ estimateTools marshal (fun _ => r) at_ i tools
  | _, [] => le_rfl
  | i, tool :: rest => by
    have htool := estimateTool_nonneg marshal r (i :: at_) tool
    have hrest := estimateTools_nonneg r at_ (i + 1) rest
    rw [estimateTools]
    omega

def promptTokens (r : ℚ) (req : Proxy.ChatCompletionRequest) : Int :=
  withOverhead (groupTokens rt r isSystem req.messages) +
    withOverhead (groupTokens rt r (fun msg => !isSystem msg) req.messages) +
    estimateTools marshal (fun _ => r) [2] 0 (req.tools.getD []) + 5

/-- The tokens of the prompt and of the completion, before the sum wraps around. -/
def totalTokens (r : ℚ) (req : Proxy.ChatCompletionRequest) : Int :=
  promptTokens rt marshal r req + completionTokens req.maxTokens (promptTokens rt marshal r req)

theorem withOverhead_nonneg {n : Int} (h : 0 ≤ n) : 0 ≤ withOverhead n := by
  unfold withOverhead
  split <;> omega

theorem promptTokens_nonneg (r : ℚ) (req : Proxy.ChatCompletionRequest) : 0 ≤ promptTokens rt marshal r req := by
  have hgroup : ∀ group, 0 ≤ withOverhead (groupTokens rt r group req.messages) :=
    fun group => withOverhead_nonneg (groupTokens_nonneg group req.messages)
  have hsystem := hgroup isSystem
  have hother := hgroup fun msg => !isSystem msg
  have htools := estimateTools_nonneg marshal r [2] 0 (req.tools.getD [])
  unfold promptTokens
  omega

theorem wrap64_three (l m n : Int) : wrap64 (wrap64 l + wrap64 m + wrap64 n + 5) = wrap64 (l + m + n + 5) := by
  unfold wrap64
  omega

theorem estimateRequest_const (r : ℚ) (req : Proxy.ChatCompletionRequest)
    (hfits : promptTokens rt marshal r req < 2 ^ 63) :
    ∃ e, estimateRequest rt marshal (fun _ => r) (some req) = .ok e ∧
      e.promptTokens = promptTokens rt marshal r req ∧
      e.totalTokens = wrap64 (totalTokens rt marshal r req) := by
  have hprompt : wrap64 (promptTokens rt marshal r req) = promptTokens rt marshal r req := by
    have hnonneg := promptTokens_nonneg rt marshal r req
    exact wrap64_of_range (by omega) hfits
  have hsum : estimateMessages rt (fun _ => r) [0] (req.messages.filter isSystem) +
      estimateMessages rt (fun _ => r) [1] (req.messages.filter fun msg => !isSystem msg) +
      estimateTools marshal (fun _ => r) [2] 0 (req.tools.getD []) + 5 = promptTokens rt marshal r req := by
    simp only [estimateMessages_const, promptTokens, groupTokens]
  refine ⟨_, rfl, ?_⟩
  simp only [wrap64_three, hsum, hprompt, totalTokens, and_self]

theorem Grows.promptTokens_le (hr : 0 < r) (h : Grows req req') :
    promptTokens rt marshal r req ≤ promptTokens rt marshal r req' := by
  have hgroup : ∀ {group}, ByRole group → withOverhead (groupTokens rt r group req.messages) ≤
      withOverhead (groupTokens rt r group req'.messages) :=
    fun hrole => withOverhead_mono (groupTokens_nonneg _ req.messages) (h.groupTokens_le hr hrole)
  have hsystem := hgroup byRole_isSystem
  have hother := hgroup byRole_not_isSystem
  have htools := h.estimateTools_le marshal r
  unfold promptTokens
  omega

theorem Grows.maxTokens_eq (h : Grows req req') : req'.maxTokens = req.maxTokens := by cases h <;> rfl

theorem promptTokens_le_of_grown (hr : 0 < r) (h : Relation.ReflTransGen Grows req req') :
    promptTokens rt marshal r req ≤ promptTokens rt marshal r req' ∧ req'.maxTokens = req.maxTokens := by
  induction h with
  | refl => exact ⟨le_rfl, rfl⟩
  | tail _ hstep ih => exact ⟨ih.1.trans (hstep.promptTokens_le rt marshal hr), hstep.maxTokens_eq.trans ih.2⟩

/-- Adding messages, tools or text to a request, or splitting its messages, lowers the estimate only where it carries the
total past the largest `int`. -/
theorem estimate_not_lowered_iff (hr : 0 < r) (req req' : Proxy.ChatCompletionRequest)
    (h : Relation.ReflTransGen Grows req req') (hfits : promptTokens rt marshal r req' < 2 ^ 63)
    (hmax : ∀ n ∈ req.maxTokens, n < 2 ^ 63) :
    ∃ e e', estimateRequest rt marshal (fun _ => r) (some req) = .ok e ∧
      estimateRequest rt marshal (fun _ => r) (some req') = .ok e' ∧
      (e.promptTokens ≤ e'.promptTokens ∧ e.totalTokens ≤ e'.totalTokens ↔
        (totalTokens rt marshal r req < 2 ^ 63 → totalTokens rt marshal r req' < 2 ^ 63)) := by
  obtain ⟨hle, heq⟩ := promptTokens_le_of_grown rt marshal hr h
  have hnonneg := promptTokens_nonneg rt marshal r req
  obtain ⟨e, he, hprompt, htotal⟩ := estimateRequest_const rt marshal r req (by omega)
  obtain ⟨e', he', hprompt', htotal'⟩ := estimateRequest_const rt marshal r req' hfits
  refine ⟨e, e', he, he', ?_⟩
  have hmono := completionTokens_mono req.maxTokens hnonneg hle
  have hrange := completionTokens_range hmax (promptTokens rt marshal r req)
  have hrange' := completionTokens_range hmax (promptTokens rt marshal r req')
  rw [hprompt, hprompt', and_iff_right hle, htotal, htotal', totalTokens, totalTokens, heq]
  unfold wrap64
  omega

end Growth

def noText : Runtime := { sprint := fun _ => "", regexpCompile := fun _ => none, loadLocation := fun _ => none }

/-- A message of nine bytes split in two, at four characters per token: three tokens become one and two, and the
second message brings four more. -/
theorem estimate_of_split_message :
    let whole : Message := { role := "user", content := .string "nine byte" }
    let one : Message := { role := "user", content := .string "nine" }
    let two : Message := { role := "user", content := .string " byte" }
    ∃ e e', estimateRequest noText (fun _ => none) (fun _ => 4) (some { messages := [whole] }) = .ok e ∧
      estimateRequest noText (fun _ => none) (fun _ => 4) (some { messages := [one, two] }) = .ok e' ∧
      e.promptTokens ≤ e'.promptTokens ∧ e.totalTokens ≤ e'.totalTokens := by
  intro whole one two
  obtain ⟨e, e', he, he', hiff⟩ := estimate_not_lowered_iff noText (fun _ => none) (r := 4) (by norm_num)
    { messages := [whole] } { messages := [one, two] }
    (.single (.split [] [] whole one two "nine" " byte" rfl rfl rfl rfl rfl rfl rfl rfl)) (by decide +kernel) (by simp)
  exact ⟨e, e', he, he', hiff.2 fun _ => by decide +kernel⟩

/-- With `max_tokens` close to the largest `int`, a second message makes the total negative. -/
theorem second_message_lowers_total :
    let hi : Message := { role := "user", content := .string "hi" }
    let req : Proxy.ChatCompletionRequest := { messages := [hi], maxTokens := some (2 ^ 63 - 14) }
    ∃ e e', Grows req { req with messages := [hi, hi] } ∧
      estimateRequest noText (fun _ => none) (fun _ => 4) (some req) = .ok e ∧
      estimateRequest noText (fun _ => none) (fun _ => 4) (some { req with messages := [hi, hi] }) = .ok e' ∧
      e.totalTokens = 2 ^ 63 - 1 ∧ e'.totalTokens < 0 := by
  intro hi req
  refine ⟨_, _, ?_, rfl, rfl, by decide +kernel, by decide +kernel⟩
  exact .message [hi] [] hi rfl

end Jupiter.Processing
