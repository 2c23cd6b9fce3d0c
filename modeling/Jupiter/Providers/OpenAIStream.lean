/-
`pkg/providers/openai/streaming.go` and the stream part of `transform.go`: from the lines of an OpenAI event stream to
what the consumer of `StreamCompletion` receives.

`unmarshal` is `json.Unmarshal` into an `OpenAIStreamResponse`; `failure` is the error of the body after its last line,
if it does not just end.

Three places end a stream and they do not agree: `Read` at `[DONE]`, the goroutine at a finish reason, and
`transformStreamChunk` at a usage chunk, which has no choices.
-/
import Jupiter.Providers.StreamReader

namespace Jupiter.Providers.OpenAI

open Jupiter.Go

/-! ## Chunks -/

structure OpenAIStreamDelta where
  content : String := ""
  toolCalls : List ToolCall := []
  deriving DecidableEq

structure OpenAIStreamChoice where
  delta : OpenAIStreamDelta := {}
  finishReason : String := ""
  deriving DecidableEq

structure OpenAIStreamResponse where
  id : String := ""
  created : Int := 0
  model : String := ""
  choices : List OpenAIStreamChoice := []
  usage : Option TokenUsage := none
  deriving DecidableEq

def normalizeFinishReason (reason : String) : String :=
  if reason = "stop" then finishReasonStop
  else if reason = "length" then finishReasonLength
  else if reason = "tool_calls" ∨ reason = "function_call" then finishReasonToolCalls
  else if reason = "content_filter" then finishReasonContentFilter
  else reason

def transformStreamChunk (chunk : OpenAIStreamResponse) : Except String StreamChunk :=
  match chunk.choices with
  | [] => .error "no choices in stream chunk"
  | choice :: _ =>
    .ok {
      id := chunk.id
      model := chunk.model
      delta := choice.delta.content
      finishReason := normalizeFinishReason choice.finishReason
      created := chunk.created
      usage := chunk.usage.map fun usage =>
        { promptTokens := usage.promptTokens, completionTokens := usage.completionTokens
          totalTokens := usage.totalTokens }
      toolCalls :=
        if 0 < choice.delta.toolCalls.length then
          choice.delta.toolCalls.map fun tc =>
            { id := tc.id, type := tc.type
              function := { name := tc.function.name, arguments := tc.function.arguments } }
        else [] }

/-! ## Reading -/

/-- The size of the buffer of a `bufio.Scanner`: a line must fit into it with its newline. -/
def maxScanTokenSize : Nat := 64 * 1024

/-- What `bufio.ScanLines` does to a line. -/
def dropCR (line : String) : String :=
  if Strings.endsWith line "\r" then String.ofList line.toList.dropLast else line

section Read

variable (provider : String) (unmarshal : String → Except String OpenAIStreamResponse) (failure : Option String)

def streamError (cause : String) : ReadResult :=
  .error (.stream { provider, message := "failed to read stream", cause })

def readData (data : String) : ReadResult :=
  if data = "[DONE]" then .error .eof
  else
    match unmarshal data with
    | .error err =>
      .error (.parse { provider, rawResponse := data, cause := "failed to parse stream chunk: " ++ err })
    | .ok openaiChunk =>
      match transformStreamChunk openaiChunk with
      | .error err => .error (.parse { provider, cause := err })
      | .ok chunk => .chunk chunk

/-- One iteration of the loop of `Read`, unless it continues with the next line. -/
def readLine (raw : String) : Option ReadResult :=
  -- `Scan` stops for good at such a line.
  if maxScanTokenSize ≤ raw.utf8ByteSize then some (streamError provider "bufio.Scanner: token too long")
  else
    let line := dropCR raw
    if line = "" then none
    -- comments, event types and other fields
    else if !Strings.startsWith line "data: " then none
    else some (readData provider unmarshal (Strings.trimPrefix line "data: "))

def endOfBody : ReadResult :=
  match failure with
  | some err => streamError provider err
  | none => .error .eof

/-- The results of `Read`, called until the body ends. What stands after an error does not matter: the goroutine does
not read again. -/
def reads : List String → List ReadResult
  | [] => [endOfBody provider failure]
  | raw :: rest =>
    match readLine provider unmarshal raw with
    | none => reads rest
    | some result => result :: reads rest

def sent (lines : List String) : List Sent := Streaming.relay (reads provider unmarshal failure lines)

theorem sent_cons (raw : String) (rest : List String) : sent provider unmarshal failure (raw :: rest) =
    match readLine provider unmarshal raw with
    | none => sent provider unmarshal failure rest
    | some result => Streaming.relay (result :: reads provider unmarshal failure rest) := by
  rw [sent, reads]
  cases readLine provider unmarshal raw <;> rfl

def Ends (lines : List String) : Prop := ∃ err, sent provider unmarshal failure lines = [.error err]

end Read

/-! ## Event streams -/

/-- The text of a line, without a carriage return, and whether one ends the line. -/
structure Line where
  text : String
  crlf : Bool := false
  noCR : '\r' ∉ text.toList

def Line.raw (line : Line) : String := if line.crlf then line.text ++ "\r" else line.text

def Line.Fits (line : Line) : Prop := line.raw.utf8ByteSize < maxScanTokenSize

theorem dropCR_raw (line : Line) : dropCR line.raw = line.text := by
  unfold Line.raw dropCR Strings.endsWith
  cases line.crlf with
  | true =>
    have hsuffix : ("\r".toList.isSuffixOf (line.text ++ "\r").toList) = true := by
      rw [String.toList_append]
      exact List.isSuffixOf_iff_suffix.2 (List.suffix_append _ _)
    rw [if_pos rfl, if_pos hsuffix, String.toList_append]
    exact (congrArg String.ofList List.dropLast_concat).trans String.ofList_toList
  | false =>
    rw [if_neg Bool.false_ne_true]
    refine if_neg fun h => line.noCR ?_
    exact (List.isSuffixOf_iff_suffix.1 h).subset (.head _)

/-- A data line: the field name, a space or none, and the data, which starts with a space only after another one. -/
structure DataLine where
  spaced : Bool
  data : String
  crlf : Bool := false
  noCR : '\r' ∉ data.toList
  noSpace : spaced = false → Strings.startsWith data " " = false

def DataLine.line (d : DataLine) : Line where
  text := (if d.spaced then "data: " else "data:") ++ d.data
  crlf := d.crlf
  noCR := by
    rw [String.toList_append, List.mem_append]
    rintro (h | h)
    · cases hs : d.spaced <;> rw [hs] at h <;> revert h <;> decide
    · exact d.noCR h

def doneLine (spaced crlf : Bool) : DataLine where
  spaced := spaced
  data := "[DONE]"
  crlf := crlf
  noCR := by decide
  noSpace := fun _ => by decide

/-- A line that is not a data line: blank, a comment or another field. -/
structure OtherLine extends Line where
  notData : Strings.startsWith text "data:" = false

section Events

variable {unmarshal : String → Except String OpenAIStreamResponse}

/-- A data line that holds a chunk object. -/
structure ChunkLine (unmarshal : String → Except String OpenAIStreamResponse) extends DataLine where
  object : OpenAIStreamResponse
  parses : unmarshal data = .ok object
  notDone : data ≠ "[DONE]"

inductive Event (unmarshal : String → Except String OpenAIStreamResponse) where
  | other (line : OtherLine)
  | chunk (line : ChunkLine unmarshal)

namespace Event

def line : Event unmarshal → Line
  | .other l => l.toLine
  | .chunk l => l.line

def object? : Event unmarshal → Option OpenAIStreamResponse
  | .other _ => none
  | .chunk l => some l.object

/-- `Read` finds the data of the line, if it has any. -/
def Found (e : Event unmarshal) : Prop :=
  e.line.Fits ∧ match e with
    | .other _ => True
    | .chunk l => l.spaced = true

end Event

def objects (events : List (Event unmarshal)) : List OpenAIStreamResponse := events.filterMap Event.object?

theorem mem_objects {events : List (Event unmarshal)} {o : OpenAIStreamResponse} :
    o ∈ objects events ↔ ∃ e ∈ events, e.object? = some o := List.mem_filterMap

/-! ## What a chunk object says -/

def OpenAIStreamResponse.finishReason (object : OpenAIStreamResponse) : String := (object.choices.headD {}).finishReason

/-- The chunk that tells all the object does: of an object without choices, whose response it is of and the usage. -/
def OpenAIStreamResponse.chunk (object : OpenAIStreamResponse) : StreamChunk where
  id := object.id
  model := object.model
  delta := (object.choices.headD {}).delta.content
  finishReason := normalizeFinishReason object.finishReason
  toolCalls := (object.choices.headD {}).delta.toolCalls
  usage := object.usage
  created := object.created

theorem normalizeFinishReason_eq_empty (reason : String) : normalizeFinishReason reason = "" ↔ reason = "" := by
  unfold normalizeFinishReason
  split_ifs with h1 h2 h3 h4
  · subst h1; decide
  · subst h2; decide
  · rcases h3 with rfl | rfl <;> decide
  · subst h4; decide
  · exact Iff.rfl

theorem transformStreamChunk_eq (object : OpenAIStreamResponse) : transformStreamChunk object =
    if object.choices = [] then .error "no choices in stream chunk" else .ok object.chunk := by
  obtain ⟨id, created, model, choices, usage⟩ := object
  cases choices with
  | nil => rfl
  | cons choice more =>
    obtain ⟨⟨content, toolCalls⟩, reason⟩ := choice
    have hcalls : (if 0 < toolCalls.length then toolCalls.map fun tc => tc else []) = toolCalls := by
      cases toolCalls <;> simp
    have husage : usage.map (fun u => u) = usage := by simp
    rw [if_neg (List.cons_ne_nil _ _)]
    simp only [transformStreamChunk, OpenAIStreamResponse.chunk, OpenAIStreamResponse.finishReason, List.headD_cons,
      hcalls, husage]

/-! ## Which streams get through -/

/-- The last chunk object, and no other, carries a finish reason; the objects before it have choices; and up to its line
every line fits into the scanner's buffer and every data line has its space. -/
def Readable (events : List (Event unmarshal)) : Prop :=
  ∃ earlier last later object, events = earlier ++ last :: later ∧ last.object? = some object ∧ objects later = [] ∧
    object.finishReason ≠ "" ∧ (∀ o ∈ objects earlier, o.choices ≠ [] ∧ o.finishReason = "") ∧
    ∀ e ∈ earlier ++ [last], e.Found

theorem readable_nil : ¬ Readable ([] : List (Event unmarshal)) := by
  rintro ⟨earlier, last, later, object, h, -⟩
  cases earlier <;> cases h

theorem readable_cons (e : Event unmarshal) (events : List (Event unmarshal)) :
    Readable (e :: events) ↔ e.Found ∧
      ((∃ o, e.object? = some o ∧ o.finishReason ≠ "" ∧ objects events = []) ∨
        (∀ o, e.object? = some o → o.choices ≠ [] ∧ o.finishReason = "") ∧ Readable events) := by
  constructor
  · rintro ⟨earlier, last, later, object, h, hlast, hlater, hfinish, hearlier, hfound⟩
    cases earlier with
    | nil =>
      cases h
      exact ⟨hfound e (.head _), .inl ⟨object, hlast, hfinish, hlater⟩⟩
    | cons first earlier =>
      cases h
      refine ⟨hfound e (.head _), .inr ⟨fun o ho => hearlier o (mem_objects.2 ⟨e, .head _, ho⟩), ?_⟩⟩
      refine ⟨earlier, last, later, object, rfl, hlast, hlater, hfinish, fun o ho => ?_, fun e' he => ?_⟩
      · obtain ⟨e', he, ho⟩ := mem_objects.1 ho
        exact hearlier o (mem_objects.2 ⟨e', .tail _ he, ho⟩)
      · exact hfound e' (.tail _ he)
  · rintro ⟨hfound, ⟨object, hlast, hfinish, hlater⟩ | ⟨hobject, hreadable⟩⟩
    · refine ⟨[], e, events, object, rfl, hlast, hlater, hfinish, fun o ho => (by cases ho), ?_⟩
      exact List.forall_mem_singleton.2 hfound
    · obtain ⟨earlier, last, later, object, rfl, hlast, hlater, hfinish, hearlier, hrest⟩ := hreadable
      refine ⟨e :: earlier, last, later, object, rfl, hlast, hlater, hfinish, fun o ho => ?_,
        List.forall_mem_cons.2 ⟨hfound, hrest⟩⟩
      obtain ⟨e', he, ho'⟩ := mem_objects.1 ho
      rcases List.mem_cons.1 he with rfl | he
      · exact hobject o ho'
      · exact hearlier o (mem_objects.2 ⟨e', he, ho'⟩)

theorem readable_cons_none {e : Event unmarshal} (events : List (Event unmarshal)) (h : e.object? = none) :
    Readable (e :: events) ↔ e.Found ∧ Readable events := by
  rw [readable_cons, h]
  simp

theorem readable_cons_some {e : Event unmarshal} {o : OpenAIStreamResponse} (events : List (Event unmarshal))
    (h : e.object? = some o) : Readable (e :: events) ↔ e.Found ∧
      (o.finishReason ≠ "" ∧ objects events = [] ∨ (o.choices ≠ [] ∧ o.finishReason = "") ∧ Readable events) := by
  rw [readable_cons, h]
  simp

section Relay

variable (provider : String) (failure : Option String)

theorem readLine_long {line : Line} (h : ¬ line.Fits) :
    readLine provider unmarshal line.raw = some (streamError provider "bufio.Scanner: token too long") :=
  if_pos (Nat.le_of_not_lt h)

theorem readLine_fits {line : Line} (h : line.Fits) : readLine provider unmarshal line.raw =
    if Strings.startsWith line.text "data: " then
      some (readData provider unmarshal (Strings.trimPrefix line.text "data: "))
    else none := by
  unfold readLine
  rw [if_neg (Nat.not_le_of_lt h), dropCR_raw]
  by_cases hblank : line.text = ""
  · rw [hblank]
    rfl
  · cases hstart : Strings.startsWith line.text "data: " <;> simp [hblank, hstart]

theorem readLine_other (line : OtherLine) (h : line.Fits) : readLine provider unmarshal line.raw = none := by
  rw [readLine_fits provider h, if_neg]
  intro hstart
  have hdata : Strings.startsWith line.text "data:" = true :=
    List.isPrefixOf_iff_prefix.2 (.trans (by decide) (List.isPrefixOf_iff_prefix.1 hstart))
  rw [line.notData] at hdata
  cases hdata

theorem readLine_data (d : DataLine) (h : d.line.Fits) : readLine provider unmarshal d.line.raw =
    if d.spaced then some (readData provider unmarshal d.data) else none := by
  have htext : d.line.text = (if d.spaced then "data: " else "data:") ++ d.data := rfl
  rw [readLine_fits provider h, htext]
  cases hspaced : d.spaced with
  | true =>
    simp only [if_true]
    rw [if_pos (Strings.startsWith_append _ _), Strings.trimPrefix_append]
  | false =>
    have hstart : Strings.startsWith ("data:" ++ d.data) "data: " = Strings.startsWith d.data " " := by
      simp only [Strings.startsWith, String.toList_append]
      rfl
    simp only [Bool.false_eq_true, if_false, hstart, d.noSpace hspaced]

theorem readData_chunk (l : ChunkLine unmarshal) : readData provider unmarshal l.data =
    if l.object.choices = [] then .error (.parse { provider, cause := "no choices in stream chunk" })
    else .chunk l.object.chunk := by
  rw [readData, if_neg l.notDone, l.parses]
  simp only [transformStreamChunk_eq]
  by_cases hchoices : l.object.choices = []
  · simp only [if_pos hchoices]
  · simp only [if_neg hchoices]

/-- What becomes of a line's event, when the lines after it make `later`. -/
inductive Passes (e : Event unmarshal) (later : List Sent) : List Sent → Prop where
  | long {err : ReadError} (hmissed : ¬ e.Found) : Passes e later [.error err]
  | other (hfound : e.Found) (hobject : e.object? = none) : Passes e later later
  | unspaced {o : OpenAIStreamResponse} (hmissed : ¬ e.Found) (hobject : e.object? = some o) : Passes e later later
  | noChoices {o : OpenAIStreamResponse} {err : ReadError} (hobject : e.object? = some o) (hchoices : o.choices = []) :
    Passes e later [.error err]
  | last {o : OpenAIStreamResponse} (hfound : e.Found) (hobject : e.object? = some o) (hfinish : o.finishReason ≠ "") :
    Passes e later [.ok o.chunk]
  | next {o : OpenAIStreamResponse} (hfound : e.Found) (hobject : e.object? = some o) (hchoices : o.choices ≠ [])
    (hfinish : o.finishReason = "") : Passes e later (.ok o.chunk :: later)

theorem passes_sent (e : Event unmarshal) (rest : List String) :
    Passes e (sent provider unmarshal failure rest) (sent provider unmarshal failure (e.line.raw :: rest)) := by
  rw [sent_cons]
  by_cases hfits : e.line.Fits
  swap
  · -- Too long a line ends the stream, whatever it holds.
    rw [readLine_long provider hfits]
    exact .long fun h => hfits h.1
  cases e with
  | other l =>
    rw [Event.line, readLine_other provider l hfits]
    exact .other ⟨hfits, trivial⟩ rfl
  | chunk l =>
    rw [Event.line, readLine_data provider l.toDataLine hfits]
    cases hspaced : l.spaced with
    | false => exact .unspaced (fun h => Bool.false_ne_true (hspaced.symm.trans h.2)) rfl
    | true =>
      rw [if_pos rfl, readData_chunk]
      by_cases hchoices : l.object.choices = []
      · rw [if_pos hchoices]
        exact .noChoices rfl hchoices
      · rw [if_neg hchoices]
        by_cases hfinish : l.object.finishReason = ""
        · have hnext : l.object.chunk.finishReason = "" := (normalizeFinishReason_eq_empty _).2 hfinish
          simp only [Streaming.relay, hnext, ne_eq, not_true_eq_false, if_false]
          exact .next ⟨hfits, hspaced⟩ rfl hchoices hfinish
        · have hlast : l.object.chunk.finishReason ≠ "" := fun h => hfinish ((normalizeFinishReason_eq_empty _).1 h)
          simp only [Streaming.relay, if_pos hlast]
          exact .last ⟨hfits, hspaced⟩ rfl hfinish

def isChunk : Sent → Bool
  | .ok _ => true
  | .error _ => false

def complete (events : List (Event unmarshal)) : List Sent := (objects events).map fun o => .ok o.chunk

theorem complete_cons_none {e : Event unmarshal} (events : List (Event unmarshal)) (h : e.object? = none) :
    complete (e :: events) = complete events := by
  rw [complete, objects, List.filterMap_cons_none h]
  rfl

theorem complete_cons_some {e : Event unmarshal} {o : OpenAIStreamResponse} (events : List (Event unmarshal))
    (h : e.object? = some o) : complete (e :: events) = .ok o.chunk :: complete events := by
  rw [complete, objects, List.filterMap_cons_some h]
  rfl

theorem error_ne_complete (events : List (Event unmarshal)) (err : ReadError) : [.error err] ≠ complete events := by
  unfold complete
  cases objects events with
  | nil => exact List.cons_ne_nil _ _
  | cons o os =>
    intro h
    cases h

theorem nil_eq_complete (events : List (Event unmarshal)) : [] = complete events ↔ objects events = [] :=
  eq_comm.trans List.map_eq_nil_iff

theorem countP_sent_le {tail : List String} (htail : Ends provider unmarshal failure tail)
    (events : List (Event unmarshal)) :
    (sent provider unmarshal failure (events.map (·.line.raw) ++ tail)).countP isChunk ≤ (complete events).length := by
  induction events with
  | nil =>
    obtain ⟨err, htail⟩ := htail
    rw [List.map_nil, List.nil_append, htail]
    exact Nat.zero_le _
  | cons e events ih =>
    rw [List.map_cons, List.cons_append]
    have hpasses := passes_sent provider failure e (events.map (·.line.raw) ++ tail)
    generalize sent provider unmarshal failure (e.line.raw :: (events.map (·.line.raw) ++ tail)) = all at hpasses ⊢
    cases hpasses with
    | long hmissed => exact Nat.zero_le _
    | other hfound hobject => rwa [complete_cons_none events hobject]
    | unspaced hmissed hobject =>
      rw [complete_cons_some events hobject, List.length_cons]
      omega
    | noChoices hobject hchoices => exact Nat.zero_le _
    | last hfound hobject hfinish =>
      rw [complete_cons_some events hobject, List.length_cons]
      exact Nat.succ_le_succ (Nat.zero_le _)
    | next hfound hobject hchoices hfinish =>
      rw [complete_cons_some events hobject, List.length_cons, List.countP_cons_of_pos rfl]
      omega

theorem countP_complete (events : List (Event unmarshal)) :
    (complete events).countP isChunk = (complete events).length := by
  rw [List.countP_eq_length]
  intro x hx
  obtain ⟨o, -, rfl⟩ := List.mem_map.1 hx
  rfl

theorem sent_eq_complete_iff {tail : List String} (htail : Ends provider unmarshal failure tail)
    (events : List (Event unmarshal)) :
    sent provider unmarshal failure (events.map (·.line.raw) ++ tail) = complete events ↔ Readable events := by
  induction events with
  | nil =>
    obtain ⟨err, htail⟩ := htail
    rw [List.map_nil, List.nil_append, htail]
    exact iff_of_false (error_ne_complete [] err) readable_nil
  | cons e events ih =>
    rw [List.map_cons, List.cons_append]
    have hcount := countP_sent_le provider failure htail events
    have hpasses := passes_sent provider failure e (events.map (·.line.raw) ++ tail)
    generalize sent provider unmarshal failure (e.line.raw :: (events.map (·.line.raw) ++ tail)) = all at hpasses ⊢
    cases hpasses with
    | long hmissed =>
      rw [readable_cons]
      exact iff_of_false (error_ne_complete _ _) fun h => hmissed h.1
    | other hfound hobject =>
      rw [complete_cons_none events hobject, readable_cons_none events hobject, ih]
      exact (and_iff_right hfound).symm
    | unspaced hmissed hobject =>
      -- The object is lost, and the rest does not send a chunk more than it has objects.
      rw [readable_cons]
      refine iff_of_false (fun h => ?_) fun h => hmissed h.1
      rw [h, complete_cons_some events hobject, List.countP_cons_of_pos rfl, countP_complete] at hcount
      omega
    | @noChoices o err hobject hchoices =>
      have hfinish : o.finishReason = "" := by
        rw [OpenAIStreamResponse.finishReason, hchoices]
        rfl
      rw [readable_cons_some events hobject]
      refine iff_of_false (error_ne_complete _ _) ?_
      rintro ⟨-, ⟨hlast, -⟩ | ⟨⟨hsome, -⟩, -⟩⟩
      · exact hlast hfinish
      · exact hsome hchoices
    | last hfound hobject hfinish =>
      -- The reader stops here, so no object may follow.
      rw [complete_cons_some events hobject, readable_cons_some events hobject, List.cons_eq_cons, nil_eq_complete]
      constructor
      · rintro ⟨-, hnone⟩
        exact ⟨hfound, .inl ⟨hfinish, hnone⟩⟩
      · rintro ⟨-, ⟨-, hnone⟩ | ⟨⟨-, hempty⟩, -⟩⟩
        · exact ⟨rfl, hnone⟩
        · exact absurd hempty hfinish
    | next hfound hobject hchoices hfinish =>
      rw [complete_cons_some events hobject, readable_cons_some events hobject, List.cons_eq_cons, ih]
      constructor
      · rintro ⟨-, hreadable⟩
        exact ⟨hfound, .inr ⟨⟨hchoices, hfinish⟩, hreadable⟩⟩
      · rintro ⟨-, ⟨hlast, -⟩ | ⟨-, hreadable⟩⟩
        · exact absurd hfinish hlast
        · exact ⟨rfl, hreadable⟩

/-! ## The end of a stream -/

theorem ends_others (lines : List OtherLine) :
    Ends provider unmarshal failure (lines.map (·.raw)) := by
  induction lines with
  | nil =>
    cases failure with
    | none => exact ⟨_, rfl⟩
    | some err => exact ⟨_, rfl⟩
  | cons line lines ih =>
    rw [Ends, List.map_cons, sent_cons]
    by_cases hfits : line.Fits
    · rwa [readLine_other provider line hfits]
    · rw [readLine_long provider hfits]
      exact ⟨_, rfl⟩

theorem ends_done (spaced crlf : Bool) (lines : List OtherLine) :
    Ends provider unmarshal failure ((doneLine spaced crlf).line.raw :: lines.map (·.raw)) := by
  have hfits : (doneLine spaced crlf).line.Fits := by
    unfold Line.Fits
    revert spaced crlf
    decide
  rw [Ends, sent_cons, readLine_data provider _ hfits]
  cases spaced with
  | false => exact ends_others provider failure lines
  | true => exact ⟨.eof, rfl⟩

/-- For a stream of chunk objects and other lines, the consumer gets a chunk for every object and no error chunk if and
only if the last object, and no other, carries a finish reason, every object before it has choices, and up to it every
line fits into the buffer and every data line has its space. -/
theorem stream_relayed_iff (provider : String) (unmarshal : String → Except String OpenAIStreamResponse)
    (failure : Option String) (events : List (Event unmarshal)) (spaced crlf : Bool) (trailing : List OtherLine) :
    Delivers (reads provider unmarshal failure
        (events.map (·.line.raw) ++ (doneLine spaced crlf).line.raw :: trailing.map (·.raw))) (complete events) ↔
      Readable events := by
  rw [delivers_iff]
  exact sent_eq_complete_iff provider failure (ends_done provider failure spaced crlf trailing) events

end Relay

end Events

/-! ## A stream with a usage chunk -/

def textJSON : String :=
  "\x7b\"id\":\"c1\",\"choices\":[\x7b\"delta\":\x7b\"content\":\"Hi\"\x7d,\"finish_reason\":\"stop\"\x7d]\x7d"

def textObject : OpenAIStreamResponse :=
  { id := "c1", choices := [{ delta := { content := "Hi" }, finishReason := "stop" }] }

def usageJSON : String :=
  "\x7b\"id\":\"c1\",\"choices\":[]," ++
    "\"usage\":\x7b\"prompt_tokens\":5,\"completion_tokens\":1,\"total_tokens\":6\x7d\x7d"

def usageObject : OpenAIStreamResponse :=
  { id := "c1", usage := some { promptTokens := 5, completionTokens := 1, totalTokens := 6 } }

def unmarshalTwo (data : String) : Except String OpenAIStreamResponse :=
  if data = textJSON then .ok textObject
  else if data = usageJSON then .ok usageObject
  else .error "invalid character"

def blankLine : OtherLine := { text := "", noCR := by decide, notData := by decide }

def textThenUsage : List (Event unmarshalTwo) :=
  [.chunk { spaced := true, data := textJSON, noCR := by decide +kernel, noSpace := fun h => (by cases h)
            object := textObject, parses := by decide +kernel, notDone := by decide +kernel },
    .other blankLine,
    .chunk { spaced := true, data := usageJSON, noCR := by decide +kernel, noSpace := fun h => (by cases h)
             object := usageObject, parses := by decide +kernel, notDone := by decide +kernel },
    .other blankLine]

/-- The reader stops at the finish reason: the usage chunk, two lines below it, is not delivered. -/
theorem usage_not_relayed :
    let upstream := reads "openai" unmarshalTwo none
      (textThenUsage.map (·.line.raw) ++ [(doneLine true false).line.raw, ""])
    Delivers upstream [.ok textObject.chunk] ∧ ¬ Delivers upstream (complete textThenUsage) := by
  simp only [delivers_iff]
  decide +kernel

end Jupiter.Providers.OpenAI
