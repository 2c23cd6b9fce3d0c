/-
`readEvent` of `pkg/providers/anthropic/streaming.go` and `AnthropicStreamEvent.UnmarshalJSON`: from the body of an
Anthropic event stream to its events.

A delta is decoded by the type that the object itself names: the type of the event line is filled in afterwards, so an
object without a type has no delta.

A stream is written with comments, ids and retry times between its fields and any number of blank lines around its
events.
-/
import Jupiter.Providers.Anthropic
import Jupiter.Providers.OpenAIStream

namespace Jupiter.Providers.Anthropic

open Jupiter.Go
open Jupiter.Providers.OpenAI (maxScanTokenSize dropCR Line dropCR_raw)

/-! ## Decoding -/

def EventType.ofString (name : String) : EventType :=
  if name = "message_start" then .messageStart
  else if name = "content_block_start" then .contentBlockStart
  else if name = "content_block_delta" then .contentBlockDelta
  else if name = "content_block_stop" then .contentBlockStop
  else if name = "message_delta" then .messageDelta
  else if name = "message_stop" then .messageStop
  else if name = "ping" then .ping
  else .other name

/-- The fields of `aux`: those of the event, and the text of the delta. -/
structure AuxEvent where
  type : String := ""
  message : Option AnthropicResponse := none
  index : Int := 0
  contentBlock : Option ContentBlock := none
  usage : Option AnthropicUsage := none
  rawDelta : String := ""

/-- `json.Unmarshal` into the types of an event. -/
structure Decoders where
  aux : String → Except String AuxEvent
  contentBlockDelta : String → Except String ContentBlockDelta
  messageDelta : String → Except String MessageDelta

/-- The event of type `type` with these fields, the delta being decoded as that type has it. -/
def AuxEvent.toEvent (decoders : Decoders) (aux : AuxEvent) (type : EventType) : Except String AnthropicStreamEvent :=
  let e : AnthropicStreamEvent :=
    { type, message := aux.message, index := aux.index, contentBlock := aux.contentBlock, usage := aux.usage }
  if aux.rawDelta ≠ "" then
    match type with
    | .contentBlockDelta => (decoders.contentBlockDelta aux.rawDelta).map fun delta => { e with delta := some delta }
    | .messageDelta => (decoders.messageDelta aux.rawDelta).map fun delta => { e with delta2 := some delta }
    | _ => .ok e
  else .ok e

def unmarshalJSON (decoders : Decoders) (data : String) : Except String AnthropicStreamEvent :=
  match decoders.aux data with
  | .error err => .error err
  | .ok aux => aux.toEvent decoders (.ofString aux.type)

theorem EventType.eq_of_ofString {name : String} (h : EventType.ofString name = .other "") : name = "" := by
  unfold ofString at h
  split_ifs at h
  injection h

namespace AuxEvent

variable {decoders : Decoders} (aux : AuxEvent) {type : EventType} {event : AnthropicStreamEvent}

theorem toEvent_untyped : aux.toEvent decoders (.ofString "") =
    .ok { type := .other "", message := aux.message, index := aux.index, contentBlock := aux.contentBlock
          usage := aux.usage } := by
  unfold toEvent
  split <;> rfl

theorem toEvent_spec (h : aux.toEvent decoders type = .ok event) :
    event.type = type ∧
      (({ type, message := aux.message, index := aux.index, contentBlock := aux.contentBlock, usage := aux.usage } :
        AnthropicStreamEvent) = event ↔ (aux.rawDelta ≠ "" → type ≠ .contentBlockDelta ∧ type ≠ .messageDelta)) := by
  unfold toEvent at h
  by_cases hraw : aux.rawDelta = ""
  · rw [if_neg (not_not_intro hraw)] at h
    cases h
    exact ⟨rfl, iff_of_true rfl fun hne => absurd hraw hne⟩
  · rw [if_pos hraw] at h
    cases type with
    | contentBlockDelta =>
      dsimp only at h
      cases hd : decoders.contentBlockDelta aux.rawDelta with
      | error err => rw [hd] at h; cases h
      | ok delta =>
        rw [hd] at h
        cases h
        simp [hraw]
    | messageDelta =>
      dsimp only at h
      cases hd : decoders.messageDelta aux.rawDelta with
      | error err => rw [hd] at h; cases h
      | ok delta =>
        rw [hd] at h
        cases h
        simp [hraw]
    | _ => cases h; simp

end AuxEvent

/-- The type of the event line, if there is one, for an object that has none. -/
def AnthropicStreamEvent.fillType (event : AnthropicStreamEvent) (eventType : String) : AnthropicStreamEvent :=
  if eventType ≠ "" ∧ event.type = .other "" then { event with type := .ofString eventType } else event

/-! ## Reading -/

/-- The lines `bufio.ScanLines` finds after the characters `line`, with their carriage returns. Nothing stands after a
last newline. -/
def scanLines (line : List Char) : List Char → List String
  | [] => if line = [] then [] else [String.ofList line]
  | c :: rest => if c = '\n' then String.ofList line :: scanLines [] rest else scanLines (line ++ [c]) rest

/-- `eventType` and `dataLines`. -/
structure Fields where
  eventType : String := ""
  dataLines : List String := []

def Fields.found (fields : Fields) : Bool := fields.eventType ≠ "" || 0 < fields.dataLines.length

def Fields.parse (fields : Fields) (line : String) : Fields :=
  if Strings.startsWith line "event: " then { fields with eventType := Strings.trimPrefix line "event: " }
  else if Strings.startsWith line "data: " then
    { fields with dataLines := fields.dataLines ++ [Strings.trimPrefix line "data: "] }
  -- other fields and comments
  else fields

inductive EventError where
  | eof
  | scan (err : String)
  | parse (err : ParseError)
  deriving DecidableEq

section Read

variable (provider : String) (decoders : Decoders) (failure : Option String)

def readFields (fields : Fields) : List String → Fields × Option String × List String
  | [] => (fields, failure, [])
  | raw :: rest =>
    -- `Scan` stops for good at such a line.
    if maxScanTokenSize ≤ raw.utf8ByteSize then (fields, some "bufio.Scanner: token too long", raw :: rest)
    else
      let line := dropCR raw
      if line = "" then
        if fields.found then (fields, none, rest) else readFields fields rest
      else readFields (fields.parse line) rest

def parseEvent (fields : Fields) : Except EventError AnthropicStreamEvent :=
  if !fields.found then .error .eof
  else
    let data := "\n".intercalate fields.dataLines
    if data ≠ "" then
      match unmarshalJSON decoders data with
      | .error err =>
        .error (.parse { provider, rawResponse := data, cause := "failed to parse stream event: " ++ err })
      | .ok event => .ok (event.fillType fields.eventType)
    else .ok (AnthropicStreamEvent.fillType { type := .other "" } fields.eventType)

def readEvent (lines : List String) : Except EventError AnthropicStreamEvent × List String :=
  match readFields failure {} lines with
  | (_, some err, rest) => (.error (.scan err), rest)
  | (fields, none, rest) => (parseEvent provider decoders fields, rest)

/-- What that many calls return. -/
def readEvents : Nat → List String → List (Except EventError AnthropicStreamEvent)
  | 0, _ => []
  | calls + 1, lines =>
    (readEvent provider decoders failure lines).1 ::
      readEvents calls (readEvent provider decoders failure lines).2

end Read

/-! ## Writing -/

/-- A line without line breaks of its own that the scanner has room for. -/
structure StreamLine extends Line where
  noLF : '\n' ∉ text.toList
  fits : toLine.Fits

instance (line : Line) : Decidable line.Fits := inferInstanceAs (Decidable (_ < _))

namespace StreamLine

def blank (line : StreamLine) : Bool := line.text = ""

/-- A comment, an id or a retry time. -/
def skipped (line : StreamLine) : Bool :=
  Strings.startsWith line.text ":" || Strings.startsWith line.text "id:" || Strings.startsWith line.text "retry:"

def between (line : StreamLine) : Bool := line.blank || line.skipped

end StreamLine

def bodyText (lines : List StreamLine) : List Char := lines.flatMap fun line => line.raw.toList ++ ['\n']

/-- The event that a type and data lines stand for: with data, the object that they join to, which is of its own type or
else of that type. -/
inductive Means (decoders : Decoders) (type : String) : List String → AnthropicStreamEvent → Prop
  | noData : Means decoders type [] { type := .ofString type }
  | object {data : List String} {aux : AuxEvent} {event : AnthropicStreamEvent} (joined : "\n".intercalate data ≠ "")
    (fields : decoders.aux ("\n".intercalate data) = .ok aux)
    (decoded : aux.toEvent decoders (.ofString (if aux.type = "" then type else aux.type)) = .ok event) :
    Means decoders type data event

/-- An event as it is written: the event line and the data lines, with other lines around and between them. -/
structure WrittenEvent (decoders : Decoders) where
  type : String
  data : List String
  event : AnthropicStreamEvent
  lines : List StreamLine
  type_ne : type ≠ ""
  means : Means decoders type data event
  written : (lines.filter (!·.skipped)).map (·.text) = ("event: " ++ type) :: data.map ("data: " ++ ·)

/-- The events with the lines before the first and after each. A blank line ends an event; the last event may do
without it, and a last line that is not empty without its newline. -/
structure WrittenStream (decoders : Decoders) where
  lead : List StreamLine
  events : List (WrittenEvent decoders × List StreamLine)
  unterminated : Bool := false
  lead_between : ∀ line ∈ lead, line.between
  events_between : ∀ e ∈ events, ∀ line ∈ e.2, line.between
  events_ended : ∀ e ∈ events.dropLast, ∃ line ∈ e.2, line.blank
  last_ne : unterminated → ∀ line ∈ (lead ++ events.flatMap fun e => e.1.lines ++ e.2).getLast?, line.raw ≠ ""

namespace WrittenStream

variable {decoders : Decoders}

def lines (stream : WrittenStream decoders) : List StreamLine :=
  stream.lead ++ stream.events.flatMap fun e => e.1.lines ++ e.2

def body (stream : WrittenStream decoders) : List Char :=
  if stream.unterminated then (bodyText stream.lines).dropLast else bodyText stream.lines

end WrittenStream

/-! ## The lines of a body -/

theorem scanLines_newline (line : List Char) {l : List Char} (h : '\n' ∉ l) (rest : List Char) :
    scanLines line (l ++ '\n' :: rest) = String.ofList (line ++ l) :: scanLines [] rest := by
  induction l generalizing line with
  | nil => simp [scanLines]
  | cons c l ih =>
    have hc : c ≠ '\n' := fun hc => h (hc ▸ List.mem_cons_self)
    rw [List.cons_append, scanLines, if_neg hc, ih _ fun hl => h (List.mem_cons_of_mem _ hl)]
    simp

theorem scanLines_last (line : List Char) {l : List Char} (h : '\n' ∉ l) (hne : line ++ l ≠ []) :
    scanLines line l = [String.ofList (line ++ l)] := by
  induction l generalizing line with
  | nil =>
    rw [List.append_nil] at hne
    rw [scanLines, if_neg hne, List.append_nil]
  | cons c l ih =>
    have hc : c ≠ '\n' := fun hc => h (hc ▸ List.mem_cons_self)
    rw [scanLines, if_neg hc, ih _ (fun hl => h (List.mem_cons_of_mem _ hl)) (by simp)]
    simp

theorem StreamLine.noLF_raw (line : StreamLine) : '\n' ∉ line.raw.toList := by
  unfold Line.raw
  cases line.crlf with
  | false => exact line.noLF
  | true =>
    rw [if_pos rfl, String.toList_append, List.mem_append]
    rintro (h | h)
    · exact line.noLF h
    · revert h
      decide

theorem scanLines_bodyText (lines : List StreamLine) (rest : List Char) :
    scanLines [] (bodyText lines ++ rest) = lines.map (·.raw) ++ scanLines [] rest := by
  induction lines with
  | nil => rfl
  | cons line lines ih =>
    have hsplit : bodyText (line :: lines) ++ rest = line.raw.toList ++ '\n' :: (bodyText lines ++ rest) := by
      simp [bodyText]
    rw [hsplit, scanLines_newline [] line.noLF_raw, ih]
    simp

theorem WrittenStream.scanLines_body {decoders : Decoders} (stream : WrittenStream decoders) :
    scanLines [] stream.body = stream.lines.map (·.raw) := by
  rw [body]
  cases hu : stream.unterminated with
  | false => simpa [scanLines] using scanLines_bodyText stream.lines []
  | true =>
    rw [if_pos rfl]
    rcases List.eq_nil_or_concat stream.lines with hnil | ⟨init, line, hlines⟩
    · rw [hnil]
      rfl
    · have hne : line.raw ≠ "" := stream.last_ne hu line (by
        show line ∈ stream.lines.getLast?
        simp [hlines])
      have hbody : (bodyText stream.lines).dropLast = bodyText init ++ line.raw.toList := by
        rw [hlines]
        simp [bodyText, ← List.append_assoc]
      rw [hbody, scanLines_bodyText, scanLines_last [] line.noLF_raw (by simpa using hne), hlines]
      simp

/-! ## The fields of an event -/

theorem startsWith_or_startsWith {s p q : String} (hp : Strings.startsWith s p) (hq : Strings.startsWith s q) :
    Strings.startsWith p q ∨ Strings.startsWith q p := by
  rw [Strings.startsWith_iff] at hp hq
  rw [Strings.startsWith_iff, Strings.startsWith_iff]
  exact List.prefix_or_prefix_of_prefix hq hp

theorem StreamLine.parse_skipped {line : StreamLine} (h : line.skipped) (fields : Fields) :
    fields.parse line.text = fields := by
  have hfield : ∀ field ∈ ["event: ", "data: "], ¬ Strings.startsWith line.text field := by
    intro field hf hs
    simp only [skipped, Bool.or_eq_true] at h
    rcases h with (h | h) | h
    all_goals
      have hor := startsWith_or_startsWith h hs
      clear h hs
      revert hor field
      decide
  rw [Fields.parse, if_neg (hfield _ (by simp)), if_neg (hfield _ (by simp))]

theorem StreamLine.not_blank_of_skipped {line : StreamLine} (h : line.skipped) : line.blank = false := by
  refine Bool.eq_false_iff.2 fun hb => ?_
  have ht : line.text = "" := by simpa [blank] using hb
  rw [skipped, ht] at h
  revert h
  decide

theorem Fields.parse_event (fields : Fields) (type : String) :
    fields.parse ("event: " ++ type) = { fields with eventType := type } := by
  rw [parse, if_pos (Strings.startsWith_append _ _), Strings.trimPrefix_append]

theorem Fields.parse_data (fields : Fields) (data : String) :
    fields.parse ("data: " ++ data) = { fields with dataLines := fields.dataLines ++ [data] } := by
  have hevent : ¬ Strings.startsWith ("data: " ++ data) "event: " := fun h =>
    absurd (startsWith_or_startsWith h (Strings.startsWith_append "data: " data)) (by decide)
  rw [parse, if_neg hevent, if_pos (Strings.startsWith_append _ _), Strings.trimPrefix_append]

theorem Fields.foldl_parse_data (fields : Fields) (data : List String) :
    (data.map ("data: " ++ ·)).foldl parse fields = { fields with dataLines := fields.dataLines ++ data } := by
  induction data generalizing fields with
  | nil => simp
  | cons d data ih =>
    rw [List.map_cons, List.foldl_cons, parse_data, ih]
    simp

theorem foldl_parse_filter (fields : Fields) (lines : List StreamLine) :
    (lines.map (·.text)).foldl Fields.parse fields =
      ((lines.filter (!·.skipped)).map (·.text)).foldl Fields.parse fields := by
  induction lines generalizing fields with
  | nil => rfl
  | cons line lines ih =>
    cases hs : line.skipped with
    | true => simp [hs, StreamLine.parse_skipped hs, ih]
    | false => simp [hs, ih]

namespace WrittenEvent

variable {decoders : Decoders} (e : WrittenEvent decoders)

theorem foldl_parse :
    (e.lines.map (·.text)).foldl Fields.parse {} = { eventType := e.type, dataLines := e.data } := by
  rw [foldl_parse_filter, e.written, List.foldl_cons, Fields.parse_event, Fields.foldl_parse_data]
  rfl

theorem not_blank {line : StreamLine} (h : line ∈ e.lines) : line.blank = false := by
  cases hs : line.skipped with
  | true => exact StreamLine.not_blank_of_skipped hs
  | false =>
    -- A line that is not skipped is the event line or a data line.
    have hmem : line.text ∈ (e.lines.filter (!·.skipped)).map (·.text) :=
      List.mem_map_of_mem (List.mem_filter.2 ⟨h, by simp [hs]⟩)
    rw [e.written] at hmem
    refine decide_eq_false fun ht => ?_
    rw [ht, List.mem_cons, List.mem_map] at hmem
    rcases hmem with hmem | ⟨d, -, hmem⟩
    · exact absurd (congrArg String.toList hmem) (by simp)
    · exact absurd (congrArg String.toList hmem) (by simp)

theorem found : (Fields.mk e.type e.data).found := by simp [Fields.found, e.type_ne]

/-- No delta of an object without a type stands under a type that has one. -/
def DeltaTyped : Prop :=
  ∀ aux, decoders.aux ("\n".intercalate e.data) = .ok aux → "\n".intercalate e.data ≠ "" → aux.type = "" →
    aux.rawDelta ≠ "" → EventType.ofString e.type ≠ .contentBlockDelta ∧ EventType.ofString e.type ≠ .messageDelta

theorem parseEvent_fields (provider : String) :
    ∃ event, parseEvent provider decoders { eventType := e.type, dataLines := e.data } = .ok event ∧
      (event = e.event ↔ e.DeltaTyped) := by
  rw [parseEvent, e.found, DeltaTyped]
  have hm := e.means
  generalize e.event = event, e.data = data at hm
  cases hm with
  | noData =>
    refine ⟨{ type := .ofString e.type }, ?_, iff_of_true rfl fun _ _ h => absurd rfl h⟩
    simp [AnthropicStreamEvent.fillType, e.type_ne, String.intercalate_nil]
  | @object _ aux _ hne hfields hdecoded =>
    simp only [Bool.not_true, Bool.false_eq_true, if_false, if_pos hne, unmarshalJSON, hfields]
    by_cases haux : aux.type = ""
    · -- the object is decoded without a type, and gets that of the line afterwards
      rw [if_pos haux] at hdecoded
      rw [haux, aux.toEvent_untyped]
      refine ⟨_, rfl, ?_⟩
      rw [AnthropicStreamEvent.fillType, if_pos ⟨e.type_ne, rfl⟩, (aux.toEvent_spec hdecoded).2]
      refine ⟨fun h aux' haux' _ _ hraw => ?_, fun h hraw => h aux rfl hne haux hraw⟩
      cases haux'
      exact h hraw
    · rw [if_neg haux] at hdecoded
      rw [hdecoded]
      have htype : event.type ≠ .other "" := fun h => haux (EventType.eq_of_ofString
        ((aux.toEvent_spec hdecoded).1.symm.trans h))
      refine ⟨_, rfl, iff_of_true ?_ ?_⟩
      · rw [AnthropicStreamEvent.fillType, if_neg fun h => htype h.2]
      · intro aux' haux' _ hempty
        cases haux'
        exact absurd hempty haux

end WrittenEvent

/-! ## What the calls return -/

section ReadFields

variable (failure : Option String)

theorem readFields_line (fields : Fields) (line : StreamLine) (rest : List String) :
    readFields failure fields (line.raw :: rest) =
      if line.blank then if fields.found then (fields, none, rest) else readFields failure fields rest
      else readFields failure (fields.parse line.text) rest := by
  rw [readFields, if_neg (Nat.not_le.2 line.fits), dropCR_raw]
  simp [StreamLine.blank]

theorem readFields_notBlank {lines : List StreamLine} (h : ∀ line ∈ lines, line.blank = false) (fields : Fields)
    (rest : List String) :
    readFields failure fields (lines.map (·.raw) ++ rest) =
      readFields failure ((lines.map (·.text)).foldl Fields.parse fields) rest := by
  induction lines generalizing fields with
  | nil => rfl
  | cons line lines ih =>
    have hline : line.blank = false := h line List.mem_cons_self
    rw [List.map_cons, List.cons_append, readFields_line, hline, if_neg Bool.false_ne_true,
      ih fun l hl => h l (List.mem_cons_of_mem _ hl)]
    rfl

theorem readFields_lead {lead : List StreamLine} (h : ∀ line ∈ lead, line.between) (rest : List String) :
    readFields failure {} (lead.map (·.raw) ++ rest) = readFields failure {} rest := by
  induction lead with
  | nil => rfl
  | cons line lead ih =>
    have ih := ih fun l hl => h l (List.mem_cons_of_mem _ hl)
    have hline := h line List.mem_cons_self
    rw [List.map_cons, List.cons_append, readFields_line]
    cases hb : line.blank with
    | true => simpa [Fields.found] using ih
    | false =>
      have hs : line.skipped := by simpa [StreamLine.between, hb] using hline
      simpa [StreamLine.parse_skipped hs] using ih

theorem readFields_after {fields : Fields} (hfound : fields.found) {after : List StreamLine}
    (h : ∀ line ∈ after, line.between) (hblank : ∃ line ∈ after, line.blank) (rest : List String) :
    ∃ lead : List StreamLine, (∀ line ∈ lead, line.between) ∧
      readFields failure fields (after.map (·.raw) ++ rest) = (fields, none, lead.map (·.raw) ++ rest) := by
  induction after with
  | nil =>
    obtain ⟨_, hmem, _⟩ := hblank
    cases hmem
  | cons line after ih =>
    have hafter : ∀ l ∈ after, l.between := fun l hl => h l (List.mem_cons_of_mem _ hl)
    rw [List.map_cons, List.cons_append, readFields_line]
    cases hb : line.blank with
    | true => exact ⟨after, hafter, by simp [hfound]⟩
    | false =>
      have hs : line.skipped := by simpa [StreamLine.between, hb] using h line List.mem_cons_self
      have hblank' : ∃ l ∈ after, l.blank := by simpa [hb] using hblank
      obtain ⟨lead, hlead, heq⟩ := ih hafter hblank'
      refine ⟨lead, hlead, ?_⟩
      simpa [StreamLine.parse_skipped hs] using heq

theorem readFields_end (fields : Fields) {after : List StreamLine} (h : ∀ line ∈ after, line.between)
    (hblank : ¬ ∃ line ∈ after, line.blank) :
    readFields failure fields (after.map (·.raw)) = (fields, failure, []) := by
  have hskipped : ∀ line ∈ after, line.blank = false ∧ line.skipped := by
    intro line hl
    have hb : line.blank = false := Bool.eq_false_iff.2 fun hb => hblank ⟨line, hl, hb⟩
    exact ⟨hb, by simpa [StreamLine.between, hb] using h line hl⟩
  rw [← List.append_nil (after.map _), readFields_notBlank failure (fun l hl => (hskipped l hl).1),
    foldl_parse_filter, List.filter_eq_nil_iff.2 fun l hl => by simp [(hskipped l hl).2]]
  rfl

end ReadFields

section Calls

variable {decoders : Decoders} (provider : String)

theorem readEvent_lead {lead : List StreamLine} (h : ∀ line ∈ lead, line.between) :
    readEvent provider decoders none (lead.map (·.raw)) = (.error .eof, []) := by
  rw [readEvent, ← List.append_nil (lead.map _), readFields_lead none h]
  rfl

theorem readEvent_event {lead after : List StreamLine} (e : WrittenEvent decoders)
    (hlead : ∀ line ∈ lead, line.between) (hafter : ∀ line ∈ after, line.between) {rest : List StreamLine}
    (hend : (∃ line ∈ after, line.blank) ∨ rest = []) :
    ∃ lead' : List StreamLine, (∀ line ∈ lead', line.between) ∧
      readEvent provider decoders none ((lead ++ (e.lines ++ after ++ rest)).map (·.raw)) =
        (parseEvent provider decoders ⟨e.type, e.data⟩, (lead' ++ rest).map (·.raw)) := by
  have hfields : readFields none {} ((lead ++ (e.lines ++ after ++ rest)).map (·.raw)) =
      readFields none { eventType := e.type, dataLines := e.data } ((after ++ rest).map (·.raw)) := by
    rw [List.map_append, readFields_lead none hlead, List.append_assoc, List.map_append,
      readFields_notBlank none (fun _ => e.not_blank), e.foldl_parse]
  by_cases hblank : ∃ line ∈ after, line.blank
  · obtain ⟨lead', hlead', heq⟩ := readFields_after none e.found hafter hblank (rest.map (·.raw))
    refine ⟨lead', hlead', ?_⟩
    rw [readEvent, hfields, List.map_append, heq, ← List.map_append]
  · obtain rfl := hend.resolve_left hblank
    refine ⟨[], by simp, ?_⟩
    rw [readEvent, hfields, List.append_nil, readFields_end none _ hafter hblank]
    rfl

theorem readEvents_lead {lead : List StreamLine} (h : ∀ line ∈ lead, line.between) (calls : Nat) :
    readEvents provider decoders none calls (lead.map (·.raw)) = List.replicate calls (.error .eof) := by
  induction calls generalizing lead with
  | zero => rfl
  | succ calls ih =>
    have hnil : ∀ line ∈ ([] : List StreamLine), line.between := by simp
    rw [readEvents, readEvent_lead provider h, List.replicate_succ]
    exact congrArg _ (ih hnil)

theorem readEvents_events {lead : List StreamLine} {events : List (WrittenEvent decoders × List StreamLine)}
    (hlead : ∀ line ∈ lead, line.between) (hbetween : ∀ e ∈ events, ∀ line ∈ e.2, line.between)
    (hended : ∀ e ∈ events.dropLast, ∃ line ∈ e.2, line.blank) (calls : Nat) :
    readEvents provider decoders none (events.length + calls)
        ((lead ++ events.flatMap fun e => e.1.lines ++ e.2).map (·.raw)) =
      events.map (fun e => parseEvent provider decoders ⟨e.1.type, e.1.data⟩) ++
        List.replicate calls (.error .eof) := by
  induction events generalizing lead with
  | nil => simpa using readEvents_lead provider hlead calls
  | cons e events ih =>
    have hend : (∃ line ∈ e.2, line.blank) ∨ events.flatMap (fun e => e.1.lines ++ e.2) = [] := by
      cases events with
      | nil => exact .inr rfl
      | cons e' events => exact .inl (hended e (by simp))
    obtain ⟨lead', hlead', heq⟩ := readEvent_event provider e.1 hlead (hbetween e List.mem_cons_self) hend
    have htail : ∀ e' ∈ events.dropLast, ∃ line ∈ e'.2, line.blank := by
      intro e' he'
      cases events with
      | nil => cases he'
      | cons e'' events => exact hended e' (List.mem_cons_of_mem _ he')
    have ih := ih hlead' (fun e' he' => hbetween e' (List.mem_cons_of_mem _ he')) htail
    rw [List.length_cons, Nat.add_right_comm, readEvents, List.flatMap_cons, heq, ih]
    rfl

theorem readEvents_body (stream : WrittenStream decoders) (calls : Nat) :
    readEvents provider decoders none (stream.events.length + calls) (scanLines [] stream.body) =
      stream.events.map (fun e => parseEvent provider decoders ⟨e.1.type, e.1.data⟩) ++
        List.replicate calls (.error .eof) := by
  rw [stream.scanLines_body]
  exact readEvents_events provider stream.lead_between stream.events_between stream.events_ended calls

/-- The calls return the events that were written, in their order, and `io.EOF` from then on, exactly when no delta of an
object without a type stands under a type that has one. -/
theorem readEvents_written_iff (stream : WrittenStream decoders) (calls : Nat) :
    readEvents provider decoders none (stream.events.length + calls) (scanLines [] stream.body) =
        stream.events.map (fun e => .ok e.1.event) ++ List.replicate calls (.error .eof) ↔
      ∀ e ∈ stream.events, e.1.DeltaTyped := by
  rw [readEvents_body, List.append_left_inj, List.map_inj_left]
  refine forall₂_congr fun e _ => ?_
  obtain ⟨event, hparse, hiff⟩ := e.1.parseEvent_fields provider
  rw [hparse, Except.ok.injEq, hiff]

end Calls

/-! ## A delta under a type of the event line -/

def untypedDelta : Decoders where
  aux _ := .ok { rawDelta := "\x7b\"type\":\"text_delta\",\"text\":\"Hi\"\x7d" }
  contentBlockDelta _ := .ok { type := "text_delta", text := "Hi" }
  messageDelta _ := .ok {}

def untypedBody : String :=
  ": stream\n\r\nevent: content_block_delta\ndata: \x7b\"delta\":\x7b\"type\":\"text_delta\",\"text\":\"Hi\"\x7d\x7d\n\n" ++
    "id: 7\nevent: message_stop"

/-- The delta that was written is not returned. -/
theorem untyped_delta_lost : ∃ stream : WrittenStream untypedDelta, stream.body = untypedBody.toList ∧
    stream.events.map (fun e => e.1.event) =
      [{ type := .contentBlockDelta, delta := some { type := "text_delta", text := "Hi" } }, { type := .messageStop }] ∧
    readEvents "anthropic" untypedDelta none 3 (scanLines [] stream.body) =
      [.ok { type := .contentBlockDelta }, .ok { type := .messageStop }, .error .eof] := by
  let comment : StreamLine := ⟨⟨": stream", false, by decide⟩, by decide, by decide⟩
  let blankCR : StreamLine := ⟨⟨"", true, by decide⟩, by decide, by decide⟩
  let blank : StreamLine := ⟨⟨"", false, by decide⟩, by decide, by decide⟩
  let id : StreamLine := ⟨⟨"id: 7", false, by decide⟩, by decide, by decide⟩
  let data := "\x7b\"delta\":\x7b\"type\":\"text_delta\",\"text\":\"Hi\"\x7d\x7d"
  let delta : WrittenEvent untypedDelta :=
    { type := "content_block_delta"
      data := [data]
      event := { type := .contentBlockDelta, delta := some { type := "text_delta", text := "Hi" } }
      lines := [⟨⟨"event: content_block_delta", false, by decide⟩, by decide, by decide⟩,
        ⟨⟨"data: " ++ data, false, by decide⟩, by decide, by decide⟩]
      type_ne := by decide
      means := .object (by decide) rfl rfl
      written := by decide }
  let stop : WrittenEvent untypedDelta :=
    { type := "message_stop"
      data := []
      event := { type := .messageStop }
      lines := [⟨⟨"event: message_stop", false, by decide⟩, by decide, by decide⟩]
      type_ne := by decide
      means := .noData
      written := by decide }
  refine ⟨⟨[comment, blankCR], [(delta, [blank, id]), (stop, [])], true, by decide, by decide, by decide, by decide⟩,
    by decide, rfl, (readEvents_body "anthropic" _ 1).trans rfl⟩

end Jupiter.Providers.Anthropic
