/-
`pkg/evidence/export/csv.go`: the two CSV exporters over a writer that may fail at any byte.

`csv.Writer` is a buffer in front of the writer; when it passes bytes on is left open. `Export` looks at the result of
each `Write` and leaves the last flush to a `defer`, whose failure nobody sees; `ExportStream` flushes and asks for the
error before it returns. How values are formatted is a parameter.
-/
import Jupiter.Evidence.Rows
import Jupiter.Go.Value
import Jupiter.Lib.Buffered

namespace Jupiter.Evidence.Export

open Jupiter.Go Jupiter.Lib Jupiter.Evidence.Storage

/-! ## Rows -/

structure CSVExporter where
  includeHeader : Bool

def getHeaderRow : List String :=
  ["id", "request_id",
   "request_time", "policy_eval_time", "provider_call_time", "response_time", "recorded_time",
   "request_hash", "request_method", "request_path", "request_headers",
   "model", "provider", "messages", "system_prompt", "user_prompt", "tools_used",
   "estimated_tokens", "estimated_cost", "risk_score", "complexity_score", "pii_detected", "pii_types",
   "policy_decision", "matched_rules", "block_reason", "policy_version",
   "response_hash", "response_status",
   "response_content", "finish_reason",
   "prompt_tokens", "completion_tokens", "total_tokens", "actual_cost",
   "provider_latency_ms", "provider_model",
   "user_id", "api_key", "ip_address",
   "error", "error_type",
   "turn_number", "context_usage"]

/-- What the rows are formatted with: RFC 3339 times, floats with a number of decimals, and JSON. -/
structure Formats where
  rfc3339 : Zoned → String
  float : Nat → ℚ → String
  json : SQLite.Row.Codecs

namespace Formats

variable (f : Formats)

def formatTime (t : Zoned) : String := if t.isZero then "" else f.rfc3339 t

def recordToRow (record : EvidenceRecord) : List String :=
  [record.id,
   record.requestID,
   f.formatTime record.requestTime,
   f.formatTime record.policyEvalTime,
   f.formatTime record.providerCallTime,
   f.formatTime record.responseTime,
   f.formatTime record.recordedTime,
   record.requestHash,
   record.requestMethod,
   record.requestPath,
   f.json.headers.marshal record.requestHeaders,
   record.model,
   record.provider,
   toString record.messages,
   record.systemPrompt,
   record.userPrompt,
   f.json.strings.marshal record.toolsUsed,
   toString record.estimatedTokens,
   f.float 6 record.estimatedCost,
   toString record.riskScore,
   toString record.complexityScore,
   toString record.piiDetected,
   f.json.strings.marshal record.piiTypes,
   record.policyDecision,
   f.json.rules.marshal record.matchedRules,
   record.blockReason,
   record.policyVersion,
   record.responseHash,
   toString record.responseStatus,
   record.responseContent,
   record.finishReason,
   toString record.promptTokens,
   toString record.completionTokens,
   toString record.totalTokens,
   f.float 6 record.actualCost,
   toString (SQLite.milliseconds record.providerLatency),
   record.providerModel,
   record.userID,
   record.apiKey,
   record.ipAddress,
   record.error,
   record.errorType,
   toString record.turnNumber,
   f.float 2 record.contextUsage]

end Formats

/-! ## csv.Writer -/

def fieldNeedsQuotes (field : String) : Bool :=
  if field = "" then false
  else if field = "\\." then true
  else
    field.toList.any (fun c => c == '\n' || c == '\r' || c == '"' || c == ',') ||
      field.toList.head?.any Strings.isSpace

def quoteField (field : String) : List Char :=
  if fieldNeedsQuotes field then
    '"' :: field.toList.flatMap (fun c => if c = '"' then ['"', '"'] else [c]) ++ ['"']
  else field.toList

/-- The bytes of a record: its fields with commas between them and a line feed. -/
def line (row : List String) : List UInt8 :=
  (List.intercalate [','] (row.map quoteField) ++ ['\n']).flatMap String.utf8EncodeChar

/-! ## The exporters -/

structure ExportError where
  format : String
  recordCount : Nat
  deriving DecidableEq

abbrev Writer := BufferedWriter UInt8

section Exporters

variable (f : Formats) (buffering : Buffering UInt8) (room : Option Nat)

/-- The loop of `Export` over the records, `count` of them in all; each way out ends with the deferred flush. -/
def exportLoop (count : Nat) (writer : Writer) : List EvidenceRecord → Except ExportError Unit × Writer
  | [] => (.ok (), writer.flush room)
  | record :: rest =>
    let writer := writer.write room buffering (line (f.recordToRow record))
    if writer.failed then (.error ⟨"csv", count⟩, writer.flush room)
    else exportLoop count writer rest

def CSVExporter.export (e : CSVExporter) (records : List EvidenceRecord) : Except ExportError Unit × Writer :=
  if e.includeHeader then
    let writer := BufferedWriter.write room buffering {} (line getHeaderRow)
    if writer.failed then (.error ⟨"csv", records.length⟩, writer.flush room)
    else exportLoop f buffering room records.length writer records
  else exportLoop f buffering room records.length {} records

def exportStreamLoop (recordCount : Nat) (writer : Writer) : List EvidenceRecord → Except ExportError Unit × Writer
  | [] =>
    let writer := writer.flush room
    (if writer.failed then .error ⟨"csv", recordCount⟩ else .ok (), writer.flush room)
  | record :: rest =>
    let writer := writer.write room buffering (line (f.recordToRow record))
    if writer.failed then (.error ⟨"csv", recordCount⟩, writer.flush room)
    else if (recordCount + 1) % 100 = 0 then
      let writer := writer.flush room
      if writer.failed then (.error ⟨"csv", recordCount + 1⟩, writer.flush room)
      else exportStreamLoop (recordCount + 1) writer rest
    else exportStreamLoop (recordCount + 1) writer rest

def CSVExporter.exportStream (e : CSVExporter) (records : List EvidenceRecord) : Except ExportError Unit × Writer :=
  if e.includeHeader then
    let writer := BufferedWriter.write room buffering {} (line getHeaderRow)
    if writer.failed then (.error ⟨"csv", 0⟩, writer.flush room)
    else exportStreamLoop f buffering room 0 writer records
  else exportStreamLoop f buffering room 0 {} records

def CSVExporter.lines (e : CSVExporter) (records : List EvidenceRecord) : List (List UInt8) :=
  (if e.includeHeader then [line getHeaderRow] else []) ++ records.map fun record => line (f.recordToRow record)

def Complete (e : CSVExporter) (records : List EvidenceRecord) : Prop :=
  (e.export f buffering room records).1 = .ok () →
    (e.export f buffering room records).2.accepted = (e.lines f records).flatten

/-- The two exporters return nil in the same cases, and the writer has the same bytes. -/
def Agrees (e : CSVExporter) (records : List EvidenceRecord) : Prop :=
  ((e.export f buffering room records).1 = .ok () ↔ (e.exportStream f buffering room records).1 = .ok ()) ∧
    (e.export f buffering room records).2.accepted = (e.exportStream f buffering room records).2.accepted

/-- The number of bytes that `csv.Writer` has passed on when the last `Write` returns, if nothing fails. -/
def passedOn (lines : List (List UInt8)) : Nat :=
  (BufferedWriter.writeAll none buffering ({} : Writer) lines).accepted.length

end Exporters

/-! ## What the exporters return and write -/

section Results

variable {f : Formats} {buffering : Buffering UInt8} {room : Option Nat} {writer : Writer} {handed : List UInt8}

open BufferedWriter

def Formats.rows (f : Formats) (records : List EvidenceRecord) : List (List UInt8) :=
  records.map fun r => line (f.recordToRow r)

/-- An exporter that is to write `handed` ends with nil exactly when `ok`, and the writer has all it has room for. -/
def Ends (room : Option Nat) (handed : List UInt8) (ok : Prop) (result : Except ExportError Unit × Writer) : Prop :=
  (result.1 = .ok () ↔ ok) ∧ result.2.accepted = allowed room handed

theorem failed_ends (h : Tracks room writer handed) (hf : writer.failed = true) (buffering : Buffering UInt8)
    (err : ExportError) (rest : List (List UInt8)) :
    Ends room (handed ++ rest.flatten) ((writer.writeAll room buffering rest).failed = false)
        (.error err, writer.flush room) ∧
      Ends room (handed ++ rest.flatten) (HasRoom room (handed ++ rest.flatten).length)
        (.error err, writer.flush room) := by
  obtain ⟨hacc, hroom⟩ := h.accepted_of_failed hf rest.flatten
  refine ⟨⟨iff_of_false (by rintro ⟨⟩) ?_, hacc⟩, iff_of_false (by rintro ⟨⟩) hroom, hacc⟩
  rw [Bool.not_eq_false]
  exact failed_writeAll_of_failed hf rest

theorem exportLoop_spec (count : Nat) (records : List EvidenceRecord) (h : Tracks room writer handed)
    (hf : writer.failed = false) :
    Ends room (handed ++ (f.rows records).flatten) ((writer.writeAll room buffering (f.rows records)).failed = false)
      (exportLoop f buffering room count writer records) := by
  induction records generalizing writer handed with
  | nil =>
    refine ⟨iff_of_true rfl hf, ?_⟩
    rw [Formats.rows, List.map_nil, List.flatten_nil, List.append_nil]
    exact h.accepted_flush.1
  | cons record rest ih =>
    have hw : Tracks room (writer.write room buffering (line (f.recordToRow record))) _ := h.write _
    rw [exportLoop, Formats.rows, List.map_cons, List.flatten_cons, ← List.append_assoc]
    split
    · next hfailed => exact (failed_ends hw hfailed buffering _ (f.rows rest)).1
    · next hfailed => exact ih hw (Bool.not_eq_true _ ▸ hfailed)

theorem exportStreamLoop_spec (recordCount : Nat) (records : List EvidenceRecord) (h : Tracks room writer handed) :
    Ends room (handed ++ (f.rows records).flatten) (HasRoom room (handed ++ (f.rows records).flatten).length)
      (exportStreamLoop f buffering room recordCount writer records) := by
  induction records generalizing writer handed recordCount with
  | nil =>
    obtain ⟨hacc, hfailed⟩ := h.accepted_flush
    rw [Formats.rows, List.map_nil, List.flatten_nil, List.append_nil, exportStreamLoop]
    refine ⟨?_, h.flush.accepted_flush.1⟩
    cases hf : (writer.flush room).failed with
    | true => exact iff_of_false (by rintro ⟨⟩) (hfailed.1 hf)
    | false => exact iff_of_true rfl (not_not.1 fun hroom => absurd (hf.symm.trans (hfailed.2 hroom)) (by decide))
  | cons record rest ih =>
    have hw : Tracks room (writer.write room buffering (line (f.recordToRow record))) _ := h.write _
    rw [exportStreamLoop, Formats.rows, List.map_cons, List.flatten_cons, ← List.append_assoc]
    dsimp only
    split
    · next hfailed => exact (failed_ends hw hfailed buffering _ (f.rows rest)).2
    · split
      · -- every hundredth record the buffer is flushed and the error asked for
        split
        · next hflush => exact (failed_ends hw.flush hflush buffering _ (f.rows rest)).2
        · exact ih _ hw.flush
      · exact ih _ hw

theorem export_spec (f : Formats) (buffering : Buffering UInt8) (room : Option Nat) (e : CSVExporter)
    (records : List EvidenceRecord) :
    Ends room (e.lines f records).flatten (HasRoom room (passedOn buffering (e.lines f records)))
      (e.export f buffering room records) := by
  have hiff : HasRoom room (passedOn buffering (e.lines f records)) ↔
      (writeAll room buffering ({} : Writer) (e.lines f records)).failed = false := by
    rw [← Bool.not_eq_true, failed_writeAll_iff rfl (fun _ _ => Nat.zero_le _), not_not]
    rfl
  rw [hiff]
  unfold CSVExporter.export CSVExporter.lines
  -- which bytes the header has plays no part
  generalize line getHeaderRow = header
  cases e.includeHeader with
  | false => exact exportLoop_spec _ records tracks_empty rfl
  | true =>
    have hw : Tracks room (write room buffering ({} : Writer) header) _ := tracks_empty.write _
    rw [if_pos rfl, if_pos rfl, List.flatten_append, List.flatten_singleton]
    dsimp only
    split
    · next hfailed => exact (failed_ends hw hfailed buffering _ (f.rows records)).1
    · next hfailed => exact exportLoop_spec _ records hw (Bool.not_eq_true _ ▸ hfailed)

theorem exportStream_spec (f : Formats) (buffering : Buffering UInt8) (room : Option Nat) (e : CSVExporter)
    (records : List EvidenceRecord) :
    Ends room (e.lines f records).flatten (HasRoom room (e.lines f records).flatten.length)
      (e.exportStream f buffering room records) := by
  unfold CSVExporter.exportStream CSVExporter.lines
  generalize line getHeaderRow = header
  cases e.includeHeader with
  | false => exact exportStreamLoop_spec _ records tracks_empty
  | true =>
    have hw : Tracks room (write room buffering ({} : Writer) header) _ := tracks_empty.write _
    rw [if_pos rfl, if_pos rfl, List.flatten_append, List.flatten_singleton]
    dsimp only
    split
    · next hfailed => exact (failed_ends hw hfailed buffering _ (f.rows records)).2
    · exact exportStreamLoop_spec _ records hw

theorem passedOn_le (buffering : Buffering UInt8) (lines : List (List UInt8)) :
    passedOn buffering lines ≤ lines.flatten.length := by
  have h : Tracks none (writeAll none buffering ({} : Writer) lines) ([] ++ lines.flatten) :=
    tracks_empty.writeAll lines
  have hlive : (writeAll none buffering ({} : Writer) lines).failed = false := by
    cases hf : (writeAll none buffering ({} : Writer) lines).failed with
    | false => rfl
    | true =>
      obtain ⟨r, hr, -⟩ := h.dead hf
      cases hr
  have hlen := congrArg List.length (h.live hlive).1
  rw [List.length_append, List.nil_append] at hlen
  unfold passedOn
  omega

end Results

/-- A nil error of `Export` says that everything was written, and `ExportStream` does the same, exactly when the writer
takes all the bytes or fails on one that is passed on before the last `Write` returns. -/
theorem export_complete_iff (f : Formats) (buffering : Buffering UInt8) (room : Option Nat) (e : CSVExporter)
    (records : List EvidenceRecord) :
    Complete f buffering room e records ∧ Agrees f buffering room e records ↔
      HasRoom room (e.lines f records).flatten.length ∨ ¬ HasRoom room (passedOn buffering (e.lines f records)) := by
  obtain ⟨hok, hbytes⟩ := export_spec f buffering room e records
  obtain ⟨hok', hbytes'⟩ := exportStream_spec f buffering room e records
  have hle := passedOn_le buffering (e.lines f records)
  unfold Complete Agrees
  rw [hok, hok', hbytes, hbytes', BufferedWriter.allowed_eq_self_iff]
  constructor
  · rintro ⟨hcomplete, -⟩
    by_cases hpassed : HasRoom room (passedOn buffering (e.lines f records))
    · exact .inl (hcomplete hpassed)
    · exact .inr hpassed
  · rintro (htotal | hpassed)
    · exact ⟨fun _ => htotal, iff_of_true (htotal.mono hle) htotal, rfl⟩
    · exact ⟨fun h => absurd h hpassed, iff_of_false hpassed fun h => hpassed (h.mono hle), rfl⟩

/-! ## A writer that fails on the first byte -/

def zeroFormats : Formats where
  rfc3339 _ := "0001-01-01T00:00:00Z"
  float
    | 2, _ => "0.00"
    | _, _ => "0.000000"
  json := SQLite.Row.codecs

/-- One record, to a writer that fails on the first byte: `Export` returns nil and nothing is written, while `ExportStream`
reports the error. -/
theorem record_lost :
    (CSVExporter.export zeroFormats (.ofSize 4096) (some 0) ⟨false⟩ [unmatchedRecord]).1 = .ok () ∧
      (CSVExporter.export zeroFormats (.ofSize 4096) (some 0) ⟨false⟩ [unmatchedRecord]).2.accepted = [] ∧
      (CSVExporter.exportStream zeroFormats (.ofSize 4096) (some 0) ⟨false⟩ [unmatchedRecord]).1 ≠ .ok () ∧
      ¬ (Complete zeroFormats (.ofSize 4096) (some 0) ⟨false⟩ [unmatchedRecord] ∧
        Agrees zeroFormats (.ofSize 4096) (some 0) ⟨false⟩ [unmatchedRecord]) := by
  have hok : (CSVExporter.export zeroFormats (.ofSize 4096) (some 0) ⟨false⟩ [unmatchedRecord]).1 = .ok () := by
    decide +kernel
  have hstream : (CSVExporter.exportStream zeroFormats (.ofSize 4096) (some 0) ⟨false⟩ [unmatchedRecord]).1 ≠ .ok () := by
    decide +kernel
  exact ⟨hok, by decide +kernel, hstream, fun h => hstream (h.2.1.1 hok)⟩

end Jupiter.Evidence.Export
