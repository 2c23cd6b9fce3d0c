/-
`pkg/evidence/recorder`: the recorder as a machine whose steps are the steps of its goroutines between two
synchronisations.

`RecordRequest` stores a record in the pending map. `RecordResponse` takes it out again, fills in the response and then
waits in a `select` for the buffered channel, its timer or the done channel; in between the record belongs to the call
(`sending`), and a call that panics has lost it (`panicked`). `Close` closes the done channel and waits for the worker,
which then empties the channel. Storage never fails.

The recorder is enabled, and calls are named by their request ID.
-/
import Jupiter.Evidence.Record
import Jupiter.Lib.Machine

namespace Jupiter.Evidence

open Jupiter.Go Jupiter.Lib

structure ResponseMetadata where
  timestamp : Zoned
  statusCode : Int
  providerName : String
  providerLatency : Duration
  error : Option String

/-- The provider's response; `hash` is that of its JSON, where hashing is configured. -/
structure OriginalResponse where
  model : String
  content : String
  finishReason : String
  hash : Option String

/-- What `updateEvidenceWithResponse` takes from its arguments and the clock; a nil pointer is `none`. -/
structure ResponseUpdate where
  responseMeta : Option ResponseMetadata
  originalResponse : Option OriginalResponse
  recordedTime : Zoned
  tokenUsage : Option (Int × Int × Int)
  totalCost : Option ℚ

/-- No result when it panics: the metadata, and the model of the original response, are read without a test for nil. -/
def updateEvidenceWithResponse (record : EvidenceRecord) (u : ResponseUpdate) : Option EvidenceRecord :=
  match u.responseMeta, u.originalResponse with
  | some responseMeta, some originalResponse =>
    some { record with
      responseTime := responseMeta.timestamp
      recordedTime := u.recordedTime
      responseHash := originalResponse.hash.getD record.responseHash
      responseStatus := responseMeta.statusCode
      provider := responseMeta.providerName
      providerModel := originalResponse.model
      providerLatency := responseMeta.providerLatency
      responseContent := originalResponse.content
      finishReason := originalResponse.finishReason
      promptTokens := (u.tokenUsage.map (·.1)).getD record.promptTokens
      completionTokens := (u.tokenUsage.map (·.2.1)).getD record.completionTokens
      totalTokens := (u.tokenUsage.map (·.2.2)).getD record.totalTokens
      actualCost := u.totalCost.getD record.actualCost
      error := responseMeta.error.getD record.error
      errorType := if responseMeta.error.isSome then "error" else record.errorType
      turnNumber := 1
      contextUsage := 0 }
  | _, _ => none

def pluck {α : Type} (p : α → Bool) : List α → Option (α × List α)
  | [] => none
  | a :: l => if p a then some (a, l) else (pluck p l).map fun r => (r.1, a :: r.2)

/-- Where the worker goroutine stands; `writing` carries whether it is draining. -/
inductive Worker where
  | waiting
  | draining
  | writing (drains : Bool) (record : EvidenceRecord)
  | exited

inductive Closing where
  | open
  | waiting
  | returned
  deriving DecidableEq

structure Recorder where
  pending : List EvidenceRecord := []
  sending : List EvidenceRecord := []
  recordChan : List EvidenceRecord := []
  worker : Worker := .waiting
  done : Bool := false
  closing : Closing := .open
  storage : List EvidenceRecord := []
  accepted : List String := []
  reported : List String := []
  returnedNil : List String := []
  panicked : List String := []

namespace Recorder

/-- The steps: calls of `RecordRequest`; of `RecordResponse`, up to its `select` and then one of the select's cases
(`handoff` is a send that the worker receives at once); of the worker; and of `Close`. -/
inductive Event where
  | recordRequest (record : EvidenceRecord)
  | recordResponse (requestID : String) (update : ResponseUpdate)
  | send (requestID : String)
  | handoff (requestID : String)
  | timeout (requestID : String)
  | cancelled (requestID : String)
  | receive
  | write
  | seeDone
  | drained
  | close
  | closeReturns

def takeSending (s : Recorder) (requestID : String) : Option (EvidenceRecord × Recorder) :=
  (pluck (·.requestID == requestID) s.sending).map fun r => (r.1, { s with sending := r.2 })

def receiveRecord (record : EvidenceRecord) : Worker → Option Worker
  | .waiting => some (.writing false record)
  | .draining => some (.writing true record)
  | _ => none

/-- One step of a recorder whose channel has `buffer` slots. Request IDs are distinct. -/
def step (buffer : Nat) (s : Recorder) : Event → Option Recorder
  | .recordRequest record =>
    if record.requestID ∈ s.accepted then none
    else some { s with pending := record :: s.pending, accepted := record.requestID :: s.accepted }
  | .recordResponse requestID update =>
    match pluck (·.requestID == requestID) s.pending with
    | none => some s
    | some (record, pending) =>
      match updateEvidenceWithResponse record update with
      | some record => some { s with pending, sending := record :: s.sending }
      | none => some { s with pending, panicked := requestID :: s.panicked }
  | .send requestID =>
    (s.takeSending requestID).bind fun (record, s) =>
      if s.recordChan.length < buffer then
        some { s with recordChan := s.recordChan ++ [record], returnedNil := requestID :: s.returnedNil }
      else none
  | .handoff requestID =>
    (s.takeSending requestID).bind fun (record, s) =>
      if s.recordChan.isEmpty then
        (receiveRecord record s.worker).map fun worker =>
          { s with worker, returnedNil := requestID :: s.returnedNil }
      else none
  | .timeout requestID =>
    (s.takeSending requestID).map fun (_, s) => { s with reported := requestID :: s.reported }
  | .cancelled requestID =>
    if s.done then
      (s.takeSending requestID).map fun (_, s) => { s with reported := requestID :: s.reported }
    else none
  | .receive =>
    match s.recordChan with
    | [] => none
    | record :: recordChan => (receiveRecord record s.worker).map fun worker => { s with worker, recordChan }
  | .write =>
    match s.worker with
    | .writing drains record =>
      some { s with worker := if drains then .draining else .waiting, storage := s.storage ++ [record] }
    | _ => none
  | .seeDone =>
    match s.worker with
    | .waiting => if s.done then some { s with worker := .draining } else none
    | _ => none
  | .drained =>
    match s.worker with
    | .draining => if s.recordChan.isEmpty then some { s with worker := .exited } else none
    | _ => none
  | .close =>
    match s.closing with
    | .open => some { s with done := true, closing := .waiting }
    | _ => none
  | .closeReturns =>
    match s.closing, s.worker with
    | .waiting, .exited => some { s with closing := .returned }
    | _, _ => none

end Recorder

end Jupiter.Evidence
