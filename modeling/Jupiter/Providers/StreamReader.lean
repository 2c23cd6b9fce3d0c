/-
The goroutine of `StreamCompletion` that reads a stream and sends its chunks, with the consumer of the channel.

The goroutines of `openai/client.go` and `anthropic/client.go` are the same but for the `Read` they call; what the
successive reads return is any list, and `io.EOF` after it. The channel has 100 places. The consumer may stop receiving
at any point, and the context may be cancelled. Sending a chunk waits for a place in the channel or for the context,
sending an error for a place only.
-/
import Jupiter.Lib.Machine
import Jupiter.Providers.Types

namespace Jupiter.Providers

open Jupiter.Lib

structure StreamError where
  provider : String
  message : String
  cause : String
  deriving DecidableEq

structure ParseError where
  provider : String
  rawResponse : String := ""
  cause : String
  deriving DecidableEq

/-- The errors of `Read`: `io.EOF`, the context's error, and those of a stream that cannot be read or parsed. -/
inductive ReadError where
  | eof
  | context (err : String)
  | stream (err : StreamError)
  | parse (err : ParseError)
  deriving DecidableEq

/-- What `Read` returns; `ended` is a nil chunk without an error. -/
inductive ReadResult where
  | chunk (chunk : StreamChunk)
  | ended
  | error (err : ReadError)
  deriving DecidableEq

abbrev Sent := Except ReadError StreamChunk

def channelSize : Nat := 100

/-- Where the goroutine is: before a `Read`, before a send, or in its deferred calls. -/
inductive ReaderPhase where
  | reading
  | sending (chunk : StreamChunk)
  | sendingError (err : ReadError)
  | returning
  | bodyClosed
  | finished
  deriving DecidableEq

/-- What the goroutine does with what `Read` returned. -/
def ReadResult.next : ReadResult → ReaderPhase
  | .chunk c => .sending c
  | .ended => .returning
  | .error err => .sendingError err

def afterSend (chunk : StreamChunk) : ReaderPhase := if chunk.finishReason ≠ "" then .returning else .reading

structure Streaming where
  upstream : List ReadResult
  reader : ReaderPhase := .reading
  bodyClosed : Bool := false
  channel : List Sent := []
  received : List Sent := []
  consuming : Bool := true
  cancelled : Bool := false
  deriving DecidableEq

inductive ReaderStep where
  | read
  | readCancelled (err : ReadError)
  | send
  | giveUp
  | sendError
  | closeBody
  | closeChannel
  | receive
  | stop
  | cancel

namespace Streaming

/-- A `Read` that has passed its check of the context may still return what the upstream sent; one that finds the
context done, or the body closed with it, returns an error. -/
def step (s : Streaming) : ReaderStep → Option Streaming
  | .read =>
    if s.reader = .reading then
      match s.upstream with
      | [] => some { s with reader := .sendingError .eof }
      | result :: rest => some { s with upstream := rest, reader := result.next }
    else none
  | .readCancelled err =>
    if s.reader = .reading ∧ s.cancelled then some { s with reader := .sendingError err } else none
  -- `send` and `giveUp` are the two cases of one `select`.
  | .send =>
    match s.reader with
    | .sending chunk =>
      if s.channel.length < channelSize then
        some { s with channel := s.channel ++ [.ok chunk], reader := afterSend chunk }
      else none
    | _ => none
  | .giveUp =>
    match s.reader with
    | .sending _ => if s.cancelled then some { s with reader := .returning } else none
    | _ => none
  -- There is no `select` around this send.
  | .sendError =>
    match s.reader with
    | .sendingError err =>
      if s.channel.length < channelSize then
        some { s with channel := s.channel ++ [.error err], reader := .returning }
      else none
    | _ => none
  -- The deferred calls run in the reverse of their order.
  | .closeBody => if s.reader = .returning then some { s with reader := .bodyClosed, bodyClosed := true } else none
  | .closeChannel => if s.reader = .bodyClosed then some { s with reader := .finished } else none
  | .receive =>
    match s.channel with
    | [] => none
    | x :: rest => if s.consuming then some { s with channel := rest, received := s.received ++ [x] } else none
  | .stop => if s.consuming then some { s with consuming := false } else none
  | .cancel => if s.cancelled then none else some { s with cancelled := true }

/-- Whether a step that can be taken will be: the consumer need not stop, nor the context be cancelled before it has. -/
def mustHappen (s : Streaming) : ReaderStep → Bool
  | .stop => false
  | .cancel => !s.consuming
  | _ => true

def Quiet (s : Streaming) : Prop := ∀ l, s.mustHappen l = true → s.step l = none

variable {s s' : Streaming} {l : ReaderStep}

/-- What each step needs and does. -/
inductive Moves (s : Streaming) : ReaderStep → Streaming → Prop where
  | readEOF (hreading : s.reader = .reading) (hup : s.upstream = []) :
    Moves s .read { s with reader := .sendingError .eof }
  | read {result : ReadResult} {rest : List ReadResult} (hreading : s.reader = .reading)
    (hup : s.upstream = result :: rest) : Moves s .read { s with upstream := rest, reader := result.next }
  | readCancelled {err : ReadError} (hreading : s.reader = .reading) (hcancelled : s.cancelled = true) :
    Moves s (.readCancelled err) { s with reader := .sendingError err }
  | send {chunk : StreamChunk} (hsending : s.reader = .sending chunk) (hroom : s.channel.length < channelSize) :
    Moves s .send { s with channel := s.channel ++ [.ok chunk], reader := afterSend chunk }
  | giveUp {chunk : StreamChunk} (hsending : s.reader = .sending chunk) (hcancelled : s.cancelled = true) :
    Moves s .giveUp { s with reader := .returning }
  | sendError {err : ReadError} (hsending : s.reader = .sendingError err) (hroom : s.channel.length < channelSize) :
    Moves s .sendError { s with channel := s.channel ++ [.error err], reader := .returning }
  | closeBody (hreturning : s.reader = .returning) :
    Moves s .closeBody { s with reader := .bodyClosed, bodyClosed := true }
  | closeChannel (hclosed : s.reader = .bodyClosed) : Moves s .closeChannel { s with reader := .finished }
  | receive {x : Sent} {rest : List Sent} (hchannel : s.channel = x :: rest) (hconsuming : s.consuming = true) :
    Moves s .receive { s with channel := rest, received := s.received ++ [x] }
  | stop (hconsuming : s.consuming = true) : Moves s .stop { s with consuming := false }
  | cancel (hactive : s.cancelled = false) : Moves s .cancel { s with cancelled := true }

theorem moves_of_step (h : s.step l = some s') : Moves s l s' := by
  cases l with
  | read =>
    simp only [step] at h
    split at h
    · split at h <;> cases h
      · exact .readEOF ‹_› ‹_›
      · exact .read ‹_› ‹_›
    · cases h
  | readCancelled err =>
    simp only [step] at h
    split at h <;> cases h
    rename_i hreading
    exact .readCancelled hreading.1 hreading.2
  | send =>
    simp only [step] at h
    split at h
    · split at h <;> cases h
      exact .send ‹_› ‹_›
    · cases h
  | giveUp =>
    simp only [step] at h
    split at h
    · split at h <;> cases h
      exact .giveUp ‹_› ‹_›
    · cases h
  | sendError =>
    simp only [step] at h
    split at h
    · split at h <;> cases h
      exact .sendError ‹_› ‹_›
    · cases h
  | closeBody =>
    simp only [step] at h
    split at h <;> cases h
    exact .closeBody ‹_›
  | closeChannel =>
    simp only [step] at h
    split at h <;> cases h
    exact .closeChannel ‹_›
  | receive =>
    simp only [step] at h
    split at h
    · cases h
    · split at h <;> cases h
      exact .receive ‹_› ‹_›
  | stop =>
    simp only [step] at h
    split at h <;> cases h
    exact .stop ‹_›
  | cancel =>
    simp only [step] at h
    split at h <;> cases h
    exact .cancel (eq_false_of_ne_true ‹_›)

theorem step_of_moves (h : Moves s l s') : s.step l = some s' := by
  cases h with
  | readEOF hreading hup => simp only [step, hreading, hup, if_true]
  | read hreading hup => simp only [step, hreading, hup, if_true]
  | readCancelled hreading hcancelled => simp only [step, hreading, hcancelled, and_self, if_true]
  | send hsending hroom => simp only [step, hsending, hroom, if_true]
  | giveUp hsending hcancelled => simp only [step, hsending, hcancelled, if_true]
  | sendError hsending hroom => simp only [step, hsending, hroom, if_true]
  | closeBody hreturning => simp only [step, hreturning, if_true]
  | closeChannel hclosed => simp only [step, hclosed, if_true]
  | receive hchannel hconsuming => simp only [step, hchannel, hconsuming, if_true]
  | stop hconsuming => simp only [step, hconsuming, if_true]
  | cancel hactive => simp only [step, hactive, Bool.false_eq_true, if_false]

/-! ## Every run ends -/

/-- A read may lead from `reading` to `sending`, and gives up one element of `upstream`, worth 4, for it. -/
def phaseSize : ReaderPhase → Nat
  | .sending _ => 7
  | .reading => 5
  | .sendingError _ => 4
  | .returning => 2
  | .bodyClosed => 1
  | .finished => 0

def size (s : Streaming) : Nat :=
  4 * s.upstream.length + phaseSize s.reader + s.channel.length + (if s.consuming then 1 else 0) +
    (if s.cancelled then 0 else 1)

theorem phaseSize_next (result : ReadResult) : phaseSize result.next ≤ 7 := by
  cases result <;> simp [ReadResult.next, phaseSize]

theorem phaseSize_afterSend (chunk : StreamChunk) : phaseSize (afterSend chunk) ≤ 5 := by
  unfold afterSend
  split <;> decide

theorem size_step (h : s.step l = some s') : s'.size < s.size := by
  cases moves_of_step h with
  | readEOF hreading hup =>
    simp only [size, hreading, phaseSize]
    omega
  | @read result rest hreading hup =>
    have hnext := phaseSize_next result
    simp only [size, hreading, hup, List.length_cons, phaseSize.eq_2]
    omega
  | readCancelled hreading hcancelled =>
    simp only [size, hreading, phaseSize]
    omega
  | @send chunk hsending hroom =>
    have hnext := phaseSize_afterSend chunk
    simp only [size, hsending, List.length_append, List.length_singleton, phaseSize.eq_1]
    omega
  | giveUp hsending hcancelled =>
    simp only [size, hsending, phaseSize]
    omega
  | sendError hsending hroom =>
    simp only [size, hsending, phaseSize, List.length_append, List.length_singleton]
    omega
  | closeBody hreturning =>
    simp only [size, hreturning, phaseSize]
    omega
  | closeChannel hclosed =>
    simp only [size, hclosed, phaseSize]
    omega
  | receive hchannel hconsuming =>
    simp only [size, hchannel, List.length_cons]
    omega
  | stop hconsuming =>
    simp only [size, hconsuming, if_true, Bool.false_eq_true, if_false]
    omega
  | cancel hactive =>
    simp only [size, hactive, if_true, Bool.false_eq_true, if_false]
    omega

/-! ## Where a run ends -/

def ErrorNext (s : Streaming) : Prop := s.upstream = [] ∨ ∃ err rest, s.upstream = .error err :: rest

/-- Room for an error: when `Read` returns one the consumer receives or the channel has a place, and the consumer does
not stop while an error waits for a place. -/
def RoomForError (s : Streaming) : ReaderStep → Prop
  | .read => s.ErrorNext → s.consuming = true ∨ s.channel.length < channelSize
  | .readCancelled _ => s.consuming = true ∨ s.channel.length < channelSize
  | .stop => ∀ err, s.reader = .sendingError err → s.channel.length < channelSize
  | _ => True

/-- An error that waits to be sent finds a place, or the consumer makes one; and the body is closed by the end. -/
structure Orderly (s : Streaming) : Prop where
  errorMoves : ∀ err, s.reader = .sendingError err → s.consuming = true ∨ s.channel.length < channelSize
  closes : s.reader = .bodyClosed ∨ s.reader = .finished → s.bodyClosed = true

theorem Orderly.start (upstream : List ReadResult) : Orderly { upstream } where
  errorMoves := by
    intro err h
    cases h
  closes := by
    rintro (h | h) <;> cases h

/-- The phases in which no error waits and the body is not yet closed. -/
def unhindered : ReaderPhase → Bool
  | .reading | .sending _ | .returning => true
  | .sendingError _ | .bodyClosed | .finished => false

theorem unhindered_afterSend (chunk : StreamChunk) : unhindered (afterSend chunk) = true := by
  unfold afterSend
  split <;> rfl

theorem Orderly.of_unhindered {s : Streaming} (h : unhindered s.reader = true) : Orderly s where
  errorMoves := by
    intro err hr
    rw [hr] at h
    cases h
  closes := by
    rintro (hr | hr) <;> rw [hr] at h <;> cases h

theorem Orderly.of_sendingError {s : Streaming} {err : ReadError} (hr : s.reader = .sendingError err)
    (hroom : s.consuming = true ∨ s.channel.length < channelSize) : Orderly s where
  errorMoves := fun _ _ => hroom
  closes := by
    rintro (h | h) <;> rw [hr] at h <;> cases h

theorem Orderly.step (h : Orderly s) (hok : RoomForError s l) (hstep : s.step l = some s') : Orderly s' := by
  obtain ⟨herror, hcloses⟩ := h
  cases moves_of_step hstep with
  | readEOF hreading hup => exact .of_sendingError rfl (hok (.inl hup))
  | @read result rest hreading hup =>
    cases result with
    | chunk c => exact .of_unhindered rfl
    | ended => exact .of_unhindered rfl
    | error err => exact .of_sendingError rfl (hok (.inr ⟨err, rest, hup⟩))
  | readCancelled hreading hcancelled => exact .of_sendingError rfl hok
  | @send chunk hsending hroom => exact .of_unhindered (unhindered_afterSend chunk)
  | giveUp hsending hcancelled => exact .of_unhindered rfl
  | sendError hsending hroom => exact .of_unhindered rfl
  | closeBody hreturning => exact ⟨fun _ hr => (by cases hr), fun _ => rfl⟩
  | closeChannel hclosed => exact ⟨fun _ hr => (by cases hr), fun _ => hcloses (.inl hclosed)⟩
  | @receive x rest hchannel hconsuming => exact ⟨fun _ _ => .inl hconsuming, hcloses⟩
  | stop hconsuming => exact ⟨fun err hr => .inr (hok err hr), hcloses⟩
  | cancel hactive => exact ⟨herror, hcloses⟩

theorem finished_of_quiet
    (h : ∀ err, s.reader = .sendingError err → s.consuming = true ∨ s.channel.length < channelSize)
    (hquiet : s.Quiet) : s.reader = .finished := by
  have hnone : ∀ {l t}, Moves s l t → s.mustHappen l = true → False := by
    intro l t hmoves hmust
    have hstep := hquiet l hmust
    rw [step_of_moves hmoves] at hstep
    cases hstep
  -- While the consumer receives, the channel is empty in the end.
  have hroom : s.consuming = true → s.channel.length < channelSize := by
    intro hconsuming
    cases hchannel : s.channel with
    | nil => decide
    | cons x rest => exact (hnone (.receive hchannel hconsuming) rfl).elim
  cases hreader : s.reader with
  | finished => rfl
  | reading =>
    cases hup : s.upstream with
    | nil => exact (hnone (.readEOF hreader hup) rfl).elim
    | cons result rest => exact (hnone (.read hreader hup) rfl).elim
  | sending chunk =>
    -- The chunk finds a place, or the consumer is gone and the context is or will be done.
    cases hconsuming : s.consuming with
    | true =>
      exact (hnone (.send hreader (hroom hconsuming)) rfl).elim
    | false =>
      cases hcancelled : s.cancelled with
      | true => exact (hnone (.giveUp hreader hcancelled) rfl).elim
      | false => exact (hnone (.cancel hcancelled) (by rw [mustHappen, hconsuming]; rfl)).elim
  | sendingError err =>
    have hplace := (h err hreader).elim hroom id
    exact (hnone (.sendError hreader hplace) rfl).elim
  | returning => exact (hnone (.closeBody hreader) rfl).elim
  | bodyClosed => exact (hnone (.closeChannel hreader) rfl).elim

end Streaming

/-- Every run has at most four steps for each result of a `Read` and seven more; and if there was always room for an
error, then once nothing more has to happen the reader has ended and closed the body. -/
theorem reader_ends (upstream : List ReadResult) (steps : List ReaderStep) (s : Streaming)
    (hroom : Meets Streaming.step Streaming.RoomForError { upstream } steps)
    (hrun : run Streaming.step { upstream } steps = some s) :
    steps.length ≤ 4 * upstream.length + 7 ∧ (s.Quiet → s.reader = .finished ∧ s.bodyClosed = true) := by
  have h : s.Orderly := run_invariant_of_meets (fun _ _ _ ho hok hs => ho.step hok hs) steps _ s (.start upstream)
    hroom hrun
  constructor
  · have hlen := run_length_le (fun _ _ _ hs => Streaming.size_step hs) steps _ s hrun
    have hsize : Streaming.size { upstream } = 4 * upstream.length + 7 := rfl
    omega
  · intro hquiet
    have hfinished := Streaming.finished_of_quiet h.errorMoves hquiet
    exact ⟨hfinished, h.closes (.inr hfinished)⟩

def word : StreamChunk := { delta := "word" }

def oneChunk : List ReaderStep :=
  [.read, .send, .read, .sendError, .closeBody, .closeChannel, .receive, .receive]

theorem reader_ends_oneChunk :
    ∃ s, run Streaming.step { upstream := [.chunk word] } oneChunk = some s ∧ s.Quiet ∧ s.reader = .finished ∧
      s.bodyClosed = true := by
  have hquiet : Streaming.Quiet ⟨[], .finished, true, [], [.ok word, .error .eof], true, false⟩ := by
    intro l hl
    cases l with
    | stop | cancel => cases hl
    | _ => rfl
  refine ⟨_, rfl, hquiet, (reader_ends [.chunk word] oneChunk _ ?_ rfl).2 hquiet⟩
  refine ⟨fun _ => .inl rfl, fun s hs => ⟨trivial, fun s' hs' => ⟨fun _ => .inl ?_, fun s'' _ => ?_⟩⟩⟩
  · cases hs
    cases hs'
    rfl
  · refine meets_of_forall (fun l hl t => ?_) s''
    simp only [List.mem_cons, List.not_mem_nil, or_false] at hl
    rcases hl with rfl | rfl | rfl | rfl | rfl <;> trivial

/-- The channel is full and the consumer stops. Then the stream ends, and the reader waits for ever to send `io.EOF`. -/
theorem full_channel_leaks_reader :
    ∃ s, run Streaming.step { upstream := List.replicate 100 (.chunk word) }
        ((List.replicate 100 [ReaderStep.read, .send]).flatten ++ [.stop, .cancel, .read]) = some s ∧
      s.Quiet ∧ s.reader = .sendingError .eof ∧ s.bodyClosed = false := by
  refine ⟨⟨[], .sendingError .eof, false, List.replicate 100 (.ok word), [], false, true⟩, ?_, ?_, rfl, rfl⟩
  · decide +kernel
  · intro l hl
    cases l with
    | stop => cases hl
    | _ => rfl

/-! ## What a consumer that stays receives -/

/-- The steps of a request whose consumer stays and whose context is not cancelled. -/
def ReaderStep.undisturbed : ReaderStep → Bool
  | .stop | .cancel => false
  | _ => true

namespace Streaming

variable {s s' : Streaming} {l : ReaderStep}

def relay : List ReadResult → List Sent
  | [] => [.error .eof]
  | .chunk c :: rest => .ok c :: (if c.finishReason ≠ "" then [] else relay rest)
  | .ended :: _ => []
  | .error err :: _ => [.error err]

def pending (s : Streaming) : List Sent :=
  match s.reader with
  | .reading => relay s.upstream
  | .sending c => .ok c :: (if c.finishReason ≠ "" then [] else relay s.upstream)
  | .sendingError err => [.error err]
  | .returning | .bodyClosed | .finished => []

/-- The consumer receives, the context is not cancelled, and what was received, is in the channel and has still to be
sent is `sent`. -/
structure Relays (sent : List Sent) (s : Streaming) : Prop where
  consuming : s.consuming = true
  active : s.cancelled = false
  all : s.received ++ s.channel ++ s.pending = sent

theorem Relays.start (upstream : List ReadResult) : Relays (relay upstream) { upstream } := ⟨rfl, rfl, rfl⟩

theorem pending_read {result : ReadResult} {rest : List ReadResult} (hreading : s.reader = .reading)
    (hup : s.upstream = result :: rest) :
    ({ s with upstream := rest, reader := result.next } : Streaming).pending = s.pending := by
  simp only [pending, hreading, hup]
  cases result <;> rfl

theorem pending_send {chunk : StreamChunk} (channel : List Sent) (hsending : s.reader = .sending chunk) :
    .ok chunk :: ({ s with channel, reader := afterSend chunk } : Streaming).pending = s.pending := by
  simp only [pending, hsending, afterSend]
  by_cases hfinish : chunk.finishReason ≠ ""
  · simp only [if_pos hfinish]
  · simp only [if_neg hfinish]

theorem Relays.step {sent : List Sent} (h : Relays sent s) (hl : l.undisturbed = true)
    (hstep : s.step l = some s') : Relays sent s' := by
  obtain ⟨hconsuming, hactive, hall⟩ := h
  cases moves_of_step hstep with
  | readEOF hreading hup =>
    refine ⟨hconsuming, hactive, ?_⟩
    simpa only [pending, hreading, hup, relay] using hall
  | read hreading hup => exact ⟨hconsuming, hactive, pending_read hreading hup ▸ hall⟩
  | readCancelled hreading hcancelled =>
    rw [hactive] at hcancelled
    cases hcancelled
  | @send chunk hsending hroom =>
    -- The chunk moves from what has to be sent to the end of the channel.
    refine ⟨hconsuming, hactive, ?_⟩
    rw [← hall, ← pending_send (s.channel ++ [.ok chunk]) hsending]
    simp
  | giveUp hsending hcancelled =>
    rw [hactive] at hcancelled
    cases hcancelled
  | sendError hsending hroom =>
    refine ⟨hconsuming, hactive, ?_⟩
    rw [← hall]
    simp [pending, hsending]
  | closeBody hreturning =>
    refine ⟨hconsuming, hactive, ?_⟩
    simpa only [pending, hreturning] using hall
  | closeChannel hclosed =>
    refine ⟨hconsuming, hactive, ?_⟩
    simpa only [pending, hclosed] using hall
  | receive hchannel _ =>
    refine ⟨hconsuming, hactive, ?_⟩
    rw [← hall, hchannel]
    simp [pending]
  | stop _ | cancel _ => cases hl

/-! ### In any run -/

/-- What was received, is in the channel and has still to be sent. -/
def accounted (s : Streaming) : List Sent := s.received ++ s.channel ++ s.pending

def running (s : Streaming) : Bool :=
  match s.reader with
  | .reading | .sending _ => true
  | _ => false

/-- While the reader runs on, everything is accounted for; afterwards a beginning of it, and at most one more error. -/
structure InOrder (sent : List Sent) (s : Streaming) : Prop where
  all : s.running = true → s.accounted = sent
  upTo : ∃ first err, first <+: sent ∧ s.accounted <+: first ++ [.error err]

theorem InOrder.of_eq {sent : List Sent} (h : InOrder sent s) (heq : s'.accounted = s.accounted)
    (hrunning : s'.running = true → s.running = true) : InOrder sent s' :=
  ⟨fun hs' => heq.trans (h.all (hrunning hs')), heq ▸ h.upTo⟩

theorem InOrder.step {sent : List Sent} (h : InOrder sent s) (hstep : s.step l = some s') : InOrder sent s' := by
  cases moves_of_step hstep with
  | readEOF hreading hup =>
    exact h.of_eq (by simp [accounted, pending, hreading, hup, relay]) (by simp [running, hreading])
  | read hreading hup =>
    exact h.of_eq (by rw [accounted, pending_read hreading hup, accounted]) (by simp [running, hreading])
  | @readCancelled err hreading _ =>
    -- The error of the context takes the place of what is still upstream.
    have hall := h.all (by simp [running, hreading])
    refine ⟨by simp [running], s.received ++ s.channel, err, ?_, List.prefix_refl _⟩
    rw [← hall]
    exact List.prefix_append ..
  | @send chunk hsending _ =>
    refine h.of_eq ?_ (by simp [running, hsending])
    simp [accounted, ← pending_send (s.channel ++ [.ok chunk]) hsending]
  | giveUp _ _ =>
    obtain ⟨first, err, hfirst, hall⟩ := h.upTo
    refine ⟨by simp [running], first, err, hfirst, .trans ?_ hall⟩
    simp [accounted, pending]
  | sendError hsending _ => exact h.of_eq (by simp [accounted, pending, hsending]) (by simp [running])
  | closeBody hreturning => exact h.of_eq (by simp [accounted, pending, hreturning]) (by simp [running])
  | closeChannel hclosed => exact h.of_eq (by simp [accounted, pending, hclosed]) (by simp [running])
  | receive hchannel _ => exact h.of_eq (by simp [accounted, pending, hchannel]) id
  | stop _ | cancel _ => exact h.of_eq rfl id

end Streaming

/-- Whatever the interleaving, a consumer that stays, in a context that is not cancelled, receives `sent` and then finds
the channel closed. -/
def Delivers (upstream : List ReadResult) (sent : List Sent) : Prop :=
  ∀ steps s, (∀ l ∈ steps, l.undisturbed = true) → run Streaming.step { upstream } steps = some s →
    (∀ l, l.undisturbed = true → s.step l = none) → s.reader = .finished ∧ s.received = sent

theorem delivers_relay (upstream : List ReadResult) : Delivers upstream (Streaming.relay upstream) := by
  intro steps s hsteps hrun hend
  have hmeets : Meets Streaming.step (fun _ l => l.undisturbed = true) { upstream } steps :=
    meets_of_forall (fun l hl _ => hsteps l hl) _
  obtain ⟨hconsuming, hactive, hall⟩ := run_invariant_of_meets (fun _ _ _ h hl hs => h.step hl hs) steps _ s
    (Streaming.Relays.start upstream) hmeets hrun
  have hquiet : s.Quiet := by
    intro l hl
    cases l with
    | stop => cases hl
    | cancel =>
      rw [Streaming.mustHappen, hconsuming] at hl
      cases hl
    | _ => exact hend _ rfl
  have hfinished := Streaming.finished_of_quiet (fun _ _ => .inl hconsuming) hquiet
  have hchannel : s.channel = [] := by
    cases hchannel : s.channel with
    | nil => rfl
    | cons x rest =>
      have hnone := hend .receive rfl
      rw [Streaming.step_of_moves (.receive hchannel hconsuming)] at hnone
      cases hnone
  refine ⟨hfinished, ?_⟩
  simpa [Streaming.pending, hfinished, hchannel] using hall

theorem delivers_iff (upstream : List ReadResult) (sent : List Sent) :
    Delivers upstream sent ↔ Streaming.relay upstream = sent := by
  constructor
  · intro h
    obtain ⟨steps, s, hrun, hsteps, hend⟩ := exists_run_to_end (fun _ _ _ hs => Streaming.size_step hs)
      (fun l : ReaderStep => l.undisturbed = true) { upstream }
    exact (delivers_relay upstream steps s hsteps hrun hend).2.symm.trans (h steps s hsteps hrun hend).2
  · rintro rfl
    exact delivers_relay upstream

def cancelledAfterTwo : List ReaderStep :=
  [.read, .send, .read, .receive, .send, .cancel, .readCancelled (.context "context canceled"), .receive, .sendError,
    .receive, .closeBody, .closeChannel]

end Jupiter.Providers
