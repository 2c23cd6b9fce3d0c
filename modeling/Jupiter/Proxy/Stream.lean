/-
`handleStreamRequest` of `pkg/proxy/handlers/chat.go`: the events a client is sent for the chunks of a stream.

Each event is one `Write`; which of them fail is the environment's choice, and so is after which chunk the request's
context is found done.
-/
import Jupiter.Proxy.Response

namespace Jupiter.Proxy

open Jupiter.Go Jupiter.Providers

/-- The clock at each chunk, which writes fail, and after which chunks the context is done. -/
structure StreamEnv where
  now : Nat → Time
  fails : Nat → Bool
  gone : Nat → Bool

/-- What came through the channel: a chunk, or an error chunk with the chain of its error. -/
abbrev FromChannel := Except (List ErrorLink) StreamChunk

/-- The events written and the number of writes tried. -/
structure Written where
  events : List String := []
  tried : Nat := 0
  deriving DecidableEq

section Handler

variable (env : StreamEnv)

def Written.write (o : Written) (event : String) : Bool × Written :=
  if env.fails o.tried then (false, { o with tried := o.tried + 1 })
  else (true, { events := o.events ++ [event], tried := o.tried + 1 })

inductive LoopEnd where
  | broken
  | closed
  | returned
  deriving DecidableEq

variable (model responseID : String)

def chunkEvent (chunkCount : Nat) (chunk : StreamChunk) : String :=
  sseEvent (formatStreamChunk (env.now chunkCount) chunk model responseID)

def streamLoop (chunkCount : Nat) : List FromChannel → Written → LoopEnd × Written
  | [], o => (.closed, o)
  | .error err :: _, o => (.broken, (o.write env (sseError (handleError err))).2)
  | .ok chunk :: rest, o =>
    match o.write env (chunkEvent env model responseID chunkCount chunk) with
    | (false, o) => (.broken, o)
    | (true, o) => if env.gone chunkCount then (.returned, o) else streamLoop (chunkCount + 1) rest o

/-- The events of the response to a stream, from its first chunk on. -/
def handleStreamRequest (chunks : List FromChannel) : List String :=
  match streamLoop env model responseID 0 chunks {} with
  | (.returned, o) => o.events
  | (_, o) => (o.write env sseDone).2.events

end Handler

/-! ## What the client gets -/

/-- What ends the loop. -/
inductive Stop where
  | closed
  | error (err : List ErrorLink)
  | failedWrite
  | gone
  deriving DecidableEq

/-- From chunk `n` on, the chunks `sent` come before the first error chunk or failed write, or up to the one after which
the client is gone, and then the loop stops. -/
inductive Stops (env : StreamEnv) : Nat → List FromChannel → List StreamChunk → Stop → Prop where
  | closed {n : Nat} : Stops env n [] [] .closed
  | error {n : Nat} {err : List ErrorLink} {more : List FromChannel} : Stops env n (.error err :: more) [] (.error err)
  | failedWrite {n : Nat} {chunk : StreamChunk} {more : List FromChannel} (hfails : env.fails n = true) :
    Stops env n (.ok chunk :: more) [] .failedWrite
  | gone {n : Nat} {chunk : StreamChunk} {more : List FromChannel} (hwritten : env.fails n = false)
    (hgone : env.gone n = true) : Stops env n (.ok chunk :: more) [chunk] .gone
  | next {n : Nat} {chunk : StreamChunk} {rest : List FromChannel} {sent : List StreamChunk} {stop : Stop}
    (hwritten : env.fails n = false) (hthere : env.gone n = false) (hrest : Stops env (n + 1) rest sent stop) :
    Stops env n (.ok chunk :: rest) (chunk :: sent) stop

section Events

variable (env : StreamEnv) (model responseID : String)

def chunkEvents : Nat → List StreamChunk → List String
  | _, [] => []
  | n, chunk :: chunks => chunkEvent env model responseID n chunk :: chunkEvents (n + 1) chunks

/-- The event an error chunk makes, if it can be written as the write with number `n`. -/
def Stop.event (n : Nat) : Stop → List String
  | .error err => if env.fails n then [] else [sseError (handleError err)]
  | _ => []

/-- The writes the loop tries after those of the chunks sent. -/
def Stop.writes : Stop → Nat
  | .closed | .gone => 0
  | .error _ | .failedWrite => 1

def Stop.loopEnd : Stop → LoopEnd
  | .closed => .closed
  | .error _ | .failedWrite => .broken
  | .gone => .returned

variable {env}

theorem write_ok {o : Written} {event : String} (h : env.fails o.tried = false) :
    o.write env event = (true, ⟨o.events ++ [event], o.tried + 1⟩) := by
  unfold Written.write
  rw [h]
  rfl

theorem write_fails {o : Written} {event : String} (h : env.fails o.tried = true) :
    o.write env event = (false, ⟨o.events, o.tried + 1⟩) := by
  unfold Written.write
  rw [h]
  rfl

theorem streamLoop_stops : ∀ (n : Nat) (chunks : List FromChannel) (o : Written), o.tried = n →
    ∃ sent stop, Stops env n chunks sent stop ∧
      streamLoop env model responseID n chunks o =
        (stop.loopEnd,
          ⟨o.events ++ chunkEvents env model responseID n sent ++ stop.event env (n + sent.length),
            n + sent.length + stop.writes⟩)
  | n, [], o, hn => by
    refine ⟨[], .closed, .closed, ?_⟩
    rw [← hn]
    simp [streamLoop, chunkEvents, Stop.event, Stop.loopEnd, Stop.writes]
  | n, .error err :: more, o, hn => by
    refine ⟨[], .error err, .error, ?_⟩
    subst hn
    cases hf : env.fails o.tried with
    | true => simp [streamLoop, write_fails hf, chunkEvents, Stop.event, Stop.loopEnd, Stop.writes, hf]
    | false => simp [streamLoop, write_ok hf, chunkEvents, Stop.event, Stop.loopEnd, Stop.writes, hf]
  | n, .ok chunk :: rest, o, hn => by
    subst hn
    cases hf : env.fails o.tried with
    | true =>
      refine ⟨[], .failedWrite, .failedWrite hf, ?_⟩
      simp [streamLoop, write_fails hf, chunkEvents, Stop.event, Stop.loopEnd, Stop.writes]
    | false =>
      cases hg : env.gone o.tried with
      | true =>
        refine ⟨[chunk], .gone, .gone hf hg, ?_⟩
        simp [streamLoop, write_ok hf, hg, chunkEvents, Stop.event, Stop.loopEnd, Stop.writes]
      | false =>
        obtain ⟨sent, stop, hstops, hloop⟩ := streamLoop_stops (o.tried + 1) rest
          ⟨o.events ++ [chunkEvent env model responseID o.tried chunk], o.tried + 1⟩ rfl
        have hlen : o.tried + (chunk :: sent).length = o.tried + 1 + sent.length := by
          rw [List.length_cons]
          omega
        refine ⟨chunk :: sent, stop, .next hf hg hstops, ?_⟩
        rw [hlen]
        simp only [streamLoop, write_ok hf, hg, Bool.false_eq_true, if_false, hloop, chunkEvents]
        simp

/-- The events are those of the chunks before the first error chunk or failed write, then the event of that error if it
can be written, and at the end the terminator if it can be written, unless the client is gone. -/
theorem stream_events (env : StreamEnv) (model responseID : String) (chunks : List FromChannel) :
    ∃ sent stop, Stops env 0 chunks sent stop ∧
      handleStreamRequest env model responseID chunks =
        chunkEvents env model responseID 0 sent ++ stop.event env sent.length ++
          (if stop = .gone ∨ env.fails (sent.length + stop.writes) = true then [] else [sseDone]) := by
  obtain ⟨sent, stop, hstops, hloop⟩ := streamLoop_stops model responseID 0 chunks {} rfl
  rw [Nat.zero_add] at hloop
  refine ⟨sent, stop, hstops, ?_⟩
  unfold handleStreamRequest
  rw [hloop, List.nil_append]
  cases stop with
  | gone => rw [if_pos (.inl rfl), List.append_nil]; rfl
  | closed | error err | failedWrite =>
    simp only [Stop.loopEnd, reduceCtorEq, false_or]
    split
    next hf => rw [write_fails hf, List.append_nil]
    next hf => rw [write_ok (Bool.of_not_eq_true hf)]

/-- After the chunks `sent`, nothing is written that an incomplete stream should not end with. -/
def Stop.Silent (env : StreamEnv) (sent : List StreamChunk) : Stop → Prop
  | .closed | .gone => True
  | .error _ => env.fails sent.length = true ∧ env.fails (sent.length + 1) = true
  | .failedWrite => env.fails (sent.length + 1) = true

/-- The chunks' events are followed by the terminator if the channel was closed without an error chunk and every write
succeeds, and by nothing otherwise, exactly when an error chunk or a failed write is followed by writes that fail. -/
theorem done_iff_complete_iff (env : StreamEnv) (model responseID : String) (chunks : List FromChannel) :
    ∃ sent stop, Stops env 0 chunks sent stop ∧
      (handleStreamRequest env model responseID chunks =
          chunkEvents env model responseID 0 sent ++
            (if stop = .closed ∧ env.fails sent.length = false then [sseDone] else []) ↔
        stop.Silent env sent) := by
  obtain ⟨sent, stop, hstops, hevents⟩ := stream_events env model responseID chunks
  refine ⟨sent, stop, hstops, ?_⟩
  rw [hevents, List.append_assoc, List.append_right_inj]
  cases stop with
  | closed => cases hf : env.fails sent.length <;> simp [Stop.event, Stop.writes, Stop.Silent, hf]
  | gone => simp [Stop.event, Stop.Silent]
  | error err => simp [Stop.event, Stop.writes, Stop.Silent]
  | failedWrite => simp [Stop.event, Stop.writes, Stop.Silent]

end Events

/-- An error chunk after a first chunk, with every write succeeding: its event comes after the chunk's, and then the
terminator. -/
theorem error_chunk_then_done :
    handleStreamRequest ⟨fun _ => 0, fun _ => false, fun _ => false⟩ "gpt-4" "chatcmpl-1"
        [.ok { delta := "Hel" }, .error [.other "unexpected EOF"]] =
      [sseEvent (formatStreamChunk 0 { delta := "Hel" } "gpt-4" "chatcmpl-1"),
        sseError (newServerError "An internal error occurred. Please try again later."), sseDone] :=
  rfl

end Jupiter.Proxy
