/-
`pkg/proxy/middleware/timeout.go`: the middleware that answers 504 when a request takes too long.

The handler runs in a goroutine of its own on the same writer, which nothing guards. The handler makes any calls on the
writer, at any moment, and returns or not; the context ends at any moment, by its deadline or because the request was
cancelled; the middleware's `select` takes either branch that is ready.
-/
import Jupiter.Lib.Machine
import Jupiter.Proxy.Response

namespace Jupiter.Proxy

open Jupiter.Lib

/-- The calls of the timeout branch; `Encode` writes once, with a newline at the end. -/
def timeoutCalls : List WriterCall :=
  [.setHeader "Content-Type" "application/json", .writeHeader 504,
    .write (marshalError (newGatewayTimeoutError "Request timeout: the request took too long to complete") ++ "\n")]

inductive ContextState where
  | active
  | deadlineExceeded
  | canceled
  deriving DecidableEq

/-- Where the middleware is: at its `select`, before the calls of the timeout branch that remain, or returned. -/
inductive MiddlewarePhase where
  | waiting
  | timingOut (remaining : List WriterCall)
  | returned
  deriving DecidableEq

/-- `handlerCalls` are the calls the handler has made and `late` is whether it made one after the middleware had
returned; no code reads either. -/
structure TimedRequest where
  writer : Writer := {}
  context : ContextState := .active
  handlerDone : Bool := false
  phase : MiddlewarePhase := .waiting
  handlerCalls : List WriterCall := []
  late : Bool := false
  deriving DecidableEq

inductive TimedStep where
  | handler (call : WriterCall)
  | handlerReturns
  | deadline
  | cancel
  | selectDone
  | selectContext
  | answer
  deriving DecidableEq

namespace TimedRequest

def step (s : TimedRequest) : TimedStep → Option TimedRequest
  | .handler call =>
    if s.handlerDone then none
    else
      -- The handler has the same writer as the timeout branch, before and after the `select`.
      some { s with
        writer := s.writer.call call
        handlerCalls := s.handlerCalls ++ [call]
        late := s.late || s.phase == .returned }
  | .handlerReturns => if s.handlerDone then none else some { s with handlerDone := true }
  | .deadline => if s.context = .active then some { s with context := .deadlineExceeded } else none
  | .cancel => if s.context = .active then some { s with context := .canceled } else none
  | .selectDone => if s.phase = .waiting ∧ s.handlerDone then some { s with phase := .returned } else none
  -- Both cases may be ready; `select` then takes either.
  | .selectContext =>
    if s.phase = .waiting ∧ s.context ≠ .active then
      some { s with phase := if s.context = .deadlineExceeded then .timingOut timeoutCalls else .returned }
    else none
  | .answer =>
    match s.phase with
    | .timingOut (call :: rest) =>
      some { s with writer := s.writer.call call, phase := if rest.isEmpty then .returned else .timingOut rest }
    | _ => none

variable {s s' : TimedRequest} {l : TimedStep}

/-- The timeout branch is taken before the handler's first call on the writer, and the handler makes no call once the
middleware has left its `select`. -/
def HandlerAside (s : TimedRequest) : TimedStep → Prop
  | .selectContext => s.context = .deadlineExceeded → s.handlerCalls = []
  | .handler _ => s.phase = .waiting
  | _ => True

/-- Until the timeout branch is taken the writer has had the handler's calls, and from then on those of the branch. -/
structure OneAnswer (s : TimedRequest) : Prop where
  onTime : s.late = false
  waiting : s.phase = .waiting → s.writer = .after s.handlerCalls
  timingOut : ∀ remaining, s.phase = .timingOut remaining →
    s.handlerCalls = [] ∧ ∃ made, timeoutCalls = made ++ remaining ∧ s.writer = .after made
  returned : s.phase = .returned → s.writer = .after s.handlerCalls ∨ s.writer = .after timeoutCalls

theorem after_snoc (calls : List WriterCall) (call : WriterCall) :
    Writer.after (calls ++ [call]) = (Writer.after calls).call call := by
  simp [Writer.after]

theorem OneAnswer.start : OneAnswer {} where
  onTime := rfl
  waiting := fun _ => rfl
  timingOut := by
    intro _ h
    cases h
  returned := by
    intro h
    cases h

theorem OneAnswer.step (h : OneAnswer s) (hok : HandlerAside s l) (hstep : s.step l = some s') : OneAnswer s' := by
  obtain ⟨honTime, hwaiting, htiming, hreturned⟩ := h
  cases l with
  | handler call =>
    have hphase : s.phase = .waiting := hok
    simp only [TimedRequest.step] at hstep
    split at hstep <;> cases hstep
    refine ⟨?_, ?_, ?_, ?_⟩
    · show (s.late || s.phase == .returned) = false
      rw [honTime, hphase]
      rfl
    · intro _
      show s.writer.call call = .after (s.handlerCalls ++ [call])
      rw [after_snoc, hwaiting hphase]
    · intro remaining hr
      cases hphase.symm.trans hr
    · intro hr
      cases hphase.symm.trans hr
  | handlerReturns | deadline | cancel =>
    simp only [TimedRequest.step] at hstep
    split at hstep <;> cases hstep
    exact ⟨honTime, hwaiting, htiming, hreturned⟩
  | selectDone =>
    simp only [TimedRequest.step] at hstep
    split at hstep
    · rename_i hsel
      cases hstep
      exact ⟨honTime, fun hp => (by cases hp), fun _ hp => (by cases hp), fun _ => .inl (hwaiting hsel.1)⟩
    · cases hstep
  | selectContext =>
    simp only [TimedRequest.step] at hstep
    split at hstep
    · rename_i hsel
      cases hstep
      by_cases hdeadline : s.context = .deadlineExceeded
      · simp only [hdeadline, if_true]
        have hnone := hok hdeadline
        refine ⟨honTime, fun hp => (by cases hp), ?_, fun hp => (by cases hp)⟩
        intro remaining hp
        cases hp
        exact ⟨hnone, [], rfl, by rw [hwaiting hsel.1, hnone]⟩
      · simp only [if_neg hdeadline]
        exact ⟨honTime, fun hp => (by cases hp), fun _ hp => (by cases hp), fun _ => .inl (hwaiting hsel.1)⟩
    · cases hstep
  | answer =>
    simp only [TimedRequest.step] at hstep
    split at hstep
    · rename_i call rest hphase
      cases hstep
      obtain ⟨hnone, made, hcalls, hwriter⟩ := htiming _ hphase
      have hnext : s.writer.call call = .after (made ++ [call]) := by rw [after_snoc, hwriter]
      have hcalls' : timeoutCalls = made ++ [call] ++ rest := by rw [hcalls, List.append_assoc]; rfl
      cases rest with
      | nil =>
        refine ⟨honTime, fun hp => (by cases hp), fun _ hp => (by cases hp), fun _ => .inr ?_⟩
        rw [hcalls', List.append_nil]
        exact hnext
      | cons c rest =>
        refine ⟨honTime, fun hp => (by cases hp), ?_, fun hp => (by cases hp)⟩
        intro remaining hp
        cases hp
        exact ⟨hnone, made ++ [call], hcalls', hnext⟩
    · cases hstep

end TimedRequest

/-- In every run in which the handler stays aside, the client receives exactly what the handler wrote or exactly the
timeout response, and nothing is written once the middleware has returned. -/
theorem timeout_one_response (steps : List TimedStep) (s : TimedRequest)
    (haside : Meets TimedRequest.step TimedRequest.HandlerAside {} steps)
    (hrun : run TimedRequest.step {} steps = some s) :
    (s.phase = .returned → s.writer.received = (Writer.after s.handlerCalls).received ∨
      s.writer.received = (Writer.after timeoutCalls).received) ∧ s.late = false := by
  have h : s.OneAnswer := run_invariant_of_meets (fun _ _ _ ha hok hs => ha.step hok hs) steps {} s .start haside hrun
  refine ⟨?_, h.onTime⟩
  intro hreturned
  rcases h.returned hreturned with hw | hw
  · exact .inl (congrArg Writer.received hw)
  · exact .inr (congrArg Writer.received hw)

theorem timeout_one_response_silent :
    ∃ s, run TimedRequest.step {} [.deadline, .selectContext, .answer, .answer, .answer] = some s ∧
      s.phase = .returned ∧ s.writer.received.1.1 = 504 ∧
      (s.writer.received = (Writer.after s.handlerCalls).received ∨
        s.writer.received = (Writer.after timeoutCalls).received) := by
  refine ⟨_, rfl, rfl, rfl,
    (timeout_one_response [.deadline, .selectContext, .answer, .answer, .answer] _ ?_ rfl).1 rfl⟩
  refine ⟨trivial, fun s hs => ⟨?_, fun s' _ => meets_of_forall ?_ s'⟩⟩
  · cases hs
    exact fun _ => rfl
  · intro l hl s
    have hanswer : l = .answer := by simpa using hl
    rw [hanswer]
    trivial

def streamStart : List TimedStep :=
  (setSSEHeaders ++ [WriterCall.flush,
    .write (sseEvent (formatStreamChunk 0 { delta := "Hel" } "gpt-4" "chatcmpl-1"))]).map .handler

/-- The deadline falls after the first chunk of a stream: the client gets status 200 and the error behind the chunk, and
then the handler writes after the middleware has returned. -/
theorem timeout_mixes_responses :
    (∃ s, run TimedRequest.step {} (streamStart ++ [.deadline, .selectContext, .answer, .answer, .answer]) = some s ∧
      s.phase = .returned ∧ s.writer.received ≠ (Writer.after s.handlerCalls).received ∧
      s.writer.received ≠ (Writer.after timeoutCalls).received) ∧
    ∃ s, run TimedRequest.step {} (streamStart ++ [.deadline, .selectContext, .answer, .answer, .answer,
        .handler (.write sseDone)]) = some s ∧ s.late = true := by
  constructor
  · refine ⟨_, rfl, rfl, ?_, ?_⟩
    · decide +kernel
    · decide +kernel
  · exact ⟨_, rfl, rfl⟩

end Jupiter.Proxy
