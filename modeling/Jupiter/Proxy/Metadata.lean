/-
`pkg/proxy/metadata.go` and the header functions of `request.go`: what is taken from a request for logging, tracing and
evidence.

An API key is a Go string, and the redaction cuts it between bytes, so the header and the key are lists of bytes here
(the limits middleware, which cuts nothing, reads them as texts).
-/
import Jupiter.Go.Bytes
import Jupiter.Proxy.Types

namespace Jupiter.Proxy

open Jupiter.Go

/-- What the proxy reads of an `http.Request`; a header that is not set is empty. -/
structure IncomingRequest where
  authorization : Bytes := []
  requestID : String := ""
  userID : String := ""
  userAgent : String := ""
  method : String := "POST"
  path : String := "/v1/chat/completions"
  remoteAddr : String := ""

/-- The key behind the scheme `Bearer`, in letters of either case. No letter outside of ASCII has one of its letters as
its lower case. -/
def IncomingRequest.extractAPIKey (r : IncomingRequest) : Bytes :=
  if r.authorization = [] then []
  else if !(r.authorization.contains 0x20) then []
  else if Bytes.lower (r.authorization.takeWhile (· ≠ 0x20)) ≠ Bytes.ascii "bearer" then []
  else Bytes.trimSpace ((r.authorization.dropWhile (· ≠ 0x20)).drop 1)

/-- The first seven and the last four bytes of a key; nothing of a short one. -/
def redactAPIKey (apiKey : Bytes) : Bytes :=
  if apiKey = [] then []
  else if apiKey.length < 12 then Bytes.ascii "***"
  else apiKey.take 7 ++ Bytes.ascii "..." ++ apiKey.drop (apiKey.length - 4)

structure RequestMetadata where
  requestID : String
  model : String
  messages : List Message
  stream : Bool
  maxTokens : Int
  temperature : ℚ
  userID : String
  apiKey : Bytes
  method : String
  path : String
  userAgent : String
  remoteAddr : String
  timestamp : Zoned

def extractRequestMetadata (r : IncomingRequest) (req : ChatCompletionRequest) (now : Zoned) : RequestMetadata where
  requestID := r.requestID
  model := req.model
  messages := req.messages
  stream := req.stream
  maxTokens := req.maxTokens.getD 0
  temperature := req.temperature.getD 1
  userID := r.userID
  apiKey := redactAPIKey r.extractAPIKey
  method := r.method
  path := r.path
  userAgent := r.userAgent
  remoteAddr := r.remoteAddr
  timestamp := now

/-! ## What the redaction keeps apart -/

/-- The keys differ in what the redaction looks at: in being empty, in being shorter than twelve bytes or, when neither
is, in the first seven or the last four bytes. -/
def ToldApart (k k' : Bytes) : Prop :=
  ¬(k = [] ↔ k' = []) ∨ ¬(k.length < 12 ↔ k'.length < 12) ∨
    12 ≤ k.length ∧ 12 ≤ k'.length ∧
      (k.take 7 ≠ k'.take 7 ∨ k.drop (k.length - 4) ≠ k'.drop (k'.length - 4))

theorem redactAPIKey_short {k : Bytes} (hne : k ≠ []) (h : k.length < 12) : redactAPIKey k = Bytes.ascii "***" := by
  rw [redactAPIKey, if_neg hne, if_pos h]

theorem redactAPIKey_long {k : Bytes} (h : 12 ≤ k.length) :
    redactAPIKey k = k.take 7 ++ Bytes.ascii "..." ++ k.drop (k.length - 4) := by
  have hne : k ≠ [] := by
    rintro rfl
    simp at h
  rw [redactAPIKey, if_neg hne, if_neg (Nat.not_lt.2 h)]

theorem redactAPIKey_eq_nil_iff {k : Bytes} : redactAPIKey k = [] ↔ k = [] := by
  unfold redactAPIKey
  split
  · rename_i hk
    exact iff_of_true rfl hk
  · rename_i hk
    refine iff_of_false ?_ hk
    split
    · decide
    · simp [Bytes.ascii]

theorem length_redactAPIKey_lt_iff {k : Bytes} : (redactAPIKey k).length < 12 ↔ k.length < 12 := by
  by_cases hlt : k.length < 12
  · refine iff_of_true ?_ hlt
    by_cases hk : k = []
    · rw [hk]
      decide
    · rw [redactAPIKey_short hk hlt]
      decide
  · refine iff_of_false ?_ hlt
    have hdots : (Bytes.ascii "...").length = 3 := rfl
    rw [redactAPIKey_long (Nat.not_lt.1 hlt), List.length_append, List.length_append, List.length_take,
      List.length_drop, hdots]
    omega

theorem redactAPIKey_long_eq_iff {k k' : Bytes} (h : 12 ≤ k.length) (h' : 12 ≤ k'.length) :
    redactAPIKey k = redactAPIKey k' ↔
      k.take 7 = k'.take 7 ∧ k.drop (k.length - 4) = k'.drop (k'.length - 4) := by
  rw [redactAPIKey_long h, redactAPIKey_long h']
  constructor
  · intro heq
    have hlen : (k.take 7 ++ Bytes.ascii "...").length = (k'.take 7 ++ Bytes.ascii "...").length := by
      simp only [List.length_append, List.length_take]
      omega
    obtain ⟨hfront, hback⟩ := List.append_inj heq hlen
    exact ⟨List.append_cancel_right hfront, hback⟩
  · rintro ⟨hfront, hback⟩
    rw [hfront, hback]

theorem redactAPIKey_ne_iff {k k' : Bytes} : redactAPIKey k ≠ redactAPIKey k' ↔ ToldApart k k' := by
  constructor
  · intro hne
    by_contra htold
    obtain ⟨hempty, hshort, hlong⟩ : (k = [] ↔ k' = []) ∧ (k.length < 12 ↔ k'.length < 12) ∧
        (12 ≤ k.length → 12 ≤ k'.length →
          k.take 7 = k'.take 7 ∧ k.drop (k.length - 4) = k'.drop (k'.length - 4)) := by
      simp only [ToldApart, not_or, not_and, not_not] at htold
      exact htold
    refine hne ?_
    by_cases hk : k = []
    · rw [hk, hempty.1 hk]
    · by_cases hlt : k.length < 12
      · rw [redactAPIKey_short hk hlt, redactAPIKey_short (mt hempty.2 hk) (hshort.1 hlt)]
      · have hge := Nat.not_lt.1 hlt
        have hge' := Nat.not_lt.1 (mt hshort.2 hlt)
        exact (redactAPIKey_long_eq_iff hge hge').2 (hlong hge hge')
  · rintro (hempty | hshort | ⟨hge, hge', hdiff⟩) heq
    · exact hempty (by rw [← redactAPIKey_eq_nil_iff, heq, redactAPIKey_eq_nil_iff])
    · exact hshort (by rw [← length_redactAPIKey_lt_iff, heq, length_redactAPIKey_lt_iff])
    · obtain ⟨hfront, hback⟩ := (redactAPIKey_long_eq_iff hge hge').1 heq
      exact hdiff.elim (· hfront) (· hback)

end Jupiter.Proxy
