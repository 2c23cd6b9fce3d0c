/-
What the processor scans of a request, against what the proxy forwards of it.

`combineMessageContent` takes the contents that are plain strings and drops all others, while `convertMessageContent`
also forwards the text of an array of content parts and prints any other value.
-/
import Jupiter.Processing.Content
import Jupiter.Proxy.Chat

namespace Jupiter.Processing

open Jupiter.Go Jupiter.Lib Jupiter.Proxy Content

/-- The content of a message, if it is a string that is not empty. -/
def plainContent : Value → Option String
  | .string content => if content ≠ "" then some content else none
  | _ => none

def combineMessageContent (messages : List Message) : String :=
  " ".intercalate (messages.filterMap fun msg => plainContent msg.content)

def contentAnalysis (u : Unicode) (config : ContentConfig) (messages : List Message) : Option ContentAnalysis :=
  let contentText := combineMessageContent messages
  if contentText ≠ "" then some (analyzeText u config contentText) else none

/-- What is forwarded of a message is scanned: the text is there, and what the detectors find in it is reported. -/
structure Scanned (u : Unicode) (rt : Runtime) (config : ContentConfig) (messages : List Message) (msg : Message) :
    Prop where
  text : Strings.contains (combineMessageContent messages) (convertMessageContent rt msg.content) = true
  pii : config.pii.enabled = true →
    ∀ t ∈ (detectPII config (convertMessageContent rt msg.content)).piiTypes,
      ∃ a d, contentAnalysis u config messages = some a ∧ a.piiDetection = some d ∧
        d.hasPII = true ∧ t ∈ d.piiTypes
  injection : config.injection.enabled = true →
    ∀ p ∈ (detectPromptInjection u config (convertMessageContent rt msg.content)).matchedPatterns, p ≠ "" →
      ∃ a d, contentAnalysis u config messages = some a ∧ a.promptInjection = some d ∧
        d.hasPromptInjection = true ∧ p ∈ d.matchedPatterns

/-! ## Texts in context -/

theorem combineMessageContent_of_mem {messages : List Message} {msg : Message} {s : String} (hmem : msg ∈ messages)
    (hs : msg.content = .string s) (hne : s ≠ "") :
    ∃ pre post, (combineMessageContent messages).toList = pre ++ s.toList ++ post ∧
      Regex.Separated isWord pre post := by
  have hpart : s.toList ∈ (messages.filterMap fun msg => plainContent msg.content).map String.toList :=
    List.mem_map_of_mem (List.mem_filterMap.2 ⟨msg, hmem, by simp [plainContent, hs, hne]⟩)
  obtain ⟨pre, post, heq, hpre, hpost⟩ := Strings.exists_intercalate_eq ' ' hpart
  refine ⟨pre, post, ?_, ⟨fun a ha => ?_, fun a ha => ?_⟩⟩
  · rw [combineMessageContent, String.toList_intercalate]
    exact heq
  · rw [hpre a ha]; rfl
  · rw [hpost a ha]; rfl

/-! ## Scanned messages -/

section Scanned

variable (u : Unicode) (rt : Runtime) (config : ContentConfig)

theorem contentAnalysis_of_ne {messages : List Message} (h : combineMessageContent messages ≠ "") :
    contentAnalysis u config messages = some (analyzeText u config (combineMessageContent messages)) := by
  simp [contentAnalysis, h]

theorem scanned_of_textless (messages : List Message) {msg : Message}
    (h : convertMessageContent rt msg.content = "") : Scanned u rt config messages msg where
  text := by
    rw [h]
    exact (Strings.hasInfix_iff _ _).2 List.nil_infix
  pii := by
    intro _ t ht
    rw [h] at ht
    exact absurd ht (detectPII_empty config t)
  injection := by
    intro _ p hp hne
    rw [h] at hp
    exact absurd (detectPromptInjection_empty u config hp) hne

theorem scanned_of_plain {messages : List Message} {msg : Message} {s : String} (hmem : msg ∈ messages)
    (hs : msg.content = .string s) : Scanned u rt config messages msg := by
  have hfwd : convertMessageContent rt msg.content = s := by rw [hs]; rfl
  by_cases hne : s = ""
  · exact scanned_of_textless u rt config messages (hfwd.trans hne)
  obtain ⟨pre, post, heq, hsep⟩ := combineMessageContent_of_mem hmem hs hne
  have hfind : ∀ r : Regex Char, (Regex.find isWord r s.toList).isSome →
      (Regex.find isWord r (combineMessageContent messages).toList).isSome := by
    intro r hr
    rw [heq]
    exact hsep.find_within r hr
  have hcombined : combineMessageContent messages ≠ "" := by
    intro hempty
    rw [hempty] at heq
    have hnil : s.toList = [] := by
      have := congrArg List.length heq
      simp only [String.toList_empty, List.length_nil, List.length_append] at this
      exact List.eq_nil_of_length_eq_zero (by omega)
    exact hne (by simpa using hnil)
  have hanalysis := contentAnalysis_of_ne u config hcombined
  constructor
  · rw [hfwd]
    exact (Strings.hasInfix_iff _ _).2 ⟨pre, post, heq.symm⟩
  · intro henabled t ht
    rw [hfwd, mem_detectPII] at ht
    obtain ⟨htype, pattern, hpattern, hr⟩ := ht
    have hreported : t ∈ (detectPII config (combineMessageContent messages)).piiTypes :=
      (mem_detectPII _ _ _).2 ⟨htype, pattern, hpattern, hfind pattern hr⟩
    exact ⟨_, _, hanalysis, by simp [analyzeText, hcombined, henabled], detectPII_hasPII hreported, hreported⟩
  · intro henabled p hp _
    rw [hfwd, mem_detectPromptInjection] at hp
    have hreported : p ∈ (detectPromptInjection u config (combineMessageContent messages)).matchedPatterns :=
      (mem_detectPromptInjection _ _ _ _).2 ⟨hp.1, hfind _ hp.2⟩
    exact ⟨_, _, hanalysis, by simp [analyzeText, hcombined, henabled], detectPromptInjection_has hreported, hreported⟩

end Scanned

/-- What is forwarded of a message is scanned in every request and by every analyzer exactly when its content is a plain
string or forwards no text. -/
theorem forwarded_scanned_iff (u : Unicode) (rt : Runtime) (msg : Message) :
    (∀ config before after, Scanned u rt config (before ++ msg :: after) msg) ↔
      (∃ s, msg.content = .string s) ∨ convertMessageContent rt msg.content = "" := by
  constructor
  · intro h
    by_cases hs : ∃ s, msg.content = .string s
    · exact .inl hs
    · -- alone in its request, the message leaves nothing to scan
      have hplain : plainContent msg.content = none := by
        cases hc : msg.content with
        | string s => exact absurd ⟨s, hc⟩ hs
        | _ => rfl
      have hcombined : combineMessageContent [msg] = "" := by simp [combineMessageContent, hplain]
      have htext := (h {} [] []).text
      rw [List.nil_append, hcombined] at htext
      have hnil := List.infix_nil.1 ((Strings.hasInfix_iff _ _).1 htext)
      exact .inr (by simpa using hnil)
  · rintro (⟨s, hs⟩ | htextless) config before after
    · exact scanned_of_plain u rt config (by simp) hs
    · exact scanned_of_textless u rt config _ htextless

def partsMessage : Message where
  role := "user"
  content := .list [.object [("type", .string "text"), ("text", .string "My SSN is 123-45-6789")]]

/-- Its number is forwarded, and the detector would find it, but nothing is analysed. -/
theorem text_parts_not_scanned :
    convertMessageContent ⟨fun _ => "", fun _ => none, fun _ => none⟩ partsMessage.content =
        "My SSN is 123-45-6789" ∧
      (detectPII { pii := { enabled := true, types := ["ssn"] } } "My SSN is 123-45-6789").piiTypes = ["ssn"] ∧
      (contentAnalysis ⟨id, id, fun c => c = ' '⟩ { pii := { enabled := true, types := ["ssn"] } }
        [partsMessage]).isNone = true := by
  refine ⟨rfl, ?_, rfl⟩
  decide

end Jupiter.Processing
