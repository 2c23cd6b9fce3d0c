/-
`pkg/processing/content/analyzer.go`: the analysis of a request's text, with its PII patterns and injection patterns as
regular expressions.

Names are the source's; the results are the structures of `Processing.Types`. Floating-point numbers are rationals, and
positions are byte offsets as in the source. The Unicode tables are a parameter.
-/
import Jupiter.Lib.Regex
import Jupiter.Processing.Types

namespace Jupiter.Processing.Content

open Jupiter.Go Jupiter.Lib

/-! ## Configuration -/

structure PIIConfig where
  enabled : Bool := false
  types : List String := []

structure SensitiveConfig where
  enabled : Bool := false
  categories : List String := []

structure InjectionConfig where
  enabled : Bool := false
  patterns : List String := []

structure ContentConfig where
  pii : PIIConfig := {}
  sensitive : SensitiveConfig := {}
  injection : InjectionConfig := {}

/-- What the Unicode tables decide: `strings.ToLower`, the character that stands for all case variants of a character,
and white space. -/
structure Unicode where
  toLower : String → String
  fold : Char → Char
  isSpace : Char → Bool

def byteLen (cs : List Char) : Nat := cs.foldl (fun n c => n + c.utf8Size) 0

/-! ## Patterns -/

/-- The word characters of `\b`. -/
def isWord (c : Char) : Bool := c.isAlphanum || c = '_'

def oneOf (s : String) (c : Char) : Bool := s.toList.contains c

/-- The class `\d`. -/
def digit (c : Char) : Bool := c.isDigit

/-- The class `[-.\s]`. -/
def separator (c : Char) : Bool := oneOf "-. \t\n\r" c || c.toNat = 12

/-- The class `[\s-]`. -/
def spaceOrDash (c : Char) : Bool := oneOf "- \t\n\r" c || c.toNat = 12

open Regex in
/-- `compilePIIPatterns`. -/
def piiPattern (piiType : String) : Option (Regex Char) :=
  if piiType = "email" then
    some (sequence [boundary, plus fun c => c.isAlphanum || oneOf "._%+-" c, cls (· = '@'),
      plus fun c => c.isAlphanum || oneOf ".-" c, cls (· = '.'),
      cls fun c => c.isAlpha || c = '|', plus fun c => c.isAlpha || c = '|', boundary])
  else if piiType = "phone" then
    some (sequence [boundary, opt (sequence [opt (cls (· = '+')), opt (cls (· = '1')), opt (cls separator)]),
      opt (cls (· = '(')), times 3 (cls digit), opt (cls (· = ')')), opt (cls separator), times 3 (cls digit),
      opt (cls separator), times 4 (cls digit), boundary])
  else if piiType = "ssn" then
    some (sequence [boundary, times 3 (cls digit), cls (· = '-'), times 2 (cls digit), cls (· = '-'),
      times 4 (cls digit), boundary])
  else if piiType = "credit_card" then
    some (sequence [boundary, times 4 (cls digit), opt (cls spaceOrDash), times 4 (cls digit), opt (cls spaceOrDash),
      times 4 (cls digit), opt (cls spaceOrDash), times 4 (cls digit), boundary])
  else if piiType = "ip_address" then
    -- `\d{1,3}` takes up to two more digits
    let byte := sequence [cls digit, opt (seq (cls digit) (opt (cls digit)))]
    some (sequence [boundary, times 3 (seq byte (cls (· = '.'))), byte, boundary])
  else none

/-- `compileInjectionPatterns`: the pattern as a literal, without regard to case. -/
def injectionPattern (u : Unicode) (pattern : String) : Regex Char :=
  Regex.sequence (pattern.toList.map fun c => .cls fun c' => u.fold c' = u.fold c)

/-! ## Detection -/

def detectType (text : String) (detection : PIIDetection) (piiType : String) : PIIDetection :=
  match piiPattern piiType with
  | none => detection
  | some pattern =>
    let found := Regex.findAll isWord pattern text.toList
    if 0 < found.length then
      { hasPII := true
        piiTypes := detection.piiTypes ++ [piiType]
        piiCount := detection.piiCount + found.length
        locations := detection.locations ++ found.map fun m =>
          { type := piiType, start := byteLen m.1.before, stop := byteLen m.2.before, confidence := 1 } }
    else detection

def detectPII (config : ContentConfig) (text : String) : PIIDetection :=
  config.pii.types.foldl (detectType text) {}

def categoryKeywords (category : String) : Option (List String) :=
  if category = "profanity" then some ["fuck", "shit", "damn", "ass", "bitch"]
  else if category = "violence" then some ["kill", "murder", "attack", "weapon", "blood", "death"]
  else if category = "hate_speech" then some ["hate", "racist", "discrimination"]
  else if category = "adult_content" then some ["sex", "porn", "nude", "explicit"]
  else none

def detectCategory (textLower : String) (detection : SensitiveContent) (category : String) : SensitiveContent :=
  match categoryKeywords category with
  | none => detection
  | some keywords =>
    let categoryMatches := keywords.countP (Strings.contains textLower ·)
    if 0 < categoryMatches then
      { detection with
        hasSensitiveContent := true
        categories := detection.categories ++ [category]
        matchCount := detection.matchCount + categoryMatches }
    else detection

def detectSensitiveContent (u : Unicode) (config : ContentConfig) (text : String) : SensitiveContent :=
  let detection := config.sensitive.categories.foldl (detectCategory (u.toLower text)) {}
  { detection with
    severity :=
      if 5 ≤ detection.matchCount then "critical"
      else if 3 ≤ detection.matchCount then "high"
      else if 1 ≤ detection.matchCount then "medium"
      else "low" }

def containsAny (u : Unicode) (haystack needles : List String) : Bool :=
  haystack.any fun h => needles.any fun n => Strings.contains (u.toLower h) (u.toLower n)

def detectPromptInjection (u : Unicode) (config : ContentConfig) (text : String) : PromptInjection :=
  let matched := config.injection.patterns.filter fun pattern =>
    (Regex.find isWord (injectionPattern u pattern) text.toList).isSome
  if matched = [] then {}
  else
    { hasPromptInjection := true
      matchedPatterns := matched
      injectionType :=
        if containsAny u matched ["ignore", "disregard", "forget"] then "direct"
        else if containsAny u matched ["you are now"] then "jailbreak"
        else "indirect"
      confidence := if 3 ≤ matched.length then 95 / 100 else if 2 ≤ matched.length then 85 / 100 else 75 / 100 }

/-! ## Statistics -/

/-- `strings.Count` for a word that is not empty: `skip` characters belong to the last occurrence. -/
def countWord (word : List Char) : Nat → List Char → Nat
  | _, [] => 0
  | 0, c :: cs => if word.isPrefixOf (c :: cs) then 1 + countWord word (word.length - 1) cs else countWord word 0 cs
  | skip + 1, _ :: cs => countWord word skip cs

def countAll (text : String) (words : List String) : Nat :=
  words.foldl (fun n word => n + countWord word.toList 0 text.toList) 0

def analyzeSentiment (u : Unicode) (text : String) : Sentiment :=
  let textLower := u.toLower text
  let positiveCount := countAll textLower
    ["good", "great", "excellent", "amazing", "wonderful", "happy", "love", "best", "thank", "perfect"]
  let negativeCount := countAll textLower
    ["bad", "terrible", "awful", "horrible", "worst", "hate", "angry", "sad", "wrong", "fail"]
  let total := positiveCount + negativeCount
  let score : ℚ := if 0 < total then ((positiveCount : ℚ) - negativeCount) / total else 0
  { score
    label := if 2 / 10 < score then "positive" else if score < -2 / 10 then "negative" else "neutral"
    confidence := 7 / 10 }

/-- `len(strings.Fields(text))`; `inWord` tells that the last character was none of white space. -/
def countWords (u : Unicode) : Bool → List Char → Nat
  | _, [] => 0
  | inWord, c :: cs =>
    if u.isSpace c then countWords u false cs else (if inWord then 0 else 1) + countWords u true cs

def countSentences (text : List Char) : Nat :=
  let count := text.countP (oneOf ".!?")
  if count = 0 ∧ text ≠ [] then 1 else count

def analyzeText (u : Unicode) (config : ContentConfig) (text : String) : ContentAnalysis :=
  if text = "" then {}
  else
    let wordCount := countWords u false text.toList
    { piiDetection := if config.pii.enabled then some (detectPII config text) else none
      sensitiveContent := if config.sensitive.enabled then some (detectSensitiveContent u config text) else none
      promptInjection := if config.injection.enabled then some (detectPromptInjection u config text) else none
      sentiment := some (analyzeSentiment u text)
      wordCount
      sentenceCount := countSentences text.toList
      averageWordLength := if 0 < wordCount then (byteLen text.toList : ℚ) / wordCount else 0
      language := "en" }

/-! ## What is detected -/

theorem mem_foldl_detectType (text : String) (types : List String) (detection : PIIDetection) (t : String) :
    t ∈ (types.foldl (detectType text) detection).piiTypes ↔
      t ∈ detection.piiTypes ∨
        t ∈ types ∧ ∃ pattern, piiPattern t = some pattern ∧ (Regex.find isWord pattern text.toList).isSome := by
  induction types generalizing detection with
  | nil => simp
  | cons u types ih =>
    rw [List.foldl_cons, ih]
    have hone : t ∈ (detectType text detection u).piiTypes ↔
        t ∈ detection.piiTypes ∨
          t = u ∧ ∃ pattern, piiPattern t = some pattern ∧ (Regex.find isWord pattern text.toList).isSome := by
      unfold detectType
      cases hp : piiPattern u with
      | none =>
        refine ⟨.inl, ?_⟩
        rintro (h | ⟨rfl, pattern, heq, -⟩)
        · exact h
        · rw [hp] at heq
          cases heq
      | some pattern =>
        simp only [List.length_pos_iff_ne_nil, Regex.findAll_ne_nil]
        split
        · next hf =>
          rw [List.mem_append, List.mem_singleton]
          refine or_congr_right ⟨fun h => ⟨h, pattern, h ▸ hp, hf⟩, And.left⟩
        · next hf =>
          refine ⟨.inl, ?_⟩
          rintro (h | ⟨rfl, pattern', heq, hf'⟩)
          · exact h
          · rw [hp] at heq
            cases heq
            exact absurd hf' hf
    rw [hone, List.mem_cons, or_assoc, ← or_and_right]

theorem mem_detectPII (config : ContentConfig) (text t : String) :
    t ∈ (detectPII config text).piiTypes ↔
      t ∈ config.pii.types ∧
        ∃ pattern, piiPattern t = some pattern ∧ (Regex.find isWord pattern text.toList).isSome := by
  rw [detectPII, mem_foldl_detectType]
  simp

theorem detectType_hasPII (text : String) (types : List String) (detection : PIIDetection)
    (h : detection.piiTypes ≠ [] → detection.hasPII = true) :
    (types.foldl (detectType text) detection).piiTypes ≠ [] →
      (types.foldl (detectType text) detection).hasPII = true := by
  induction types generalizing detection with
  | nil => exact h
  | cons u types ih =>
    refine ih _ ?_
    unfold detectType
    split
    · exact h
    · dsimp only
      split
      · exact fun _ => rfl
      · exact h

theorem detectPII_hasPII {config : ContentConfig} {text t : String} (h : t ∈ (detectPII config text).piiTypes) :
    (detectPII config text).hasPII = true :=
  detectType_hasPII text config.pii.types {} (fun hne => absurd rfl hne) (List.ne_nil_of_mem h)

theorem detectPII_empty (config : ContentConfig) (t : String) : t ∉ (detectPII config "").piiTypes := by
  rw [mem_detectPII]
  rintro ⟨-, pattern, hp, hf⟩
  unfold piiPattern at hp
  -- a pattern of the table has no match in the empty text
  split_ifs at hp <;> cases hp <;> exact absurd hf (by decide)

theorem mem_detectPromptInjection (u : Unicode) (config : ContentConfig) (text p : String) :
    p ∈ (detectPromptInjection u config text).matchedPatterns ↔
      p ∈ config.injection.patterns ∧
        (Regex.find isWord (injectionPattern u p) text.toList).isSome := by
  unfold detectPromptInjection
  dsimp only
  split
  · next hnone =>
    have hno : p ∉ config.injection.patterns.filter fun pattern =>
        (Regex.find isWord (injectionPattern u pattern) text.toList).isSome := by rw [hnone]; exact List.not_mem_nil
    rw [List.mem_filter] at hno
    exact iff_of_false List.not_mem_nil hno
  · rw [List.mem_filter]

theorem detectPromptInjection_has {u : Unicode} {config : ContentConfig} {text p : String}
    (h : p ∈ (detectPromptInjection u config text).matchedPatterns) :
    (detectPromptInjection u config text).hasPromptInjection = true := by
  unfold detectPromptInjection at h ⊢
  dsimp only at h ⊢
  split at h
  · cases h
  · next hne => rw [if_neg hne]

theorem detectPromptInjection_empty (u : Unicode) (config : ContentConfig) {p : String}
    (h : p ∈ (detectPromptInjection u config "").matchedPatterns) : p = "" := by
  obtain ⟨-, hf⟩ := (mem_detectPromptInjection u config "" p).1 h
  cases hp : p.toList with
  | nil => simpa using hp
  | cons c cs =>
    unfold injectionPattern at hf
    rw [hp] at hf
    cases hf

end Jupiter.Processing.Content
