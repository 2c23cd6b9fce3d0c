/-
`pkg/telemetry/logging/redactor.go`: the patterns of a redactor, built in and custom, and `RedactString`.

The patterns are kept in a map and `RedactString` applies them in the order of a `range` over it, each to what the ones
before it left.
-/
import Jupiter.Go.Regexp
import Jupiter.Lib.Regex
import Jupiter.Lib.Commuting
import Jupiter.Lib.Table

namespace Jupiter.Config

structure RedactPattern where
  name : String
  pattern : String
  replacement : String

end Jupiter.Config

namespace Jupiter.Telemetry

open Jupiter.Go Jupiter.Lib Jupiter.Lib.Rewrite

/-! ## The built-in patterns -/

section Patterns

def isSpace (c : Char) : Bool := ['\t', '\n', '\x0c', '\r', ' '].contains c

/-- What `\b` looks for. -/
def isWordChar (c : Char) : Bool := c.isAlphanum || c == '_'

def isHexDigit (c : Char) : Bool := c.isDigit || 'a' ≤ c && c ≤ 'f' || 'A' ≤ c && c ≤ 'F'

def oneOf (chars : List Char) : Regex Char := .cls chars.contains

def text (s : String) : Regex Char := .literal s.toList

def digits (n : Nat) : Regex Char := .times n (.cls Char.isDigit)

/-- `(sk-[a-zA-Z0-9]+|api[-_]?key[-_:]\s*[a-zA-Z0-9]+)` -/
def apiKey : Regex Char :=
  .group 1 (.alt (.seq (text "sk-") (.plus Char.isAlphanum))
    (.sequence [text "api", .opt (oneOf ['-', '_']), text "key", oneOf ['-', '_', ':'], .many true isSpace,
      .plus Char.isAlphanum]))

/-- `([a-zA-Z0-9._%+-]+@[a-zA-Z0-9.-]+\.[a-zA-Z]{2,})` -/
def email : Regex Char :=
  .group 1 (.sequence [.plus fun c => c.isAlphanum || ['.', '_', '%', '+', '-'].contains c, text "@",
    .plus fun c => c.isAlphanum || ['.', '-'].contains c, text ".", .times 2 (.cls Char.isAlpha),
    .many true Char.isAlpha])

/-- `\b\d{3}[-\s]?\d{2}[-\s]?\d{4}\b` -/
def ssn : Regex Char :=
  let separator := Regex.opt (.cls fun c => c == '-' || isSpace c)
  .sequence [.boundary, digits 3, separator, digits 2, separator, digits 4, .boundary]

/-- `\b(?:\d[ -]*?){13,16}\b` -/
def creditCard : Regex Char :=
  let digit := Regex.seq (.cls Char.isDigit) (.many false [' ', '-'].contains)
  .sequence [.boundary, .times 13 digit, .upTo 3 digit, .boundary]

/-- `\b(?:\d{1,3}\.){3}\d{1,3}\b` -/
def ipv4 : Regex Char :=
  let part := Regex.seq (digits 1) (.upTo 2 (.cls Char.isDigit))
  .sequence [.boundary, .times 3 (.seq part (text ".")), part, .boundary]

/-- `\b(?:[0-9a-fA-F]{1,4}:){7}[0-9a-fA-F]{1,4}\b` -/
def ipv6 : Regex Char :=
  let part := Regex.seq (.cls isHexDigit) (.upTo 3 (.cls isHexDigit))
  .sequence [.boundary, .times 7 (.seq part (text ":")), part, .boundary]

/-- `\b(?:\+?1[-.\s]?)?\(?\d{3}\)?[-.\s]?\d{3}[-.\s]?\d{4}\b` -/
def phone : Regex Char :=
  let separator := Regex.opt (.cls fun c => ['-', '.'].contains c || isSpace c)
  .sequence [.boundary, .opt (.sequence [.opt (text "+"), text "1", separator]), .opt (text "("), digits 3,
    .opt (text ")"), separator, digits 3, separator, digits 4, .boundary]

/-- `Bearer\s+[a-zA-Z0-9\-._~+/]+=*` -/
def bearerToken : Regex Char :=
  .sequence [text "Bearer", .plus isSpace, .plus fun c => c.isAlphanum || ['-', '.', '_', '~', '+', '/'].contains c,
    .many true (· == '=')]

/-- `(password|passwd|pwd)[:=]\s*[^\s]+` -/
def password : Regex Char :=
  .sequence [.group 1 (.alt (text "password") (.alt (text "passwd") (text "pwd"))), oneOf [':', '='],
    .many true isSpace, .plus fun c => !isSpace c]

end Patterns

/-- A compiled pattern and its replacement. -/
structure RedactPattern where
  name : String
  regex : Regexp
  replacement : String

def builtIn (name : String) (regex : Regex Char) (replacement : String) : String × RedactPattern :=
  (name, { name, regex := { matcher := regex.matcher isWordChar }, replacement })

/-- `addDefaultPatterns`. -/
def defaultPatterns : List (String × RedactPattern) :=
  [builtIn "api_key" apiKey "sk-***",
   builtIn "email" email "$1_redacted",
   builtIn "ssn" ssn "***-**-****",
   builtIn "credit_card" creditCard "****-****-****-****",
   builtIn "ipv4" ipv4 "192.*.*.*",
   builtIn "ipv6" ipv6 "****:****:****:****:****:****:****:****",
   builtIn "phone" phone "***-***-****",
   builtIn "bearer_token" bearerToken "Bearer ***",
   builtIn "password" password "$1: ***"]

/-! ## The redactor -/

/-- `patterns` is a map. -/
structure Redactor where
  patterns : List (String × RedactPattern)
  enabled : Bool
  nodup : (Lib.Table.keys patterns).Nodup

/-- A custom pattern takes the place of one of its name; one that does not compile is skipped. -/
def addPattern (regexp : RegexpPackage) (patterns : List (String × RedactPattern)) (p : Config.RedactPattern) :
    List (String × RedactPattern) :=
  match regexp.compile p.pattern with
  | .error _ => patterns
  | .ok regex => Lib.Table.upsert p.name (fun _ => { name := p.name, regex, replacement := p.replacement }) patterns

theorem nodup_addPatterns (regexp : RegexpPackage) (customPatterns : List Config.RedactPattern)
    {patterns : List (String × RedactPattern)} (h : (Lib.Table.keys patterns).Nodup) :
    (Lib.Table.keys (customPatterns.foldl (addPattern regexp) patterns)).Nodup := by
  induction customPatterns generalizing patterns with
  | nil => exact h
  | cons p customPatterns ih =>
    refine ih ?_
    rw [addPattern]
    cases regexp.compile p.pattern with
    | error _ => exact h
    | ok regex => exact Lib.Table.nodup_upsert h

def newRedactor (regexp : RegexpPackage) (customPatterns : List Config.RedactPattern) : Redactor where
  patterns := customPatterns.foldl (addPattern regexp) defaultPatterns
  enabled := true
  nodup := nodup_addPatterns regexp customPatterns (by decide)

namespace Redactor

variable (isWord : Char → Bool) (r : Redactor)

def redactString (range : MapRange r.patterns) (value : String) : String :=
  if !r.enabled || value = "" then value
  else
    range.order.foldl (fun redacted pattern =>
      pattern.2.regex.replaceAllString isWord redacted pattern.2.replacement) value

def entry (pattern : String × RedactPattern) : String × (List Char → List (Token Char)) :=
  (pattern.1, fun text => pattern.2.regex.tokens isWord text pattern.2.replacement)

def passes (range : MapRange r.patterns) (value : String) : List (List (Token Char)) :=
  if !r.enabled || value = "" then [] else tracePasses (range.order.map (entry isWord)) value.toList

def Deterministic (value : String) : Prop :=
  ∀ range range' : MapRange r.patterns, r.redactString isWord range value = r.redactString isWord range' value

/-- In no order a match of a pattern in the string survives unchanged. -/
def Erases (value : String) : Prop :=
  ∀ range : MapRange r.patterns,
    NoSurvivor (r.patterns.map (entry isWord)) value.toList (r.passes isWord range value)

variable {isWord r}

theorem foldl_replaceAllString (patterns : List (String × RedactPattern)) (value : String) :
    patterns.foldl (fun redacted pattern =>
        pattern.2.regex.replaceAllString isWord redacted pattern.2.replacement) value =
      String.ofList (runPasses (patterns.map (entry isWord)) value.toList) := by
  induction patterns generalizing value with
  | nil => exact String.ofList_toList.symm
  | cons pattern patterns ih =>
    rw [List.foldl_cons, ih, List.map_cons, runPasses, runPasses, List.foldl_cons, Regexp.replaceAllString,
      String.toList_ofList]
    rfl

theorem keys_entries : (r.patterns.map (entry isWord)).map Prod.fst = Lib.Table.keys r.patterns := by
  rw [List.map_map]
  rfl

theorem isolated_entries : ∀ e ∈ r.patterns.map (entry isWord), ∀ text, Token.Isolated (e.2 text) := by
  intro e he text
  obtain ⟨pattern, -, rfl⟩ := List.mem_map.1 he
  exact pattern.2.regex.matcher.isolated_tokens _ text

/-- Where no pattern changes what another finds, every order gives the same result. -/
theorem deterministic_of_independent {value : String} {marks : List (Mark String Char)}
    (h : Independent (r.patterns.map (entry isWord)) value.toList marks) : r.Deterministic isWord value := by
  have hnodup : ((r.patterns.map (entry isWord)).map Prod.fst).Nodup := keys_entries ▸ r.nodup
  intro range range'
  unfold redactString
  split
  · rfl
  · rw [foldl_replaceAllString, foldl_replaceAllString, h.run_eq hnodup (range.perm.map _),
      h.run_eq hnodup (range'.perm.map _)]

theorem deterministic_empty : r.Deterministic isWord "" := by
  intro range range'
  simp [redactString]

theorem erases_empty : r.Erases isWord "" := by
  intro range e he before source put after heq hsource
  obtain ⟨pattern, -, rfl⟩ := List.mem_map.1 he
  have hsources := congrArg Token.sources heq
  simp only [entry, Regexp.sources_tokens, Token.sources_append, Token.sources_cons, Token.source] at hsources
  have hnil := List.append_eq_nil_iff.1 hsources.symm
  exact absurd (List.append_eq_nil_iff.1 hnil.2).1 hsource

theorem erases_iff {value : String} {marks : List (Mark String Char)} (henabled : r.enabled) (hvalue : value ≠ "")
    (h : Independent (r.patterns.map (entry isWord)) value.toList marks) :
    r.Erases isWord value ↔ Changed marks := by
  have hnodup : ((r.patterns.map (entry isWord)).map Prod.fst).Nodup := keys_entries ▸ r.nodup
  have hpasses : ∀ range, r.passes isWord range value = tracePasses (range.order.map (entry isWord)) value.toList := by
    intro range
    simp [passes, henabled, hvalue]
  have hiff : ∀ range : MapRange r.patterns,
      NoSurvivor (r.patterns.map (entry isWord)) value.toList (r.passes isWord range value) ↔ Changed marks := by
    intro range
    rw [hpasses]
    exact h.noSurvivor_iff hnodup (range.perm.map _) isolated_entries
  constructor
  · intro herases
    exact (hiff ⟨r.patterns, .refl _⟩).1 (herases _)
  · intro hchanged range
    exact (hiff range).2 hchanged

end Redactor

def noCustom : RegexpPackage where
  compile _ := .error "missing argument to repetition operator"
  isWord := isWordChar

def loginMarks : List (Mark String Char) :=
  [.owned "api_key" "sk-a1".toList "sk-***".toList, .kept ' ', .owned "ipv4" "10.0.0.7".toList "192.*.*.*".toList]

/-- A key and an address: whichever of them are replaced, each pattern finds its own match and no other. -/
theorem independent_loginMarks : Independent ((newRedactor noCustom []).patterns.map (Redactor.entry isWordChar))
    "sk-a1 10.0.0.7".toList loginMarks where
  start := by decide
  pass e he applied hfresh := by
    have hboth : ∀ key address : Bool, ∀ e ∈ (newRedactor noCustom []).patterns.map (Redactor.entry isWordChar),
        (e.1 = "api_key" → key = false) → (e.1 = "ipv4" → address = false) →
          e.2 (textOf (fun i => if i = "api_key" then key else address) loginMarks) =
            passOver e.1 (fun i => if i = "api_key" then key else address) loginMarks := by
      decide +kernel
    exact hboth (applied "api_key") (applied "ipv4") e he (fun h => h ▸ hfresh) (fun h => h ▸ hfresh)
  owners owner source put h := by
    simp only [loginMarks, List.mem_cons, Mark.owned.injEq, reduceCtorEq, List.not_mem_nil, or_false, false_or] at h
    obtain ⟨rfl, -⟩ | ⟨rfl, -⟩ := h <;> decide

end Jupiter.Telemetry
