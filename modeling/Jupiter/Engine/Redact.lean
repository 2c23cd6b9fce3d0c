/-
`redact.go`: the redactions that `executeRedact` collects, applied to a content one after the other.

Each redaction with a pattern is one pass over what the earlier ones left. A pass replaces every match it reads, but not
what then stands in the result: what is left may join up to a new match, as `aabb` does once its `ab` is removed, and a
later redaction may write one.
-/
import Jupiter.Engine.Types
import Jupiter.Go.Regexp
import Jupiter.Lib.Regex
import Mathlib.Data.List.Forall2

namespace Jupiter.Engine

open Jupiter.Go Jupiter.Lib.Rewrite

/-- The package `regexp`, and the quoting of `%q`. -/
structure RedactLibrary extends RegexpPackage where
  quote : String → String

section Apply

variable (lib : RedactLibrary)

/-- The part the three strategies share: every match becomes the replacement. The content comes back with an error. -/
def applyPattern (content pattern replacement : String) : String × Option String :=
  match lib.compile pattern with
  | .error err => (content, some ("invalid regex pattern: " ++ err))
  | .ok re => (re.replaceAllString lib.isWord content replacement, none)

def applyMaskRedaction (content : String) (redaction : Redaction) : String × Option String :=
  if redaction.pattern = "" then (String.ofList (List.replicate content.utf8ByteSize '*'), none)
  else
    applyPattern lib content redaction.pattern
      (if redaction.replacement = "" then "***" else redaction.replacement)

def applyRemoveRedaction (content : String) (redaction : Redaction) : String × Option String :=
  if redaction.pattern = "" then ("", none) else applyPattern lib content redaction.pattern ""

def applyReplaceRedaction (content : String) (redaction : Redaction) : String × Option String :=
  if redaction.pattern = "" then (redaction.replacement, none)
  else
    applyPattern lib content redaction.pattern
      (if redaction.replacement = "" then "[REDACTED]" else redaction.replacement)

def applyRedaction (content : String) (redaction : Redaction) : String × Option String :=
  if redaction.strategy = "mask" then applyMaskRedaction lib content redaction
  else if redaction.strategy = "remove" then applyRemoveRedaction lib content redaction
  else if redaction.strategy = "replace" then applyReplaceRedaction lib content redaction
  else (content, some ("unknown redaction strategy: " ++ lib.quote redaction.strategy))

def applyRedactionsFrom (content : String) : Nat → String → List Redaction → String × Option String
  | _, result, [] => (result, none)
  | i, result, redaction :: redactions =>
    match applyRedaction lib result redaction with
    | (_, some err) => (content, some ("failed to apply redaction " ++ i.repr ++ ": " ++ err))
    | (result, none) => applyRedactionsFrom content (i + 1) result redactions

def applyRedactions (content : String) (redactions : List Redaction) : String × Option String :=
  applyRedactionsFrom lib content 0 content redactions

end Apply

/-! ## Passes -/

/-- What a redaction puts in the place of a match, or of the whole content if it has no pattern. -/
def Redaction.insertion (redaction : Redaction) (content : List Char) : String :=
  if redaction.strategy = "mask" then
    if redaction.pattern = "" then String.ofList (List.replicate (String.ofList content).utf8ByteSize '*')
    else if redaction.replacement = "" then "***" else redaction.replacement
  else if redaction.strategy = "remove" then ""
  else if redaction.pattern = "" then redaction.replacement
  else if redaction.replacement = "" then "[REDACTED]" else redaction.replacement

/-- The pass of a redaction. With a pattern, the leftmost matches that do not overlap are replaced. -/
structure IsPass (lib : RedactLibrary) (redaction : Redaction) (tokens : List (Token Char)) : Prop where
  whole : redaction.pattern = "" →
    tokens = [.put (Token.sources tokens) (redaction.insertion (Token.sources tokens)).toList]
  leftmost : ∀ re, redaction.pattern ≠ "" → lib.compile redaction.pattern = .ok re →
    tokens = re.tokens lib.isWord (Token.sources tokens) (redaction.insertion (Token.sources tokens))
  literal : '$' ∉ (redaction.insertion (Token.sources tokens)).toList →
    ∀ source text, .put source text ∈ tokens → text = (redaction.insertion (Token.sources tokens)).toList

theorem applyPattern_ok {lib : RedactLibrary} {content pattern replacement result : String}
    (h : applyPattern lib content pattern replacement = (result, none)) :
    ∃ re, lib.compile pattern = .ok re ∧ re.replaceAllString lib.isWord content replacement = result := by
  rw [applyPattern] at h
  cases hc : lib.compile pattern with
  | error err => simp [hc] at h
  | ok re => exact ⟨re, rfl, by simpa [hc] using h⟩

theorem applyRedaction_eq {lib : RedactLibrary} {redaction : Redaction}
    (hs : redaction.strategy = "mask" ∨ redaction.strategy = "remove" ∨ redaction.strategy = "replace")
    (content : String) :
    applyRedaction lib content redaction =
      if redaction.pattern = "" then (redaction.insertion content.toList, none)
      else applyPattern lib content redaction.pattern (redaction.insertion content.toList) := by
  rcases hs with hs | hs | hs
  all_goals by_cases hp : redaction.pattern = ""
  all_goals
    simp [applyRedaction, applyMaskRedaction, applyRemoveRedaction, applyReplaceRedaction, Redaction.insertion, hs, hp]

theorem strategy_of_ok {lib : RedactLibrary} {content result : String} {redaction : Redaction}
    (h : applyRedaction lib content redaction = (result, none)) :
    redaction.strategy = "mask" ∨ redaction.strategy = "remove" ∨ redaction.strategy = "replace" := by
  by_contra hs
  obtain ⟨hmask, hremove, hreplace⟩ :
      redaction.strategy ≠ "mask" ∧ redaction.strategy ≠ "remove" ∧ redaction.strategy ≠ "replace" := by
    simpa using hs
  simp [applyRedaction, hmask, hremove, hreplace] at h

theorem exists_isPass {lib : RedactLibrary} {content result : String} {redaction : Redaction}
    (h : applyRedaction lib content redaction = (result, none)) :
    ∃ tokens, IsPass lib redaction tokens ∧ Token.sources tokens = content.toList ∧
      Token.texts tokens = result.toList := by
  rw [applyRedaction_eq (strategy_of_ok h)] at h
  by_cases hp : redaction.pattern = ""
  · obtain rfl : redaction.insertion content.toList = result := by simpa [hp] using h
    refine ⟨[.put content.toList (redaction.insertion content.toList).toList], ⟨fun _ => ?_, ?_, ?_⟩, ?_, ?_⟩
    · simp [Token.source]
    · exact fun _ hne => absurd hp hne
    · intro _ source text hmem
      obtain ⟨rfl, rfl⟩ : source = content.toList ∧ text = (redaction.insertion content.toList).toList := by
        simpa using hmem
      simp [Token.source]
    · simp [Token.source]
    · simp [Token.text]
  · obtain ⟨re, hre, rfl⟩ := applyPattern_ok (by simpa only [if_neg hp] using h)
    have hsources := re.sources_tokens lib.isWord content.toList (redaction.insertion content.toList)
    refine ⟨_, ⟨fun hnil => absurd hnil hp, ?_, ?_⟩, hsources, ?_⟩
    · intro re' _ hre'
      obtain rfl : re = re' := Except.ok.inj (hre.symm.trans hre')
      rw [hsources]
    · intro hliteral source text hmem
      rw [hsources] at hliteral ⊢
      exact Regexp.text_of_put hliteral hmem
    · rw [Regexp.replaceAllString, String.toList_ofList]

theorem applyRedactionsFrom_passes {lib : RedactLibrary} {content text result : String} {i : Nat}
    {redactions : List Redaction} (h : applyRedactionsFrom lib content i text redactions = (result, none)) :
    ∃ passes, Passes text.toList passes result.toList ∧ List.Forall₂ (IsPass lib) redactions passes := by
  induction redactions generalizing i text with
  | nil =>
    obtain rfl : text = result := by simpa [applyRedactionsFrom] using h
    exact ⟨[], .nil _, .nil⟩
  | cons redaction redactions ih =>
    rw [applyRedactionsFrom] at h
    rcases ha : applyRedaction lib text redaction with ⟨text', _ | err⟩
    · simp only [ha] at h
      obtain ⟨tokens, hpass, hsources, htexts⟩ := exists_isPass ha
      obtain ⟨passes, hpasses, hall⟩ := ih h
      exact ⟨tokens :: passes, hsources ▸ .cons (htexts ▸ hpasses), .cons hpass hall⟩
    · simp [ha] at h

theorem exists_drop_eq {lib : RedactLibrary} {redactions : List Redaction} {passes : List (List (Token Char))}
    (h : List.Forall₂ (IsPass lib) redactions passes) {i : Nat} {redaction : Redaction}
    (hi : redactions[i]? = some redaction) :
    ∃ tokens rest, passes.drop i = tokens :: rest ∧ IsPass lib redaction tokens := by
  induction h generalizing i with
  | nil => simp at hi
  | cons hpass _ ih =>
    cases i with
    | zero =>
      obtain rfl := Option.some.inj hi
      exact ⟨_, _, rfl, hpass⟩
    | succ i => exact ih (by simpa using hi)

/-- Redactions that succeed are passes, one each. In the result, a match of a redaction's pattern takes in or touches a
place where that pass or a later one put something; and takes it in, if the pattern has no conditions on what stands
beside a match. -/
theorem applyRedactions_effective {lib : RedactLibrary} {content result : String} {redactions : List Redaction}
    (h : applyRedactions lib content redactions = (result, none)) :
    ∃ passes, Passes content.toList passes result.toList ∧ List.Forall₂ (IsPass lib) redactions passes ∧
      ∀ (i : Nat) (redaction : Redaction) (re : Regexp), redactions[i]? = some redaction →
        redaction.pattern ≠ "" → lib.compile redaction.pattern = .ok re →
          ¬ KeptMatch re.matcher (passes.drop i) result.toList true ∧
            (re.matcher.Free → ¬ KeptMatch re.matcher (passes.drop i) result.toList false) := by
  obtain ⟨passes, hpasses, hall⟩ := applyRedactionsFrom_passes h
  refine ⟨passes, hpasses, hall, fun i redaction re hi hne hre => ?_⟩
  obtain ⟨tokens, rest, hdrop, hpass⟩ := exists_drop_eq hall hi
  rw [hdrop, hpass.leftmost re hne hre]
  exact ⟨not_keptMatch_inner, fun hfree => hfree.not_keptMatch⟩

def plainTexts : RedactLibrary where
  compile pattern := .ok { matcher := (Jupiter.Lib.Regex.literal pattern.toList).matcher Char.isAlphanum }
  isWord c := c.isAlphanum || c = '_'
  quote s := "\"" ++ s ++ "\""

def removeAB : Redaction :=
  { field := "prompt", strategy := "remove", pattern := "ab", replacement := "***", matchCount := 0 }

theorem applyRedactions_effective_removeAB :
    applyRedactions plainTexts "aabb" [removeAB] = ("ab", none) ∧
      ∃ passes, Passes "aabb".toList passes "ab".toList ∧ List.Forall₂ (IsPass plainTexts) [removeAB] passes := by
  have h : applyRedactions plainTexts "aabb" [removeAB] = ("ab", none) := by decide +kernel
  obtain ⟨passes, hpasses, hall, -⟩ := applyRedactions_effective h
  exact ⟨h, passes, hpasses, hall⟩

/-- Nothing is inserted, and the pattern, which does not match the empty string, matches the result. -/
theorem removed_match_joins :
    applyRedactions plainTexts "aabb" [removeAB] = ("ab", none) ∧ removeAB.insertion "aabb".toList = "" ∧
      ∃ re, plainTexts.compile removeAB.pattern = .ok re ∧ re.matcher.find [] [] = none ∧
        ∃ found, re.matcher.find [] "ab".toList = some found ∧ found.length = 2 := by
  refine ⟨by decide +kernel, by decide +kernel, _, rfl, rfl, ⟨2, []⟩, rfl, rfl⟩

end Jupiter.Engine
