/-
`buildValue` on texts: which of them become variable references.

A reference is a single template with the prefix `variables.` and an identifier, with any number of spaces inside the
braces. The builder looks at the first and last two characters only, so it takes every text in double braces for one.
-/
import Jupiter.Mpl.Validator

namespace Jupiter.Mpl

open Jupiter.Go

/-- `ValueNode.String`; on a node that holds neither a text nor a reference the type assertion panics. -/
def ValueNode.toString : ValueNode → Option String
  | .variable text => some ("\x7b\x7b variables." ++ extractVariableName text ++ " \x7d\x7d")
  | .null => some "null"
  | .string s => some s
  | _ => none

/-! ## References -/

/-- The template for a variable, with spaces before and after the reference. -/
def template (i : Nat) (name : String) (j : Nat) : List Char :=
  "\x7b\x7b".toList ++ (List.replicate i ' ' ++ ("variables.".toList ++ name.toList) ++ List.replicate j ' ') ++
    "\x7d\x7d".toList

def IsReference (s name : String) : Prop :=
  isValidIdentifier name = true ∧ ∃ i j, s.toList = template i name j

/-- The text is built as it should be: a reference becomes a variable node with its name, any other text a literal,
and what a variable node prints is built to the same node again. -/
structure BuiltExactly (same : ValueNode → ValueNode → Prop) (s : String) : Prop where
  reference : ∀ name, IsReference s name →
    buildValue (.string s) = some (.variable s) ∧ (ValueNode.variable s).variableName = name
  literal : (¬ ∃ name, IsReference s name) → buildValue (.string s) = some (.string s)
  rebuilt : ∀ n text, buildValue (.string s) = some n → n.type = .variable → n.toString = some text →
    ∃ n', buildValue (.string text) = some n' ∧ same n n'

/-- The same variable, whatever the text that refers to it. -/
def SameVariable (n n' : ValueNode) : Prop := n.type = n'.type ∧ n.variableName = n'.variableName

/-! ## Texts in braces -/

theorem isVariableReference_iff (s : String) :
    isVariableReference s = true ↔
      ∃ inner, inner ≠ [] ∧ s.toList = "\x7b\x7b".toList ++ inner ++ "\x7d\x7d".toList := by
  unfold isVariableReference Strings.startsWith Strings.endsWith
  rw [Bool.and_eq_true, Bool.and_eq_true, decide_eq_true_iff, List.isPrefixOf_iff_prefix, List.isSuffixOf_iff_suffix]
  constructor
  · rintro ⟨⟨hlen, rest, hrest⟩, hsuffix⟩
    -- what is left after the opening braces is long enough to end in the closing ones
    have hsuffix' : "\x7d\x7d".toList <:+ rest := by
      refine List.suffix_of_suffix_length_le hsuffix ⟨_, hrest⟩ ?_
      rw [← hrest, List.length_append] at hlen
      have h2 : "\x7b\x7b".toList.length = 2 := rfl
      have h2' : "\x7d\x7d".toList.length = 2 := rfl
      omega
    obtain ⟨inner, rfl⟩ := hsuffix'
    refine ⟨inner, ?_, by rw [← hrest, List.append_assoc]⟩
    rintro rfl
    rw [← hrest] at hlen
    exact absurd hlen (by decide)
  · rintro ⟨inner, hne, hs⟩
    have hpos := List.length_pos_of_ne_nil hne
    refine ⟨⟨?_, inner ++ "\x7d\x7d".toList, by rw [hs, List.append_assoc]⟩, "\x7b\x7b".toList ++ inner, hs.symm⟩
    rw [hs, List.length_append, List.length_append]
    have h2 : "\x7b\x7b".toList.length = 2 := rfl
    have h2' : "\x7d\x7d".toList.length = 2 := rfl
    omega

theorem extractVariableName_braces {s : String} {inner : List Char}
    (hs : s.toList = "\x7b\x7b".toList ++ inner ++ "\x7d\x7d".toList) :
    extractVariableName s =
      if 10 < (trimSpaces inner).length ∧ "variables.".toList.isPrefixOf (trimSpaces inner) then
        String.ofList ((trimSpaces inner).drop 10)
      else String.ofList (trimSpaces inner) := by
  have hcut : (s.toList.drop 2).take (s.toList.length - 4) = inner := by
    rw [hs, List.append_assoc]
    have hdrop : ("\x7b\x7b".toList ++ (inner ++ "\x7d\x7d".toList)).drop 2 = inner ++ "\x7d\x7d".toList := rfl
    have hlen : ("\x7b\x7b".toList ++ (inner ++ "\x7d\x7d".toList)).length - 4 = inner.length := by
      rw [List.length_append, List.length_append]
      show 2 + (inner.length + 2) - 4 = inner.length
      omega
    rw [hdrop, hlen, List.take_left]
  simp only [extractVariableName, hcut]

/-! ## The name of a reference -/

theorem dropWhile_replicate_append (k : Nat) {cs : List Char} (h : ∀ c ∈ cs.head?, c ≠ ' ') :
    (List.replicate k ' ' ++ cs).dropWhile (· = ' ') = cs := by
  induction k with
  | zero =>
    cases cs with
    | nil => rfl
    | cons c cs => simp [h c rfl]
  | succ k ih => simpa [List.replicate_succ] using ih

theorem trimSpaces_of_ends (i j : Nat) {cs : List Char} (hne : cs ≠ []) (hfirst : ∀ c ∈ cs.head?, c ≠ ' ')
    (hlast : ∀ c ∈ cs.getLast?, c ≠ ' ') :
    trimSpaces (List.replicate i ' ' ++ cs ++ List.replicate j ' ') = cs := by
  unfold trimSpaces
  have hhead : ∀ c ∈ (cs ++ List.replicate j ' ').head?, c ≠ ' ' := by
    obtain ⟨c, cs, rfl⟩ := List.exists_cons_of_ne_nil hne
    exact hfirst
  rw [List.append_assoc, dropWhile_replicate_append i hhead, List.reverse_append, List.reverse_replicate,
    dropWhile_replicate_append j (by rwa [List.head?_reverse]), List.reverse_reverse]

theorem ne_space_of_isValidIdentifier {name : String} (h : isValidIdentifier name = true) :
    name.toList ≠ [] ∧ ∀ c ∈ name.toList, c ≠ ' ' := by
  unfold isValidIdentifier at h
  cases hcs : name.toList with
  | nil => simp [hcs] at h
  | cons c cs =>
    rw [hcs] at h
    simp only [Bool.and_eq_true, List.all_eq_true] at h
    refine ⟨List.cons_ne_nil _ _, ?_⟩
    rintro d hd rfl
    rcases List.mem_cons.1 hd with rfl | hd
    · exact absurd h.1 (by decide)
    · exact absurd (h.2 _ hd) (by decide)

theorem extractVariableName_template {s name : String} {i j : Nat} (hname : isValidIdentifier name = true)
    (hs : s.toList = template i name j) : isVariableReference s = true ∧ extractVariableName s = name := by
  obtain ⟨hne, hspace⟩ := ne_space_of_isValidIdentifier hname
  have htrim : trimSpaces (List.replicate i ' ' ++ ("variables.".toList ++ name.toList) ++ List.replicate j ' ') =
      "variables.".toList ++ name.toList := by
    refine trimSpaces_of_ends i j (by simp) ?_ ?_
    · intro c hc
      have hv : ("variables.".toList ++ name.toList).head? = some 'v' := rfl
      rw [hv] at hc
      cases hc
      decide
    · intro c hc
      rw [List.getLast?_append_of_ne_nil _ hne] at hc
      exact hspace c (List.mem_of_getLast? hc)
  refine ⟨(isVariableReference_iff s).2 ⟨_, by simp, hs⟩, ?_⟩
  rw [extractVariableName_braces hs, htrim, if_pos]
  · show String.ofList name.toList = name
    exact String.ofList_toList
  · refine ⟨?_, List.isPrefixOf_iff_prefix.2 (List.prefix_append _ _)⟩
    have hpos := List.length_pos_of_ne_nil hne
    rw [List.length_append]
    show 10 < 10 + name.toList.length
    omega

/-! ## What is built -/

theorem buildValue_string (s : String) :
    buildValue (.string s) = some (if isVariableReference s then .variable s else .string s) := rfl

theorem toList_printed (name : String) :
    ("\x7b\x7b variables." ++ name ++ " \x7d\x7d").toList = template 1 name 1 := by
  unfold template
  rw [String.toList_append, String.toList_append]
  simp

/-- A text that is no reference is built as it should be exactly when it is not taken for one; a reference exactly
when building what it prints gives it back. -/
theorem builtExactly_iff (same : ValueNode → ValueNode → Prop) (s : String) :
    BuiltExactly same s ↔
      (isVariableReference s = true → ∃ name, IsReference s name ∧
        same (.variable s) (.variable ("\x7b\x7b variables." ++ name ++ " \x7d\x7d"))) := by
  constructor
  · rintro ⟨-, hliteral, hrebuilt⟩ hs
    have href : ∃ name, IsReference s name := by
      by_contra hno
      have h := hliteral hno
      rw [buildValue_string, if_pos hs] at h
      cases h
    obtain ⟨name, hname, i, j, htext⟩ := href
    obtain ⟨-, hextract⟩ := extractVariableName_template hname htext
    refine ⟨name, ⟨hname, i, j, htext⟩, ?_⟩
    have hbuilt : buildValue (.string s) = some (.variable s) := by rw [buildValue_string, if_pos hs]
    obtain ⟨n', hn', hsame⟩ := hrebuilt _ _ hbuilt rfl rfl
    rw [hextract, buildValue_string, if_pos (extractVariableName_template hname (toList_printed name)).1] at hn'
    cases hn'
    exact hsame
  · intro h
    refine ⟨?_, ?_, ?_⟩
    · rintro name ⟨hname, i, j, htext⟩
      obtain ⟨hs, hextract⟩ := extractVariableName_template hname htext
      exact ⟨by rw [buildValue_string, if_pos hs], hextract⟩
    · intro hno
      rw [buildValue_string, if_neg]
      intro hs
      obtain ⟨name, href, -⟩ := h hs
      exact hno ⟨name, href⟩
    · intro n text hn htype htext
      rw [buildValue_string] at hn
      split at hn
      · next hs =>
        cases hn
        cases htext
        obtain ⟨name, ⟨hname, i, j, hs'⟩, hsame⟩ := h hs
        obtain ⟨-, hextract⟩ := extractVariableName_template hname hs'
        refine ⟨_, ?_, hsame⟩
        rw [hextract, buildValue_string, if_pos (extractVariableName_template hname (toList_printed name)).1]
      · cases hn
        cases htype

/-- A text is built as it should be exactly when it is not in double braces or is spelled as a reference is printed. If
only the variable has to come back, any spaces inside the braces will do. -/
theorem buildValue_references_iff (s : String) :
    (BuiltExactly (· = ·) s ↔ (isVariableReference s = true →
      ∃ name, isValidIdentifier name = true ∧ s = "\x7b\x7b variables." ++ name ++ " \x7d\x7d")) ∧
    (BuiltExactly SameVariable s ↔ (isVariableReference s = true → ∃ name, IsReference s name)) := by
  constructor
  · rw [builtExactly_iff]
    refine imp_congr_right fun _ => exists_congr fun name => ?_
    constructor
    · rintro ⟨⟨hname, -⟩, hsame⟩
      exact ⟨hname, by injection hsame⟩
    · rintro ⟨hname, rfl⟩
      exact ⟨⟨hname, 1, 1, toList_printed name⟩, rfl⟩
  · rw [builtExactly_iff]
    refine imp_congr_right fun _ => exists_congr fun name => ?_
    constructor
    · exact And.left
    · rintro ⟨hname, i, j, htext⟩
      have hprinted := (extractVariableName_template hname (toList_printed name)).2
      exact ⟨⟨hname, i, j, htext⟩, rfl, (extractVariableName_template hname htext).2.trans hprinted.symm⟩

/-- A text that starts and ends with different templates is taken for one reference. -/
theorem two_templates_built_as_variable :
    ∃ s : String, s = "\x7b\x7b variables.a \x7d\x7d or \x7b\x7b variables.b \x7d\x7d" ∧
      buildValue (.string s) = some (.variable s) ∧
      (ValueNode.variable s).variableName = "a \x7d\x7d or \x7b\x7b variables.b" ∧
      (¬ ∃ name, IsReference s name) ∧ ¬ BuiltExactly (· = ·) s ∧ ¬ BuiltExactly SameVariable s := by
  refine ⟨_, rfl, ?_⟩
  have hbraces : isVariableReference "\x7b\x7b variables.a \x7d\x7d or \x7b\x7b variables.b \x7d\x7d" = true := by
    decide
  have hno : ¬ ∃ name, IsReference "\x7b\x7b variables.a \x7d\x7d or \x7b\x7b variables.b \x7d\x7d" name := by
    rintro ⟨name, hname, i, j, htext⟩
    have hextract := (extractVariableName_template hname htext).2
    rw [← hextract] at hname
    exact absurd hname (by decide)
  have hnot : ∀ same, ¬ BuiltExactly same "\x7b\x7b variables.a \x7d\x7d or \x7b\x7b variables.b \x7d\x7d" := by
    intro same h
    obtain ⟨name, href, -⟩ := (builtExactly_iff same _).1 h hbraces
    exact hno ⟨name, href⟩
  exact ⟨by rw [buildValue_string, if_pos hbraces], by decide, hno, hnot _, hnot _⟩

end Jupiter.Mpl
