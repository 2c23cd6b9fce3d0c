/-
`path/filepath` on absolute paths, as far as the policy manager uses it.

An absolute path that `Clean` leaves as it is, is the list of its components; a path as the user writes it is a string.
Relative strings are taken from a directory. What links do is not lexical and belongs to the file
system.
-/
import Jupiter.Go.Value

namespace Jupiter.Manager

open Jupiter.Go

/-- An absolute clean path: its components from the root. -/
abbrev Path := List String

namespace Path

def segments (s : String) : List String := (Strings.splitChars '/' s.toList).map String.ofList

def isAbs (s : String) : Bool := Strings.startsWith s "/"

/-- `filepath.Clean` of segments that follow an absolute path: a dot stays, two dots go up, but not above the root. -/
def clean : Path → List String → Path
  | here, [] => here
  | here, seg :: segs =>
    if seg = "" ∨ seg = "." then clean here segs
    else if seg = ".." then clean here.dropLast segs
    else clean (here ++ [seg]) segs

theorem clean_named {here : Path} (h : ∀ name ∈ here, name ∉ ["", ".", ".."]) (segs : List String) :
    ∀ name ∈ clean here segs, name ∉ ["", ".", ".."] := by
  induction segs generalizing here with
  | nil => exact h
  | cons seg segs ih =>
    rw [clean]
    split
    · exact ih h
    · split
      · exact ih fun name hn => h name (List.mem_of_mem_dropLast hn)
      · refine ih fun name hn => ?_
        rcases List.mem_append.1 hn with hn | hn
        · exact h name hn
        · simp_all

/-- `filepath.Abs` of a string in a directory, and `filepath.Join` with it unless the string is absolute. -/
def absolute (dir : Path) (s : String) : Path := clean (if isAbs s then [] else dir) (segments s)

/-- `filepath.Abs(filepath.Dir(s))`: what follows the last slash is dropped. -/
def absoluteDir (dir : Path) (s : String) : Path := clean (if isAbs s then [] else dir) (segments s).dropLast

def dir (p : Path) : Path := p.dropLast

/-- `filepath.Ext`: the last component from its last dot on. -/
def ext (p : Path) : String :=
  match p.getLast? with
  | none => ""
  | some name =>
    if '.' ∈ name.toList then String.ofList ('.' :: (name.toList.reverse.takeWhile (· ≠ '.')).reverse) else ""

/-- The components of `filepath.Rel(base, target)`. -/
def relComponents : Path → Path → List String
  | [], target => target
  | base, [] => List.replicate base.length ".."
  | b :: base, t :: target =>
    if b = t then relComponents base target else List.replicate (base.length + 1) ".." ++ t :: target

def rel (base target : Path) : String :=
  match relComponents base target with
  | [] => "."
  | components => "/".intercalate components

/-! ## When a relative path starts with two dots -/

def DotsBelow (base p : Path) : Prop := ∃ c rest, p = base ++ c :: rest ∧ Strings.startsWith c ".." = true

theorem startsWith_intercalate (c : String) (cs : List String) :
    Strings.startsWith ("/".intercalate (c :: cs)) ".." = Strings.startsWith c ".." := by
  have hdots : "..".toList = ['.', '.'] := rfl
  have hslash : "/".toList = ['/'] := rfl
  unfold Strings.startsWith
  rw [String.toList_intercalate, hdots, hslash, List.map_cons]
  cases cs with
  | nil => simp [List.intercalate]
  | cons d ds =>
    rw [List.map_cons, List.intercalate_cons_cons]
    rcases c.toList with _ | ⟨a, _ | ⟨b, l⟩⟩ <;> simp [List.isPrefixOf]

theorem relComponents_of_prefix {base p : Path} (h : base <+: p) : base ++ relComponents base p = p := by
  induction base generalizing p with
  | nil => simp [relComponents]
  | cons b base ih =>
    obtain ⟨rest, rfl⟩ := h
    have := ih (List.prefix_append base rest)
    simpa [relComponents] using this

theorem relComponents_of_not_prefix {base p : Path} (h : ¬ base <+: p) : ∃ cs, relComponents base p = ".." :: cs := by
  induction base generalizing p with
  | nil => exact absurd List.nil_prefix h
  | cons b base ih =>
    cases p with
    | nil => exact ⟨_, rfl⟩
    | cons t target =>
      by_cases hbt : b = t
      · subst hbt
        rw [relComponents, if_pos rfl]
        exact ih fun hp => h (List.cons_prefix_cons.2 ⟨rfl, hp⟩)
      · rw [relComponents, if_neg hbt, List.replicate_succ]
        exact ⟨_, rfl⟩

theorem startsWith_rel_iff (base p : Path) :
    Strings.startsWith (rel base p) ".." = true ↔ ¬ base <+: p ∨ DotsBelow base p := by
  unfold rel DotsBelow
  by_cases hp : base <+: p
  · have heq := relComponents_of_prefix hp
    generalize relComponents base p = components at heq
    subst heq
    cases components with
    | nil => simp [Strings.startsWith]
    | cons c cs =>
      simp only [startsWith_intercalate, hp, not_true_eq_false, false_or]
      constructor
      · exact fun h => ⟨c, cs, rfl, h⟩
      · rintro ⟨c', rest, heq, h⟩
        obtain ⟨rfl, rfl⟩ := List.cons.inj (List.append_cancel_left heq)
        exact h
  · obtain ⟨cs, hcs⟩ := relComponents_of_not_prefix hp
    simp only [hcs, startsWith_intercalate, hp, not_false_eq_true, true_or, iff_true]
    rfl

end Path

end Jupiter.Manager
