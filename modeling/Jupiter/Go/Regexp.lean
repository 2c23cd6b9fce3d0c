/-
What the repository uses of the package `regexp`: `Compile`, and `ReplaceAllString` with the templates of `Expand`.

Compiling is taken as given. A compiled expression looks at the matched stretch and the runes on either side of it.

A replacement is a template: `$1` or `$name` stands for the text of a group, for nothing if there is no such group, and
takes all letters, digits and underscores that follow.
-/
import Jupiter.Go.Value
import Jupiter.Lib.Rewrite

namespace Jupiter.Go

open Jupiter.Lib.Rewrite

/-- A compiled expression; the names of its groups start with that of group 0, which is empty. -/
structure Regexp where
  matcher : Matcher Char
  subexpNames : List String := []

/-- `isWord` are the letters and digits of `unicode` and the underscore. -/
structure RegexpPackage where
  compile : String → Except String Regexp
  isWord : Char → Bool

namespace Regexp

def submatch (source : List Char) (found : Found Char) : Nat → Option (List Char)
  | 0 => some source
  | n + 1 => found.groups.lookup (n + 1)

section Expand

variable (isWord : Char → Bool)

/-- The name after a `$`, in braces or without, and the length of both. -/
def extract (str : List Char) : Option (List Char × Nat) :=
  let brace : Bool := str.head? = some '\x7b'
  let str := if brace then str.tail else str
  let name := str.takeWhile isWord
  if name = [] then none
  else if brace then
    if str[name.length]? = some '\x7d' then some (name, name.length + 2) else none
  else some (name, name.length)

/-- The number that a name is. -/
def groupNumber (name : List Char) : Option Nat :=
  -- no leading zeros
  if name.head? = some '0' ∧ 1 < name.length then none
  else
    name.foldl (fun num c => num.bind fun num =>
      if c.isDigit ∧ num < 100000000 then some (num * 10 + (c.toNat - '0'.toNat)) else none) (some 0)

variable (re : Regexp) (source : List Char) (found : Found Char)

def expandName (name : List Char) : List Char :=
  match groupNumber name with
  | some num => (submatch source found num).getD []
  | none =>
    (re.subexpNames.zipIdx.findSome? fun (namei, i) =>
      if String.ofList name = namei then submatch source found i else none).getD []

/-- `Expand` from a place of the template on, of which `skip` characters have been used up. -/
def expandFrom : Nat → List Char → List Char
  | _, [] => []
  | skip + 1, _ :: template => expandFrom skip template
  | 0, c :: template =>
    if c ≠ '$' then c :: expandFrom 0 template
    else if template.head? = some '$' then '$' :: expandFrom 1 template
    else
      match extract isWord template with
      -- malformed: the `$` is raw text
      | none => '$' :: expandFrom 0 template
      | some (name, width) => re.expandName source found name ++ expandFrom width template

def expand (template : String) : List Char := re.expandFrom isWord source found 0 template.toList

theorem expandFrom_literal {template : List Char} (h : '$' ∉ template) :
    re.expandFrom isWord source found 0 template = template := by
  induction template with
  | nil => rfl
  | cons c template ih =>
    have hc : c ≠ '$' := fun hc => h (hc ▸ List.mem_cons_self)
    rw [expandFrom, if_pos hc, ih fun ht => h (List.mem_cons_of_mem _ ht)]

end Expand

/-- The pass of `ReplaceAllString`. -/
def tokens (isWord : Char → Bool) (re : Regexp) (src : List Char) (repl : String) : List (Token Char) :=
  re.matcher.tokens (fun source found => re.expand isWord source found repl) src

def replaceAllString (isWord : Char → Bool) (re : Regexp) (src repl : String) : String :=
  String.ofList (Token.texts (re.tokens isWord src.toList repl))

@[simp] theorem sources_tokens (isWord : Char → Bool) (re : Regexp) (src : List Char) (repl : String) :
    Token.sources (re.tokens isWord src repl) = src := re.matcher.sources_tokens _ _

theorem text_of_put {isWord : Char → Bool} {re : Regexp} {src source text : List Char} {repl : String}
    (hrepl : '$' ∉ repl.toList) (h : .put source text ∈ re.tokens isWord src repl) : text = repl.toList := by
  obtain ⟨found, rfl⟩ := re.matcher.mem_tokensFrom_put _ h
  exact re.expandFrom_literal isWord source found hrepl

end Regexp

end Jupiter.Go
