/-
The texts `json.Marshal` gives for strings, integers, slices and objects with fixed fields.
-/
import Mathlib.Data.Int.Notation

namespace Jupiter.Go.Json

def hexDigit (n : Nat) : Char := if n < 10 then Char.ofNat (48 + n) else Char.ofNat (87 + n)

/-- A code point as `\uXXXX`. -/
def unicodeEscape (n : Nat) : List Char :=
  ['\\', 'u', hexDigit (n / 4096 % 16), hexDigit (n / 256 % 16), hexDigit (n / 16 % 16), hexDigit (n % 16)]

/-- A character inside a string: quotes, control characters, the characters that are special in HTML and the
two Unicode line separators are escaped. -/
def escape (c : Char) : List Char :=
  if c = '"' ∨ c = '\\' then ['\\', c]
  else if c.toNat = 8 then ['\\', 'b']
  else if c.toNat = 12 then ['\\', 'f']
  else if c = '\n' then ['\\', 'n']
  else if c = '\r' then ['\\', 'r']
  else if c = '\t' then ['\\', 't']
  else if c.toNat < 32 ∨ c = '<' ∨ c = '>' ∨ c = '&' ∨ c.toNat = 8232 ∨ c.toNat = 8233 then unicodeEscape c.toNat
  else [c]

def string (s : String) : String := "\"" ++ String.ofList (s.toList.flatMap escape) ++ "\""

def int (n : Int) : String := toString n

/-- A struct: its fields by their JSON names, in order. -/
def object (fields : List (String × String)) : String :=
  "\x7b" ++ ",".intercalate (fields.map fun f => string f.1 ++ ":" ++ f.2) ++ "\x7d"

/-- A slice, `none` being the nil slice. -/
def slice {α : Type} (marshal : α → String) : Option (List α) → String
  | none => "null"
  | some l => "[" ++ ",".intercalate (l.map marshal) ++ "]"

end Jupiter.Go.Json
