/-
Go's dynamic values, as far as the policy packages look into them: what an `interface{}` can hold and how `reflect`
takes it apart.

A number keeps its dynamic type, because `reflect.DeepEqual` and a type switch tell `int` from `float64`. Floating-point
numbers are rationals. What only prints a value (`fmt.Sprint`), compiles a regular expression or reads the time zone
database is a parameter (`Runtime`).
-/
import Jupiter.Go.Time
import Mathlib.Data.List.Infix
import Mathlib.Data.Rat.Defs

namespace Jupiter.Go

/-- The integer types besides `int`, `int64` and `uint64`. -/
inductive IntegerKind where
  | int8 | int16 | int32 | uint | uint8 | uint16 | uint32
  deriving DecidableEq

def IntegerKind.name : IntegerKind → String
  | .int8 => "int8"
  | .int16 => "int16"
  | .int32 => "int32"
  | .uint => "uint"
  | .uint8 => "uint8"
  | .uint16 => "uint16"
  | .uint32 => "uint32"

/-- A value of an interface type. `slice`, `map`, `struct` and `ptr` name the element or struct type. -/
inductive Value where
  | nil
  | bool (b : Bool)
  | int (n : Int)
  | int64 (n : Int)
  | uint64 (n : Nat)
  | integer (kind : IntegerKind) (n : Int)
  | duration (d : Duration)
  | time (t : Time)
  | float32 (q : ℚ)
  | float64 (q : ℚ)
  | string (s : String)
  | slice (elem : String) (items : List Value)
  | map (elem : String) (entries : List (String × Value))
  | struct (name : String) (fields : List (String × Value))
  | ptr (name : String) (target : Option Value)

namespace Value

/-- `[]interface{}`, the type of a YAML sequence. -/
def list (items : List Value) : Value := .slice "interface {}" items

/-- `map[string]interface{}`, the type of a YAML mapping. -/
def object (entries : List (String × Value)) : Value := .map "interface {}" entries

def strings (items : List String) : Value := .slice "string" (items.map .string)

/-- A pointer to a struct of type `name`, nil for `none`. -/
def ref {α : Type} (name : String) (view : α → Value) (p : Option α) : Value := .ptr name (p.map view)

/-- `%T`. -/
def typeName : Value → String
  | .nil => "<nil>"
  | .bool _ => "bool"
  | .int _ => "int"
  | .int64 _ => "int64"
  | .uint64 _ => "uint64"
  | .integer kind _ => kind.name
  | .duration _ => "time.Duration"
  | .time _ => "time.Time"
  | .float32 _ => "float32"
  | .float64 _ => "float64"
  | .string _ => "string"
  | .slice elem _ => "[]" ++ elem
  | .map elem _ => "map[string]" ++ elem
  | .struct name _ => name
  | .ptr name _ => "*" ++ name

/-- `reflect.ValueOf(v).Kind()`. -/
def kind : Value → String
  | .nil => "invalid"
  | .bool _ => "bool"
  | .int _ => "int"
  | .int64 _ | .duration _ => "int64"
  | .uint64 _ => "uint64"
  | .integer kind _ => kind.name
  | .float32 _ => "float32"
  | .float64 _ => "float64"
  | .string _ => "string"
  | .slice _ _ => "slice"
  | .map _ _ => "map"
  | .struct _ _ | .time _ => "struct"
  | .ptr _ _ => "ptr"

def isNil : Value → Bool
  | .nil => true
  | _ => false

mutual

/-- `reflect.DeepEqual`: values of one type with equal contents. -/
def deepEqual : Value → Value → Bool
  | .nil, .nil => true
  | .bool a, .bool b => a == b
  | .int a, .int b => a == b
  | .int64 a, .int64 b => a == b
  | .uint64 a, .uint64 b => a == b
  | .integer j a, .integer k b => j == k && a == b
  | .duration a, .duration b => a == b
  | .time a, .time b => a == b
  | .float32 a, .float32 b => a == b
  | .float64 a, .float64 b => a == b
  | .string a, .string b => a == b
  | .slice t vs, .slice u ws => t == u && deepEqualItems vs ws
  | .map t es, .map u fs => t == u && es.length == fs.length && deepEqualEntries es fs
  | .struct t es, .struct u fs => t == u && deepEqualEntries es fs
  | .ptr t none, .ptr u none => t == u
  | .ptr t (some v), .ptr u (some w) => t == u && deepEqual v w
  | _, _ => false

def deepEqualItems : List Value → List Value → Bool
  | [], [] => true
  | v :: vs, w :: ws => deepEqual v w && deepEqualItems vs ws
  | _, _ => false

/-- Every entry has an equal one under the same key. -/
def deepEqualEntries : List (String × Value) → List (String × Value) → Bool
  | [], _ => true
  | (k, v) :: es, fs =>
    (match fs.lookup k with
      | some w => deepEqual v w
      | none => false) && deepEqualEntries es fs

end

/-- `float64(n)` of an integer: the nearest number of 53 significant bits, the even one of two. -/
def float64OfInt (n : Int) : ℚ :=
  let a := n.natAbs
  let unit := Nat.pow 2 (Nat.log2 a - 52)
  let low := a / unit
  let rest := a % unit
  let rounded := if 2 * rest < unit ∨ 2 * rest = unit ∧ low % 2 = 0 then low else low + 1
  ((n.sign * (rounded * unit : Nat) : Int) : ℚ)

example : float64OfInt (2 ^ 53 + 1) = 2 ^ 53 ∧ float64OfInt (2 ^ 53 + 3) = 2 ^ 53 + 4 ∧ float64OfInt (-7) = -7 := by
  decide +kernel

end Value

/-! ## Strings -/

namespace Strings

def splitChars (sep : Char) : List Char → List (List Char)
  | [] => [[]]
  | c :: cs =>
    if c = sep then [] :: splitChars sep cs
    else match splitChars sep cs with
      | [] => [[c]]
      | w :: ws => (c :: w) :: ws

def splitDot (s : String) : List String := (splitChars '.' s.toList).map String.ofList

/-- The lower-case letter of the ASCII alphabet a character folds to, if any: besides the upper-case
letters, the Kelvin sign folds to `k` and the long s to `s`. -/
def foldChar (c : Char) : Char :=
  if c.val = 0x212A then 'k'
  else if c.val = 0x17F then 's'
  else if 'A' ≤ c ∧ c ≤ 'Z' then Char.ofNat (c.toNat + 32)
  else c

/-- `strings.EqualFold(s, t)` for an ASCII `s`. -/
def equalFold (s t : String) : Bool := s.toList.map foldChar == t.toList.map foldChar

def hasInfix (sub : List Char) : List Char → Bool
  | [] => sub.isEmpty
  | c :: cs => sub.isPrefixOf (c :: cs) || hasInfix sub cs

def contains (s sub : String) : Bool := hasInfix sub.toList s.toList

theorem hasInfix_iff (sub cs : List Char) : hasInfix sub cs = true ↔ sub <:+: cs := by
  induction cs with
  | nil => simp [hasInfix]
  | cons c cs ih =>
    rw [hasInfix, Bool.or_eq_true, ih, List.isPrefixOf_iff_prefix, List.infix_cons_iff]

theorem exists_intercalate_eq (sep : Char) {l : List Char} {ls : List (List Char)} (h : l ∈ ls) :
    ∃ pre post, [sep].intercalate ls = pre ++ l ++ post ∧
      (∀ a ∈ pre.getLast?, a = sep) ∧ ∀ a ∈ post.head?, a = sep := by
  induction ls with
  | nil => cases h
  | cons a ls ih =>
    cases ls with
    | nil =>
      obtain rfl := List.mem_singleton.1 h
      exact ⟨[], [], by simp [List.intercalate], by simp, by simp⟩
    | cons b ls =>
      rw [List.intercalate_cons_cons]
      rcases List.mem_cons.1 h with rfl | h
      · exact ⟨[], [sep] ++ [sep].intercalate (b :: ls), by simp, by simp, by simp⟩
      · obtain ⟨pre, post, heq, hpre, hpost⟩ := ih h
        refine ⟨a ++ [sep] ++ pre, post, by simp [heq], ?_, hpost⟩
        intro x hx
        cases hl : pre.getLast? with
        | none =>
          rw [List.getLast?_append, hl] at hx
          simpa [eq_comm] using hx
        | some y =>
          rw [List.getLast?_append, hl] at hx
          exact hpre x (by simpa [hl] using hx)

theorem takeWhile_ne {sep : Char} {before : List Char} (rest : List Char) (h : sep ∉ before) :
    (before ++ sep :: rest).takeWhile (· ≠ sep) = before := by
  rw [List.takeWhile_append_of_pos, List.takeWhile_cons_of_neg (by simp), List.append_nil]
  intro c hc
  exact decide_eq_true fun he => h (he ▸ hc)

/-- `strings.HasPrefix(s, p)`. -/
def startsWith (s p : String) : Bool := p.toList.isPrefixOf s.toList

def trimPrefix (s p : String) : String :=
  if startsWith s p then String.ofList (s.toList.drop p.toList.length) else s

theorem startsWith_iff {s p : String} : startsWith s p = true ↔ p.toList <+: s.toList := List.isPrefixOf_iff_prefix

theorem startsWith_self (s : String) : startsWith s s = true := startsWith_iff.2 List.prefix_rfl

theorem startsWith_append (p s : String) : startsWith (p ++ s) p = true := by
  rw [startsWith, String.toList_append]
  exact List.isPrefixOf_iff_prefix.2 (List.prefix_append _ _)

theorem trimPrefix_append (p s : String) : trimPrefix (p ++ s) p = s := by
  rw [trimPrefix, if_pos (startsWith_append p s), String.toList_append, List.drop_left, String.ofList_toList]

def endsWith (s p : String) : Bool := p.toList.isSuffixOf s.toList

/-- The code points `strings.TrimSpace` trims. -/
def isSpace (c : Char) : Bool :=
  c.val == 0x20 || 0x9 ≤ c.val && c.val ≤ 0xD || c.val == 0x85 || c.val == 0xA0 || c.val == 0x1680 ||
    0x2000 ≤ c.val && c.val ≤ 0x200A || c.val == 0x2028 || c.val == 0x2029 || c.val == 0x202F ||
    c.val == 0x205F || c.val == 0x3000

def trimSpace (cs : List Char) : List Char := ((cs.dropWhile isSpace).reverse.dropWhile isSpace).reverse

end Strings

/-! ## Maps -/

/-- One `range` over a map: its entries, in any order. -/
structure MapRange {α : Type} (m : List (String × α)) where
  order : List (String × α)
  perm : order.Perm m

/-- What the standard library decides about values, patterns and time zones. `sprint` is `fmt.Sprint`
of a value that is no string (its `String` method for a `fmt.Stringer`); `regexpCompile` gives the
matcher of a well-formed pattern. -/
structure Runtime where
  sprint : Value → String
  regexpCompile : String → Option (String → Bool)
  loadLocation : String → Option Time.Location

end Jupiter.Go
