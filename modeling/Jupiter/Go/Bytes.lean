/-
Go strings as lists of bytes, for the code that cuts or compares them between bytes, and the part of `strings` it uses.

White space is trimmed as its encodings, which end where they end whatever stands before or after them.
-/
import Mathlib.Data.List.Basic

namespace Jupiter.Go

/-- A Go string whose bytes matter. -/
abbrev Bytes := List UInt8

namespace Bytes

def ascii (s : String) : Bytes := s.toList.map fun c => UInt8.ofNat c.toNat

/-- A string with a character for each byte. -/
def text (b : Bytes) : String := String.ofList (b.map fun x => Char.ofNat x.toNat)

/-- `strings.ToLower` of the ASCII letters. -/
def lower (b : Bytes) : Bytes := b.map fun x => if 65 ≤ x ∧ x ≤ 90 then x + 32 else x

/-- The encodings of the white space of Unicode. -/
def spaces : List Bytes :=
  [[0x09], [0x0A], [0x0B], [0x0C], [0x0D], [0x20], [0xC2, 0x85], [0xC2, 0xA0], [0xE1, 0x9A, 0x80],
    [0xE2, 0x80, 0x80], [0xE2, 0x80, 0x81], [0xE2, 0x80, 0x82], [0xE2, 0x80, 0x83], [0xE2, 0x80, 0x84],
    [0xE2, 0x80, 0x85], [0xE2, 0x80, 0x86], [0xE2, 0x80, 0x87], [0xE2, 0x80, 0x88], [0xE2, 0x80, 0x89],
    [0xE2, 0x80, 0x8A], [0xE2, 0x80, 0xA8], [0xE2, 0x80, 0xA9], [0xE2, 0x80, 0xAF], [0xE2, 0x81, 0x9F],
    [0xE3, 0x80, 0x80]]

/-- Drops the encodings in front, at most `n` of them. -/
def trimStart (encodings : List Bytes) : Nat → Bytes → Bytes
  | 0, b => b
  | n + 1, b =>
    match encodings.find? (·.isPrefixOf b) with
    | none => b
    | some space => trimStart encodings n (b.drop space.length)

def trimSpace (b : Bytes) : Bytes :=
  let rest := trimStart spaces b.length b
  (trimStart (spaces.map List.reverse) rest.length rest.reverse).reverse

end Bytes

end Jupiter.Go
