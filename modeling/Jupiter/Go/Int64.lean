/-
`int64` (and `int`, which is as wide): the integers from -2^63 to 2^63 - 1, with arithmetic that wraps around.
-/
import Mathlib.Algebra.Group.Int.Defs

namespace Jupiter.Go

def wrap64 (n : Int) : Int := (n + 2 ^ 63) % 2 ^ 64 - 2 ^ 63

theorem wrap64_of_range {n : Int} (hl : -(2 ^ 63) ≤ n) (hu : n < 2 ^ 63) : wrap64 n = n := by
  unfold wrap64
  omega

theorem wrap64_le {n : Int} (hl : -(2 ^ 63) ≤ n) : wrap64 n ≤ n := by
  unfold wrap64
  omega

theorem wrap64_wrap64_add (m n : Int) : wrap64 (wrap64 m + n) = wrap64 (m + n) := by
  unfold wrap64
  omega

end Jupiter.Go
