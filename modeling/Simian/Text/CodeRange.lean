/-!
# Ranges of code points

Sets of characters given as ascending, inclusive ranges of code points.
-/

namespace Simian.Text

/-- Whether a character lies in one of the ranges. -/
def inRanges (ranges : List (Nat × Nat)) (c : Char) : Bool :=
  ranges.any fun (lo, hi) => lo ≤ c.toNat && c.toNat ≤ hi

end Simian.Text
