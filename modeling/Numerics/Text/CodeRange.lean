/-!
# Ranges of code points

A property of characters is given by the list of the ranges of code points that have it, both ends included.
-/

namespace Numerics.Text

/-- The character lies in one of the ranges. -/
def covers (ranges : List (Nat × Nat)) (c : Char) : Bool :=
  ranges.any fun r => r.1 ≤ c.toNat && c.toNat ≤ r.2

end Numerics.Text
