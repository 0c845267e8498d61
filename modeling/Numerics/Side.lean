/-!
# Left and right
-/

namespace Numerics

/-- One of the two sides of an operator or an interval. -/
inductive Side where
  | left
  | right
  deriving Repr, DecidableEq

end Numerics
