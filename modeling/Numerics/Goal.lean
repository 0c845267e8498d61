import Numerics.Objective

/-!
# Minimum or maximum
-/

namespace Numerics

/-- Whether a search looks for the smallest or the largest value. -/
inductive Goal where
  | minimize
  | maximize
  deriving Repr, DecidableEq, Inhabited

namespace Goal

/-- What the search looks for, in words. -/
def label : Goal → String
  | minimize => "minimum"
  | maximize => "maximum"

/-- Strictly better than the reference: an undefined value never is, and a defined one is better than an undefined
one. -/
@[inline] def improves {α : Type} [Scalar α] (goal : Goal) (candidate reference : α) : Bool :=
  if !isDefined candidate then false
  else if !isDefined reference then true
  else match goal with
    | minimize => candidate < reference
    | maximize => reference < candidate

end Goal

end Numerics
