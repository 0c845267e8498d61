import Numerics.Failure
import Numerics.Formula.Error

/-!
# What a front end is told when a request fails

The cause after what was attempted, in one line.
-/

namespace Numerics.Frontend

/-- A method that can end without a result. -/
inductive Method where
  | bisection
  | goldenRoot
  | goldenExtremum
  | axisSearch
  | newton
  | fixedIntegral
  | adaptiveIntegral
  | linearFit
  | quadraticFit
  deriving Repr, DecidableEq

/-- The failure of a method in words. -/
def Method.failed : Method → String
  | .bisection => "Bisection failed"
  | .goldenRoot => "Golden section root search failed"
  | .goldenExtremum => "Golden section search failed"
  | .axisSearch => "Coordinate descent failed"
  | .newton => "Newton minimization failed"
  | .fixedIntegral => "Integration failed"
  | .adaptiveIntegral => "Adaptive integration failed"
  | .linearFit => "Linear fit failed"
  | .quadraticFit => "Quadratic fit failed"

/-- A picture of a formula. -/
inductive View where
  | curve
  | surface
  | contours
  deriving Repr, DecidableEq

/-- The failure of a view in words. -/
def View.failed : View → String
  | .curve => "Cannot sample curve"
  | .surface => "Cannot sample surface"
  | .contours => "Cannot trace contours"

/-- Why a request has no answer. -/
inductive Error where
  | unknownGoal (text : String)
  | unsupportedDimension (n : Nat)
  | compile (formula : String) (cause : Formula.ParseError)
  | evaluate (formula : String) (cause : Formula.EvalError)
  | wrongDimension (formula : String) (got needed : Nat)
  | noRules
  | invalidRules
  | invalidSettings
  | lengths (xs ys : Nat)
  | run (method : Method) (cause : RunError Float)
  | view (picture : View) (cause : InputError Float)
  deriving Repr

/-- The wording of a failed request. -/
def Error.message : Error → String
  | .unknownGoal text => s!"Unknown goal '{text}'; expected \"min\" or \"max\""
  | .unsupportedDimension n => s!"Unsupported dimension {n}; expected 1 or 2"
  | .compile formula cause => s!"Cannot compile '{formula}': {cause.message}"
  | .evaluate formula cause => s!"Cannot evaluate '{formula}': {cause.message}"
  | .wrongDimension formula got needed => s!"'{formula}' has {got} variable(s); this view needs {needed}"
  | .noRules => "At least one quadrature rule is required"
  | .invalidRules => "Invalid rule list"
  | .invalidSettings => "Invalid settings"
  | .lengths xs ys => s!"x and y have different lengths ({xs} vs {ys})"
  | .run method cause => s!"{method.failed}: {cause.message}"
  | .view picture cause => s!"{picture.failed}: {cause.message}"

end Numerics.Frontend
