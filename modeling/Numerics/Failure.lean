import Numerics.Decimal.Notation
import Numerics.Scalar

/-!
# Why a method does not run, or ends without a result

`InputError` is found before a method starts; `RunError` also covers what the run itself finds out. Each constructor
is a cause, and `message` gives its wording.
-/

namespace Numerics

/-- An argument that no method accepts. -/
inductive InputError (α : Type) where
  | interval (a b : α)
  | epsilon (value : α)
  | lambda (value : α)
  | maxIterations (value : Nat)
  | subintervals
  | startPoint
  deriving Repr, DecidableEq

/-- A run that has no result. -/
inductive RunError (α : Type) where
  | input (cause : InputError α)
  | noSignChange (a b : α)
  | undefinedOnInterval (a b : α)
  | singularSystem (determinant : α)
  | insufficientPoints (needed got : Nat)
  | invalidPoint (index : Nat)
  | cancelled
  deriving Repr, DecidableEq

section Checks

variable {α : Type} [Scalar α]

/-- Bounds have to be finite, the lower one first. -/
def checkInterval (a b : α) : Except (InputError α) Unit :=
  if !Scalar.isFinite a || !Scalar.isFinite b || b ≤ a then .error (.interval a b) else .ok ()

/-- Tolerances have to be finite and positive. -/
def checkEpsilon (epsilon : α) : Except (InputError α) Unit :=
  if !Scalar.isFinite epsilon || epsilon ≤ 0 then .error (.epsilon epsilon) else .ok ()

/-- The longest step has to be finite and positive. -/
def checkLambda (lambda : α) : Except (InputError α) Unit :=
  if !Scalar.isFinite lambda || lambda ≤ 0 then .error (.lambda lambda) else .ok ()

/-- Between 1 and 10000 iterations may be asked for. -/
def checkMaxIterations (n : Nat) : Except (InputError α) Unit :=
  if n < 1 || 10000 < n then .error (.maxIterations n) else .ok ()

/-- There has to be at least one subinterval. -/
def checkSubintervals (n : Nat) : Except (InputError α) Unit :=
  if n = 0 then .error .subintervals else .ok ()

end Checks

open Decimal (plain scientific)

/-- The wording of an argument that is not accepted. -/
def InputError.message : InputError Float → String
  | .interval a b => s!"interval bounds must be finite with a < b (got [{plain a}, {plain b}])"
  | .epsilon value => s!"epsilon must be finite and positive (got {plain value})"
  | .lambda value => s!"lambda must be finite and positive (got {plain value})"
  | .maxIterations value => s!"max_iterations must be within [1, 10000] (got {value})"
  | .subintervals => "number of subintervals must be at least 1"
  | .startPoint => "starting point must be finite"

/-- The wording of a run without a result. -/
def RunError.message : RunError Float → String
  | .input cause => cause.message
  | .noSignChange a b => s!"f(a) and f(b) have the same sign on [{plain a}, {plain b}]; no bracketed root"
  | .undefinedOnInterval a b => s!"function is undefined on most of [{plain a}, {plain b}]"
  | .singularSystem determinant => s!"normal equations are singular (|det| = {scientific determinant})"
  | .insufficientPoints needed got => s!"at least {needed} points are required, got {got}"
  | .invalidPoint index => s!"point {index} has a non-finite coordinate"
  | .cancelled => "run was cancelled"

end Numerics
