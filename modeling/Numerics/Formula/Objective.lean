import Numerics.Formula.Basic
import Numerics.Objective

/-!
# Formulas as objectives

A formula has a value wherever it is evaluated with success and the value is defined; elsewhere, and beyond the limit
for inputs, it gives the sentinel.
-/

namespace Numerics.Formula

/-- The value of an evaluation, or the sentinel. -/
def guard (outcome : Except EvalError Float) : Float :=
  match outcome with
  | .ok v => sanitize v
  | .error _ => Scalar.undefined

/-- The value at `x` of a formula of one variable. -/
def line (f : Formula) (x : Float) : Float :=
  if withinLimit x then guard (f.evaluate [x]) else Scalar.undefined

/-- The value at `(x, y)` of a formula of two variables. -/
def plane (f : Formula) (x y : Float) : Float :=
  if withinLimit x && withinLimit y then guard (f.evaluate [x, y]) else Scalar.undefined

end Numerics.Formula
