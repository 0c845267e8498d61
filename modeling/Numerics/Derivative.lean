import Numerics.Report

/-!
# Derivatives by central differences

Where a sample is undefined, or the quotient is not finite, the derivative is taken to be 1.
-/

namespace Numerics

open Query Scalar

variable {α : Type} [Scalar α]

/-- The value, or 1 in place of one that is not finite. -/
def finiteOrOne (v : α) : α := if isFinite v then v else 1

/-- The slope at `x`, from samples at a distance of 1e-6. -/
def firstDerivative (x : α) : Query α α α := do
  let h : α := place 6
  let plus ← request (x + h)
  let minus ← request (x - h)
  return if isDefined plus && isDefined minus then finiteOrOne ((plus - minus) / (2 * h)) else 1

/-- The curvature at `x`, from samples at a distance of 1e-4. -/
def secondDerivative (x : α) : Query α α α := do
  let h : α := place 4
  let here ← request x
  let plus ← request (x + h)
  let minus ← request (x - h)
  return if isDefined here && isDefined plus && isDefined minus then
    finiteOrOne ((plus - 2 * here + minus) / (h * h)) else 1

/-- Slope and curvature at `x`. -/
def derivatives (x : α) : Query α α (Derivatives α) := do
  let first ← firstDerivative x
  let second ← secondDerivative x
  return { first, second }

/-- The line through a point with a given slope. -/
def Tangent.through (slope x fx : α) : Tangent α := { slope, intercept := fx - slope * x }

/-- The tangent at `x`, if the function is defined there. -/
def tangent? (x : α) : Query α α (Option (Tangent α)) := do
  let fx ← request x
  if !isDefined fx then return none
  let slope ← firstDerivative x
  return some (.through slope x fx)

end Numerics
