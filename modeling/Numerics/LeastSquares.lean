import Numerics.Search

/-!
# Least squares

The line, or the parabola, with the smallest sum of squared residuals on given points, from the normal equations: two
of them in closed form, three by Cramer's rule. Equations whose determinant is close to zero are refused.
-/

namespace Numerics.LeastSquares

open Scalar

variable {α : Type} [Scalar α]

/-- The polynomials that are fitted. -/
inductive Kind where
  | linear
  | quadratic
  deriving Repr, DecidableEq

/-- The number of coefficients. -/
def Kind.unknowns : Kind → Nat
  | linear => 2
  | quadratic => 3

/-- A fitted polynomial, by ascending powers, and its coefficient of determination. -/
structure Fit (α : Type) where
  kind : Kind
  coefficients : List α
  rSquared : α
  deriving Repr

/-- The value at `x` of the polynomial with these coefficients, by ascending powers. -/
def evaluate (coefficients : List α) (x : α) : α := coefficients.foldr (fun c acc => acc * x + c) 0

/-- The value of the fitted polynomial. -/
def Fit.predict (f : Fit α) (x : α) : α := evaluate f.coefficients x

/-- Determinants nearer to zero than this count as zero. -/
def singularThreshold : α := place 12

/-- There are enough points, and all of them are finite. -/
def checkPoints (points : List (α × α)) (kind : Kind) : Outcome α Unit :=
  if points.length < kind.unknowns then .error (.insufficientPoints kind.unknowns points.length)
  else match points.findIdx? fun p => !isFinite p.1 || !isFinite p.2 with
    | some index => .error (.invalidPoint index)
    | none => .ok ()

/-- The sum of a function over the points, from left to right. -/
def total (points : List (α × α)) (f : α × α → α) : α := points.foldl (fun acc p => acc + f p) 0

/-- The mean of the second coordinates. -/
def meanY (points : List (α × α)) : α :=
  points.foldl (fun acc p => acc + p.2) (-0) / (points.length : α)

/-- The square. -/
def square (v : α) : α := v * v

/-- One less the ratio of the residual to the total sum of squares. Points of one height score 1 if they are met
exactly, and 0 if not. -/
def rSquared (points : List (α × α)) (predict : α → α) : α :=
  let mean := meanY points
  let all := total points fun p => square (p.2 - mean)
  let residual := total points fun p => square (p.2 - predict p.1)
  if all ≤ 0 && 0 ≤ all then if residual ≤ 0 && 0 ≤ residual then 1 else 0
  else 1 - residual / all

/-- The line through points. -/
def linear (points : List (α × α)) : Outcome α (Fit α) := do
  checkPoints points .linear
  let n : α := points.length
  let sumX := total points fun p => p.1
  let sumY := total points fun p => p.2
  let sumXY := total points fun p => p.1 * p.2
  let sumXX := total points fun p => p.1 * p.1
  let determinant := n * sumXX - sumX * sumX
  if Scalar.abs determinant < singularThreshold then throw (.singularSystem determinant)
  let slope := (n * sumXY - sumX * sumY) / determinant
  let intercept := (sumY * sumXX - sumX * sumXY) / determinant
  return { kind := .linear, coefficients := [intercept, slope],
           rSquared := rSquared points fun x => slope * x + intercept }

/-- Three numbers. -/
structure Triple (α : Type) where
  x : α
  y : α
  z : α

/-- The determinant of the matrix with these rows, expanded along the first one. -/
def determinant (p q r : Triple α) : α :=
  p.x * (q.y * r.z - q.z * r.y) - p.y * (q.x * r.z - q.z * r.x) + p.z * (q.x * r.y - q.y * r.x)

/-- The power `x ^ k`, built up from 1 by factors on the right. -/
def power (x : α) : Nat → α
  | 0 => 1
  | k + 1 => power x k * x

/-- The sum of the powers `x ^ k`. -/
def powerSum (points : List (α × α)) (k : Nat) : α := total points fun p => power p.1 k

/-- The sum of the products `x ^ k * y`. -/
def momentSum (points : List (α × α)) (k : Nat) : α := total points fun p => power p.1 k * p.2

/-- The parabola through points. -/
def quadratic (points : List (α × α)) : Outcome α (Fit α) := do
  checkPoints points .quadratic
  let s (k : Nat) : α := powerSum points k
  let t (k : Nat) : α := momentSum points k
  let s0 := s 0
  let s1 := s 1
  let s2 := s 2
  let s3 := s 3
  let s4 := s 4
  let t0 := t 0
  let t1 := t 1
  let t2 := t 2
  let det := determinant ⟨s0, s1, s2⟩ ⟨s1, s2, s3⟩ ⟨s2, s3, s4⟩
  if Scalar.abs det < singularThreshold then throw (.singularSystem det)
  let coefficients := [
    determinant ⟨t0, s1, s2⟩ ⟨t1, s2, s3⟩ ⟨t2, s3, s4⟩ / det,
    determinant ⟨s0, t0, s2⟩ ⟨s1, t1, s3⟩ ⟨s2, t2, s4⟩ / det,
    determinant ⟨s0, s1, t0⟩ ⟨s1, s2, t1⟩ ⟨s2, s3, t2⟩ / det]
  return { kind := .quadratic, coefficients, rSquared := rSquared points (evaluate coefficients) }

/-- The polynomial of a kind through points. -/
def fit (kind : Kind) (points : List (α × α)) : Outcome α (Fit α) :=
  match kind with
  | .linear => linear points
  | .quadratic => quadratic points

end Numerics.LeastSquares
