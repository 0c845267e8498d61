import Numerics.Integral.Rule
import Numerics.Search

/-!
# Composite sums

The sum of a rule over `n` subintervals of `[a, b]`, whose nodes are asked for from left to right; the inner nodes of
Simpson's rule in two passes, the odd ones first, and the ends after them. A sum that is not defined counts as
the sentinel.
-/

namespace Numerics.Integral

open Query Scalar

variable {α : Type} [Scalar α]

/-- The sum of the values at `count` nodes from the one with index `i`, on top of `acc`. -/
def sumFrom (node : Nat → α) (i : Nat) (acc : α) : Nat → Query α α α
  | 0 => done acc
  | count + 1 => ask (node i) fun v => sumFrom node (i + 1) (acc + v) count

/-- The sum of the values at the first `count` nodes. -/
def sumOver (node : Nat → α) (count : Nat) : Query α α α := sumFrom node 0 (-0) count

/-- The weighted sum of a rule over `n` subintervals. -/
def weightedSum (rule : Rule) (a b : α) (n : Nat) : Query α α α :=
  let h := (b - a) / (n : α)
  let node (i : Nat) : α := a + (i : α) * h
  match rule with
  | .leftRectangles => do
    let s ← sumOver node n
    return h * s
  | .rightRectangles => do
    let s ← sumOver (fun i => node (i + 1)) n
    return h * s
  | .midpoints => do
    let s ← sumOver (fun (i : Nat) => a + ((i : α) + half) * h) n
    return h * s
  | .trapezoids => do
    let fa ← request a
    let fb ← request b
    let s ← sumOver (fun i => node (i + 1)) (n - 1)
    return h * (half * (fa + fb) + s)
  | .simpson => do
    let odd ← sumOver (fun i => node (2 * i + 1)) (n / 2)
    let even ← sumOver (fun i => node (2 * i + 2)) ((n - 1) / 2)
    let fa ← request a
    let fb ← request b
    return h / 3 * (fa + 4 * odd + 2 * even + fb)

/-- The value of the integral over `[a, b]` by a rule with `n` subintervals. -/
def compositeSum (rule : Rule) (a b : α) (n : UInt64) : Query α α α := do
  let total ← weightedSum rule a b n.toNat
  return sanitize total

/-- The value of an integral by one rule, the count behind it, and how it was reached. -/
structure Estimate (α : Type) where
  rule : Rule
  value : α
  n : UInt64
  /-- The last change of the value in an adaptive run. -/
  error? : Option α
  converged : Bool
  /-- Counts and values in the order of the sums. -/
  history : List (UInt64 × α)
  evaluations : Nat
  deriving Repr

/-- The bounds are an interval, and there is a subinterval. -/
def checkPartition (a b : α) (n : UInt64) : Except (InputError α) Unit := do
  checkInterval a b
  checkSubintervals n.toNat

/-- The integral of `f` over `[a, b]` by one rule with a given count. -/
def integrate (f : α → α) (a b : α) (n : UInt64) (rule : Rule) : Outcome α α := do
  checked (checkPartition a b n)
  return (compositeSum rule a b (rule.fixedCount n)).value (Objective.line f).guarded

/-- The estimate of a rule with a given count. -/
def fixedEstimate (a b : α) (n : UInt64) (rule : Rule) : Query α α (Estimate α) := do
  let count := rule.fixedCount n
  let (value, evaluations) ← (compositeSum rule a b count).counted
  return { rule, value, n := count, error? := none, converged := true, history := [(count, value)], evaluations }

/-- The integral of `f` over `[a, b]` by each rule with a given count. -/
def integrateFixed (f : α → α) (a b : α) (n : UInt64) (rules : List Rule) : Outcome α (List (Estimate α)) := do
  checked (checkPartition a b n)
  return rules.map fun rule => (fixedEstimate a b n rule).value (Objective.line f).guarded

end Numerics.Integral
