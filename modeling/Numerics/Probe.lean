import Numerics.Objective

/-!
# Looking at an interval before a search

Cheap questions about a function on `[a, b]`, each answered from a few samples.
-/

namespace Numerics.Probe

open Query Scalar

variable {α : Type} [Scalar α]

/-- Values nearer to zero than this have no usable sign. -/
@[inline] def zeroThreshold : α := place 15

/-- The ends of `n + 1` evenly spaced steps from `a`. -/
def stepsFrom (a step : α) (n : Nat) : List α := (List.range (n + 1)).map fun (i : Nat) => a + (i : α) * step

/-- The function is defined on most of `[a, b]`: at 7 of 11 evenly spaced samples at least. -/
def definedOnMost (a b : α) : Query α α Bool := do
  let values ← collect (stepsFrom a ((b - a) / 10) 10)
  return 7 ≤ values.countP isDefined

/-- The values at both ends have one sign, and none of them is close to zero. -/
def sameSignAtEnds (a b : α) : Query α α Bool := do
  let fa ← request a
  let fb ← request b
  return 0 < fa * fb && zeroThreshold < Scalar.abs fa && zeroThreshold < Scalar.abs fb

/-- All values at the inputs are close to `v`; the first that is not ends the search. -/
def allCloseTo (v : α) : List α → Query α α Bool
  | [] => done true
  | x :: xs => ask x fun fx => if Scalar.abs (fx - v) < zeroThreshold then allCloseTo v xs else done false

/-- The function has one value at five points spread over `[a, b]`. -/
def looksConstant (a b : α) : Query α α Bool := do
  let width := b - a
  let first ← request a
  allCloseTo first [a + width / 4, a + width / 2, a + 3 * width / 4, b]

/-- The first of two samples unless the second has a smaller value. -/
def lower (p q : α × α) : α × α := if precedes q.2 p.2 then q else p

/-- The first sample with the smallest value among those that are defined. -/
def lowest? (samples : List (α × α)) : Option (α × α) :=
  match samples.filter fun p => isDefined p.2 with
  | [] => none
  | p :: rest => some (rest.foldl lower p)

/-- The inputs of a scan of `[a, b]` in `n` equal steps, the last one exactly `b`. -/
def scanInputs (a b : α) (n : Nat) : List α :=
  let step := (b - a) / (n : α)
  (List.range (n + 1)).map fun (i : Nat) => if i = n then b else a + (i : α) * step

/-- The lowest sample of a scan of `[a, b]` in `n` equal steps, at least one. -/
def scanMinimum (a b : α) (n : Nat) : Query α α (Option (α × α)) := do
  let inputs := scanInputs a b (max n 1)
  let values ← collect inputs
  return lowest? (inputs.zip values)

end Numerics.Probe
