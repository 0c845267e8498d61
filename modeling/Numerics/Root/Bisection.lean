import Numerics.Probe
import Numerics.Search

/-!
# Roots by halving

Bisection keeps a bracket whose ends have values of different signs, and replaces one of its ends by its middle in
each step. It stops at a middle whose value is below the tolerance, or when the bracket is as narrow as machine
numbers resolve.
-/

namespace Numerics.Bisection

open Query Scalar

variable {α : Type} [Scalar α]

/-- A bracket with the value at its lower end, its middle with the value there, and the history up to here. -/
structure State (α : Type) where
  lo : α
  hi : α
  atLo : α
  mid : α
  atMid : α
  steps : Nat
  trace : Trace α

/-- No bracket around larger numbers than these is worth halving once it is narrower. -/
def resolution (lo hi : α) : α :=
  1 / ((Nat.pow 2 52 : Nat) : α) * greatest (greatest (Scalar.abs lo) (Scalar.abs hi)) 1

namespace State

/-- The half of the bracket that keeps the change of sign. -/
def halve (s : State α) : State α :=
  let add := s.trace.add (s.steps + 1) [s.mid] s.atMid
  if oppositeSigns s.atLo s.atMid then
    { s with hi := s.mid, steps := s.steps + 1, trace := add .keepLeft }
  else
    { s with lo := s.mid, atLo := s.atMid, steps := s.steps + 1, trace := add .keepRight }

/-- The middle is a root, or the bracket cannot be narrowed any more. -/
def settled (epsilon : α) (s : State α) : Bool :=
  Scalar.abs s.atMid < epsilon || s.hi - s.lo ≤ resolution s.lo s.hi

/-- The state with the middle of its bracket and the value there. -/
def withMiddle (s : State α) (mid atMid : α) : State α := { s with mid, atMid }

end State

/-- Halves until the state has settled, at most `fuel` times. -/
def halvings (epsilon : α) : Nat → State α → Query α α (State α × Status)
  | 0, s => done (s, .iterationLimit)
  | fuel + 1, s =>
    let s := s.halve
    if s.settled epsilon then done (s, .converged)
    else
      let mid := midpoint s.lo s.hi
      ask mid fun v => halvings epsilon fuel (s.withMiddle mid v)

/-- The most halvings of a search. -/
def maxHalvings : Nat := 1000

/-- The outcome of a search that ends in a state. -/
def State.report (epsilon : α) (s : State α) (status : Status) : Report α :=
  { (Report.new [s.mid] s.atMid epsilon status).traced s.trace with
    iterations := s.steps
    finalInterval := some (s.lo, s.hi) }

/-- The search on `[a, b]`. An end whose value is below the tolerance is the root. -/
def search (a b epsilon : α) : Query α α (Outcome α (Report α)) := do
  if !(← Probe.definedOnMost a b) then return .error (.undefinedOnInterval a b)
  if ← Probe.sameSignAtEnds a b then return .error (.noSignChange a b)
  let fa ← request a
  let fb ← request b
  if Scalar.abs fa < epsilon then return .ok (.atEnd a fa epsilon)
  if Scalar.abs fb < epsilon then return .ok (.atEnd b fb epsilon)
  let mid := midpoint a b
  let atMid ← request mid
  let (s, status) ← halvings epsilon maxHalvings { lo := a, hi := b, atLo := fa, mid, atMid, steps := 0, trace := [] }
  return .ok (s.report epsilon status)

/-- A root of `f` in `[a, b]`, where its values at the ends have different signs. -/
def findRoot (f : α → α) (a b epsilon : α) : Outcome α (Report α) := do
  checked (checkInterval a b)
  checked (checkEpsilon epsilon)
  Search.run (Search.counted (search a b epsilon)) (.line f)

end Numerics.Bisection
