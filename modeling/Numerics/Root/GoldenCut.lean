import Numerics.Probe
import Numerics.Search

/-!
# Roots by golden cuts

The bracket is cut at a fixed fraction, the golden cut, and the part that keeps the change of sign is kept, until it
is narrower than the tolerance. An end with a value close to zero is the root; a cut that hits a zero exactly leaves a
bracket of width zero.
-/

namespace Numerics.GoldenCut

open Query Scalar

variable {α : Type} [Scalar α]

/-- A bracket with the value at its lower end, and the history up to here. -/
structure State (α : Type) where
  lo : α
  hi : α
  atLo : α
  steps : Nat
  trace : Trace α

namespace State

/-- The point at which the bracket is cut. -/
def cut (s : State α) : α := s.lo + goldenCut * (s.hi - s.lo)

/-- The part of the bracket to be kept after a cut at `x` with the value `fx`. -/
def keep (s : State α) (x fx : α) : State α :=
  let add := s.trace.add (s.steps + 1) [x] fx
  if fx ≤ 0 && 0 ≤ fx then { s with lo := x, hi := x, steps := s.steps + 1, trace := add .keepLeft }
  else if oppositeSigns s.atLo fx then { s with hi := x, steps := s.steps + 1, trace := add .keepLeft }
  else { s with lo := x, atLo := fx, steps := s.steps + 1, trace := add .keepRight }

end State

/-- Cuts while the bracket is not narrower than the tolerance, at most `fuel` times. -/
def cuts (epsilon : α) : Nat → State α → Query α α (State α)
  | 0, s => done s
  | fuel + 1, s =>
    if epsilon ≤ s.hi - s.lo then ask s.cut fun fx => cuts epsilon fuel (s.keep s.cut fx) else done s

/-- The most cuts of a search. -/
def maxCuts : Nat := 10000

/-- The value counts as zero. -/
def isRoot (epsilon fx : α) : Bool := Scalar.abs fx < epsilon || Scalar.abs fx ≤ Probe.zeroThreshold

/-- The outcome at an end of `[a, b]` that is a root. -/
def endReport (a b epsilon x fx : α) : Report α :=
  { Report.atEnd x fx epsilon with finalInterval := some (a, b) }

/-- The search on `[a, b]`. -/
def search (a b epsilon : α) : Query α α (Outcome α (Report α)) := do
  if !(← Probe.definedOnMost a b) then return .error (.undefinedOnInterval a b)
  if ← Probe.sameSignAtEnds a b then return .error (.noSignChange a b)
  let fa ← request a
  let fb ← request b
  if isRoot epsilon fa then return .ok (endReport a b epsilon a fa)
  if isRoot epsilon fb then return .ok (endReport a b epsilon b fb)
  let s ← cuts epsilon maxCuts { lo := a, hi := b, atLo := fa, steps := 0, trace := [] }
  let x := midpoint s.lo s.hi
  let fx ← request x
  let status := if s.hi - s.lo < epsilon then .converged else .iterationLimit
  return .ok { (Report.new [x] fx epsilon status).traced s.trace with
    iterations := s.steps
    finalInterval := some (s.lo, s.hi) }

/-- A root of `f` in `[a, b]`, where its values at the ends have different signs or one of them is zero. -/
def findRoot (f : α → α) (a b epsilon : α) : Outcome α (Report α) := do
  checked (checkInterval a b)
  checked (checkEpsilon epsilon)
  Search.run (Search.counted (search a b epsilon)) (.line f)

end Numerics.GoldenCut
