import Numerics.Goal
import Numerics.Probe
import Numerics.Search

/-!
# Extrema by golden sections

A bracket `[left, right]` with two inner points at the golden cuts from either end. Each step drops the outer part
beyond the worse inner point; the better one becomes an inner point of the smaller bracket, so one new value is
asked for. For a function that falls and then rises (or the reverse, for a maximum) the extremum stays inside.
-/

namespace Numerics.GoldenSection

open Query Scalar

variable {α : Type} [Scalar α]

/-- A bracket and its inner points. -/
structure Bracket (α : Type) where
  left : α
  right : α
  innerLeft : α
  innerRight : α

namespace Bracket

/-- The bracket `[left, right]`. -/
def new (left right : α) : Bracket α :=
  let width := right - left
  { left, right, innerLeft := left + (1 - goldenCut) * width, innerRight := left + goldenCut * width }

/-- How wide the bracket is. -/
def width (b : Bracket α) : α := b.right - b.left

/-- The middle of the bracket. -/
def middle (b : Bracket α) : α := b.left + b.width / 2

/-- The bracket without the part right of its inner points; the left one becomes the right one. -/
def dropRight (b : Bracket α) : Bracket α :=
  { left := b.left, right := b.innerRight, innerRight := b.innerLeft,
    innerLeft := b.left + (1 - goldenCut) * (b.innerRight - b.left) }

/-- The bracket without the part left of its inner points; the right one becomes the left one. -/
def dropLeft (b : Bracket α) : Bracket α :=
  { left := b.innerLeft, right := b.right, innerLeft := b.innerRight,
    innerRight := b.innerLeft + goldenCut * (b.right - b.innerLeft) }

end Bracket

/-- A bracket with the values at its inner points, and the history up to here. -/
structure State (α : Type) where
  bracket : Bracket α
  atLeft : α
  atRight : α
  steps : Nat
  trace : Trace α

namespace State

/-- The bracket without its right part, given the value at the new inner point. -/
def keepLeft (s : State α) (b : Bracket α) (v : α) : State α :=
  { bracket := b, atLeft := v, atRight := s.atLeft, steps := s.steps + 1,
    trace := s.trace.add (s.steps + 1) [b.innerRight] s.atLeft .keepLeft }

/-- The bracket without its left part, given the value at the new inner point. -/
def keepRight (s : State α) (b : Bracket α) (v : α) : State α :=
  { bracket := b, atLeft := s.atRight, atRight := v, steps := s.steps + 1,
    trace := s.trace.add (s.steps + 1) [b.innerLeft] s.atRight .keepRight }

end State

/-- One step toward the goal. -/
def shrink (goal : Goal) (s : State α) : Query α α (State α) :=
  if goal.improves s.atLeft s.atRight then
    let b := s.bracket.dropRight
    ask b.innerLeft fun v => done (s.keepLeft b v)
  else
    let b := s.bracket.dropLeft
    ask b.innerRight fun v => done (s.keepRight b v)

/-- Steps while the bracket is not narrower than the tolerance, at most `fuel` of them. -/
def shrinkings (goal : Goal) (epsilon : α) : Nat → State α → Query α α (State α)
  | 0, s => done s
  | fuel + 1, s =>
    if epsilon ≤ s.bracket.width then do
      let s ← shrink goal s
      shrinkings goal epsilon fuel s
    else done s

/-- The most steps of a search. -/
def maxSteps : Nat := 10000

/-- The search on `[a, b]`. It first looks whether the function is constant there, and goes on in any case. -/
def search (a b epsilon : α) (goal : Goal) : Query α α (Outcome α (Report α)) := do
  if !(← Probe.definedOnMost a b) then return .error (.undefinedOnInterval a b)
  let _ ← Probe.looksConstant a b
  let bracket := Bracket.new a b
  let atLeft ← request bracket.innerLeft
  let atRight ← request bracket.innerRight
  let s ← shrinkings goal epsilon maxSteps { bracket, atLeft, atRight, steps := 0, trace := [] }
  let x := s.bracket.middle
  let fx ← request x
  let status := if s.bracket.width < epsilon then .converged else .iterationLimit
  return .ok { (Report.new [x] fx epsilon status).traced s.trace with
    iterations := s.steps
    nearBoundary := x - a < epsilon || b - x < epsilon
    finalInterval := some (s.bracket.left, s.bracket.right) }

/-- The extremum of `f` in `[a, b]`, if `f` has one only. -/
def findExtremum (f : α → α) (a b epsilon : α) (goal : Goal) : Outcome α (Report α) := do
  checked (checkInterval a b)
  checked (checkEpsilon epsilon)
  Search.run (Search.counted (search a b epsilon goal)) (.line f)

end Numerics.GoldenSection
