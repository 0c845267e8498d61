import Numerics.Goal
import Numerics.Search

/-!
# Extrema of two variables by searches along the axes

The search moves along the first and the second axis in turn. Each move looks on which side of the point the
function improves, halves the stretch there by the local slope until it is no longer than the tolerance, and goes to
its middle if the value there is strictly better. The search ends when neither axis moves the point far any more.
-/

namespace Numerics.AxisSearch

open Query Scalar

variable {α : Type} [Scalar α]

/-- What the search is asked for: the box, the tolerance, the goal, where to start (the middle of the box if nothing
is said), the most iterations, and the longest move. -/
structure Settings (α : Type) where
  xRange : α × α
  yRange : α × α
  epsilon : α
  goal : Goal
  start : Option (α × α)
  maxIterations : Nat
  lambda : α
  deriving Repr

namespace Settings

/-- The settings where nothing else is asked for. -/
def default : Settings α :=
  { xRange := (-5, 5), yRange := (-5, 5), epsilon := place 3, goal := .minimize, start := none,
    maxIterations := 1000, lambda := 1 }

/-- The settings can be met. -/
def validate (s : Settings α) : Except (InputError α) Unit := do
  checkInterval s.xRange.1 s.xRange.2
  checkInterval s.yRange.1 s.yRange.2
  checkEpsilon s.epsilon
  checkLambda s.lambda
  checkMaxIterations s.maxIterations
  match s.start with
  | none => return ()
  | some (x, y) => if isFinite x && isFinite y then return () else throw .startPoint

/-- The point at which the search starts, in the box. -/
def startPoint (s : Settings α) : α × α :=
  let p := s.start.getD ((s.xRange.1 + s.xRange.2) / 2, (s.yRange.1 + s.yRange.2) / 2)
  (clamp p.1 s.xRange.1 s.xRange.2, clamp p.2 s.yRange.1 s.yRange.2)

/-- The number is within the tolerance of an end of the range. -/
def nearEnd (s : Settings α) (v : α) (range : α × α) : Bool :=
  Scalar.abs (v - range.1) < s.epsilon || Scalar.abs (v - range.2) < s.epsilon

/-- The point is within the tolerance of the edge of the box. -/
def nearEdge (s : Settings α) (p : α × α) : Bool := s.nearEnd p.1 s.xRange || s.nearEnd p.2 s.yRange

end Settings

/-- One of the two axes. -/
inductive Axis where
  | x
  | y
  deriving Repr, DecidableEq

namespace Axis

/-- The coordinate of a point on the axis. -/
def coordinate (axis : Axis) (p : α × α) : α :=
  match axis with
  | x => p.1
  | y => p.2

/-- The point with another coordinate on the axis. -/
def move (axis : Axis) (p : α × α) (t : α) : α × α :=
  match axis with
  | x => (t, p.2)
  | y => (p.1, t)

/-- The range of the box on the axis. -/
def range (axis : Axis) (s : Settings α) : α × α :=
  match axis with
  | x => s.xRange
  | y => s.yRange

/-- The direction of a move along the axis. -/
def direction : Axis → Direction
  | x => .axisX
  | y => .axisY

/-- The axis of an iteration: the first one of the odd ones. -/
def ofIteration (i : Nat) : Axis := if i % 2 = 1 then x else y

end Axis

/-- Halves the stretch `[left, right]` until it is no longer than the tolerance, at most `fuel` times, keeping the
upper half where the function improves toward the upper end at the middle.  In exact arithmetic the halvings that `refine`
allows are enough.  Machine numbers far from zero are further apart than a small tolerance: there the stretch may come down to
two neighbours that halving leaves as they are for ever, and `refine` ends with them once its halvings are used up. -/
def refineWithin (goal : Goal) (epsilon : α) (along : α → α × α) : Nat → α → α → Query (α × α) α (α × α)
  | 0, left, right => done (left, right)
  | fuel + 1, left, right =>
    if epsilon < right - left then
      let mid := (left + right) / 2
      ask (along (mid + epsilon / 10)) fun ahead =>
        ask (along mid) fun here =>
          if goal.improves ahead here then refineWithin goal epsilon along fuel mid right
          else refineWithin goal epsilon along fuel left mid
    else done (left, right)

/-- The middle of the refined stretch. -/
def refine (goal : Goal) (epsilon : α) (along : α → α × α) (left right : α) : Query (α × α) α α := do
  let (left, right) ← refineWithin goal epsilon along (halvings (right - left) epsilon) left right
  return (left + right) / 2

/-- The stretch on the side of `position` on which the function improves, no longer than the longest move. -/
def stretch (s : Settings α) (axis : Axis) (position back forward : α) : α × α :=
  if s.goal.improves forward back then (position, least (position + s.lambda) (axis.range s).2)
  else (greatest (position - s.lambda) (axis.range s).1, position)

/-- The coordinate on the axis to move to, and the value there, if that is strictly better than `value`. -/
def axisStep (s : Settings α) (axis : Axis) (p : α × α) (value : α) : Query (α × α) α (Option (α × α)) := do
  let position := axis.coordinate p
  let back ← request (axis.move p (greatest (position - s.epsilon) (axis.range s).1))
  let forward ← request (axis.move p (least (position + s.epsilon) (axis.range s).2))
  let (left, right) := stretch s axis position back forward
  if right - left ≤ s.epsilon then return none
  let t ← refine s.goal s.epsilon (axis.move p) left right
  let candidate ← request (axis.move p t)
  return if s.goal.improves candidate value then some (t, candidate) else none

/-- The point, the best one so far, the length of the last move, and the history. -/
structure State (α : Type) where
  point : α × α
  value : α
  best : α × α
  bestValue : α
  lastMove : Option α
  iterations : Nat
  trace : Trace α

namespace State

/-- The state at the start. -/
def initial (p : α × α) (value : α) : State α :=
  { point := p, value, best := p, bestValue := value, lastMove := none, iterations := 0,
    trace := Trace.add [] 0 [p.1, p.2] value .start }

/-- How far the point is from another one that differs in one coordinate at most. -/
def distance (p q : α × α) : α := Scalar.abs (p.1 - q.1) + Scalar.abs (p.2 - q.2)

/-- The state after an iteration that came to a point. -/
def advance (s : State α) (goal : Goal) (axis : Axis) (p : α × α) (value : α) : State α :=
  let moved := distance p s.point
  let direction := if 0 < moved then axis.direction else .stay
  let better := goal.improves value s.bestValue
  { point := p, value, best := if better then p else s.best, bestValue := if better then value else s.bestValue,
    lastMove := some moved, iterations := s.iterations + 1,
    trace := s.trace.add (s.iterations + 1) [p.1, p.2] value direction }

/-- The last two moves were shorter than twice the tolerance; `earlier` is the one before the last. -/
def settled (s : State α) (epsilon : α) (earlier : Option α) : Bool :=
  s.lastMove.any (· < 2 * epsilon) && earlier.any (· < 2 * epsilon)

end State

/-- One iteration. -/
def step (settings : Settings α) (s : State α) : Query (α × α) α (State α) := do
  let axis := Axis.ofIteration (s.iterations + 1)
  match ← axisStep settings axis s.point s.value with
  | some (t, candidate) => return s.advance settings.goal axis (axis.move s.point t) candidate
  | none => return s.advance settings.goal axis s.point s.value

/-- Iterates until the search settles or the value is undefined, at most `fuel` times, and lets itself be stopped
before each iteration. -/
def iterate (settings : Settings α) : Nat → State α → Query (α × α) α (State α × Status)
  | 0, s => done (s, .iterationLimit)
  | fuel + 1, s => do
    check
    let next ← step settings s
    if !isDefined next.value then return (next, .interrupted)
    else if next.settled settings.epsilon s.lastMove then return (next, .converged)
    else iterate settings fuel next

/-- The search with valid settings. -/
def search (settings : Settings α) : Query (α × α) α (Outcome α (Report α)) := do
  let p := settings.startPoint
  let value ← request p
  let (s, status) ← iterate settings settings.maxIterations (.initial p value)
  return .ok { (Report.new [s.best.1, s.best.2] s.bestValue settings.epsilon status).traced s.trace with
    iterations := s.iterations
    nearBoundary := settings.nearEdge s.best }

/-- An extremum of `f` in the box of the settings, unless the signal stops it. -/
def findExtremum (f : α → α → α) (settings : Settings α) (stop : StopSignal) : Outcome α (Report α) := do
  checked settings.validate
  Search.runUnder (Search.counted (search settings)) (.plane f) stop

end Numerics.AxisSearch
