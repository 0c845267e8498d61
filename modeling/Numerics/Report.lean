import Numerics.Objective
import Numerics.Side

/-!
# What a search reports

A `Record` tells what one iteration did, a `Status` how a search ended, and a `Report` is its outcome. `Trace` is
the history that a search keeps on its way, newest record first.
-/

namespace Numerics

/-- What an iteration did. -/
inductive Direction where
  /-- Nothing yet: the point the search starts from. -/
  | start
  /-- Kept the left part of a bracket. -/
  | keepLeft
  /-- Kept the right part of a bracket. -/
  | keepRight
  /-- Moved along the first axis. -/
  | axisX
  /-- Moved along the second axis. -/
  | axisY
  /-- Did not move: nothing improved, or the point was accepted. -/
  | stay
  /-- Made the step to the vertex of the local parabola. -/
  | newton
  /-- Made a step down the slope, where the curvature is too small. -/
  | gradient
  deriving Repr, DecidableEq

/-- The line `slope * x + intercept`. -/
structure Tangent (α : Type) where
  slope : α
  intercept : α
  deriving Repr, DecidableEq

/-- Difference quotients of the first and second order at a point. -/
structure Derivatives (α : Type) where
  first : α
  second : α
  deriving Repr, DecidableEq

/-- One iteration. -/
structure Record (α : Type) where
  index : Nat
  /-- One coordinate for each variable. -/
  point : List α
  value : α
  /-- The change of each coordinate since the record before. -/
  deltas : List α
  /-- The change of the value since the record before, 0 unless both values are defined. -/
  deltaValue : α
  direction : Direction
  derivatives : Option (Derivatives α)
  tangent : Option (Tangent α)
  deriving Repr, DecidableEq

/-- How a search ended. -/
inductive Status where
  /-- The tolerance was met. -/
  | converged
  /-- The iterations ran out. -/
  | iterationLimit
  /-- The value became undefined, and the best point so far was kept. -/
  | interrupted
  /-- The slope vanishes and the curvature is positive. -/
  | localMinimum
  /-- At an end of the interval, with the function falling toward it. -/
  | boundaryMinimum (side : Side)
  /-- The search settled at a point that passes no test for a minimum. -/
  | notAMinimum
  /-- The iterations ran out and a scan gave the point. -/
  | rescued (isMinimum : Bool)
  deriving Repr, DecidableEq

/-- The outcome of a search. -/
structure Report (α : Type) where
  point : List α
  value : α
  iterations : Nat
  converged : Bool
  nearBoundary : Bool
  status : Status
  history : List (Record α)
  /-- The value after each iteration. -/
  values : List α
  /-- The number of values that the search asked for. -/
  evaluations : Nat
  epsilon : α
  /-- The bracket that is left. -/
  finalInterval : Option (α × α)
  /-- The point passes a test for a minimum. -/
  isMinimum : Option Bool
  derivatives : Option (Derivatives α)
  deriving Repr, DecidableEq

/-! ## Texts -/

/-- The end of a search in words. -/
def Status.describe : Status → String
  | converged => "converged"
  | iterationLimit => "iteration limit reached"
  | interrupted => "stopped at an undefined value"
  | localMinimum => "local minimum"
  | boundaryMinimum .left => "minimum on the left boundary"
  | boundaryMinimum .right => "minimum on the right boundary"
  | notAMinimum => "stationary point is not a minimum"
  | rescued true => "recovered by scan: minimum"
  | rescued false => "recovered by scan: not a minimum"

/-- The end of a search in one line. -/
def Report.summary {α : Type} (r : Report α) : String :=
  if r.nearBoundary then r.status.describe ++ " (near boundary)" else r.status.describe

/-! ## Building records and reports -/

variable {α : Type} [Scalar α]

/-- The height of a line at `x`. -/
def Tangent.at (t : Tangent α) (x : α) : α := t.slope * x + t.intercept

namespace Record

/-- A record without a predecessor. -/
def first (index : Nat) (point : List α) (value : α) (direction : Direction) : Record α :=
  { index, point, value, deltas := point.map fun _ => 0, deltaValue := 0, direction, derivatives := none,
    tangent := none }

/-- The record with its changes since another one. -/
def since (r previous : Record α) : Record α :=
  { r with
    deltas := r.point.zipWith (fun now before => now - before) previous.point
    deltaValue := if isDefined r.value && isDefined previous.value then r.value - previous.value else 0 }

end Record

/-- A history, newest record first. -/
abbrev Trace (α : Type) := List (Record α)

/-- The history with one more record. -/
def Trace.add (t : Trace α) (index : Nat) (point : List α) (value : α) (direction : Direction) : Trace α :=
  let record := Record.first index point value direction
  match t with
  | [] => [record]
  | previous :: _ => record.since previous :: t

namespace Report

/-- The outcome of a search that kept no history. -/
def new (point : List α) (value epsilon : α) (status : Status) : Report α :=
  { point, value, iterations := 0, converged := status == .converged || status == .localMinimum,
    nearBoundary := false, status, history := [], values := [], evaluations := 0, epsilon,
    finalInterval := none, isMinimum := none, derivatives := none }

/-- The outcome of a search that accepts an end of its interval at once. -/
def atEnd (x value epsilon : α) : Report α :=
  { new [x] value epsilon .converged with
    history := [.first 0 [x] value .start]
    values := [value] }

/-- The outcome with its history, each record with its value. -/
def traced (r : Report α) (t : Trace α) : Report α :=
  { r with history := t.reverse, values := t.reverse.map (·.value) }

/-- The first coordinate, 0 without one. -/
def x (r : Report α) : α := r.point.head?.getD 0

/-- The second coordinate. -/
def y? (r : Report α) : Option α := r.point[1]?

end Report

end Numerics
