import Numerics.Derivative
import Numerics.Probe
import Numerics.Search

/-!
# Minima by Newton steps

From an iterate the search goes to the vertex of the parabola with the slope and curvature there, by at most a
tenth of the interval; where the curvature is too small it goes down the slope instead. It stops at an iterate that
passes a test for a minimum (`classify`) or when it hardly moves. When the iterations run out before, the best sample
of a scan of the interval is reported.
-/

namespace Numerics.Newton

open Query Scalar

variable {α : Type} [Scalar α]

/-- What the search is asked for: where to start, the interval, the tolerance, and whether to keep a history. -/
structure Settings (α : Type) where
  x0 : α
  epsilon : α
  maxIterations : Nat
  a : α
  b : α
  trackSteps : Bool
  deriving Repr

/-- The settings where nothing else is asked for. -/
def Settings.default : Settings α :=
  { x0 := 0, epsilon := place 4, maxIterations := 100, a := -10, b := 10, trackSteps := false }

/-- The settings can be met. -/
def Settings.validate (s : Settings α) : Except (InputError α) Unit := do
  checkInterval s.a s.b
  checkEpsilon s.epsilon
  checkMaxIterations s.maxIterations
  if isFinite s.x0 then return () else throw .startPoint

/-- How a point passes for a minimum: at an end with the function falling toward it, or with no slope and positive
curvature. -/
def classify (s : Settings α) (x : α) (d : Derivatives α) : Option Status :=
  if Scalar.abs (x - s.a) < s.epsilon && 0 < d.first then some (.boundaryMinimum .left)
  else if Scalar.abs (x - s.b) < s.epsilon && d.first < 0 then some (.boundaryMinimum .right)
  else if Scalar.abs d.first < s.epsilon && 0 < d.second then some .localMinimum
  else none

/-- The step from a point with these derivatives. -/
def step (s : Settings α) (d : Derivatives α) : α × Direction :=
  let longest := (s.b - s.a) / 10
  if s.epsilon < Scalar.abs d.second then (clamp (-d.first / d.second) (-longest) longest, .newton)
  else (-place 1 * d.first, .gradient)

/-- The record of an iterate, with its tangent if there is a value. -/
def record (index : Nat) (x fx : α) (d : Derivatives α) (direction : Direction) : Record α :=
  { Record.first index [x] fx direction with
    derivatives := some d
    tangent := if isDefined fx then some (.through d.first x fx) else none }

/-- Where the iteration stopped, with its verdict unless it ran out of steps; values and records, newest first. -/
structure Ending (α : Type) where
  x : α
  verdict : Option Status
  values : List α
  records : List (Record α)

/-- Iterates from `x`, at most `fuel` times. -/
def iterate (s : Settings α) : Nat → Ending α → Query α α (Ending α)
  | 0, e => done e
  | fuel + 1, e => do
    let fx ← request e.x
    let d ← derivatives e.x
    let values := fx :: e.values
    let track (direction : Direction) : List (Record α) :=
      if s.trackSteps then record e.values.length e.x fx d direction :: e.records else e.records
    match classify s e.x d with
    | some status => return { x := e.x, verdict := some status, values, records := track .stay }
    | none =>
      let (move, direction) := step s d
      let next := clamp (e.x + move) s.a s.b
      let records := track direction
      if Scalar.abs (next - e.x) < s.epsilon then
        let there ← derivatives next
        return { x := next, verdict := some ((classify s next there).getD .notAMinimum), values, records }
      else iterate s fuel { x := next, verdict := none, values, records }

/-- The number of steps of the scan that ends a search without a verdict. -/
def rescueSteps : Nat := 50

/-- The best of the ends and of the samples of a scan, and whether slope and curvature there are those of a
minimum. -/
def rescue (s : Settings α) : Query α α (α × Bool) := do
  let fa ← request s.a
  let fb ← request s.b
  let (scanX, scanValue) := (← Probe.scanMinimum s.a s.b rescueSteps).getD (s.a, fa)
  let x := if fa < scanValue && fa < fb then s.a else if fb < scanValue && fb < fa then s.b else scanX
  let slope ← firstDerivative x
  if Scalar.abs slope < s.epsilon then
    let curvature ← secondDerivative x
    return (x, 0 < curvature)
  else return (x, false)

/-- The status says that the point passed for a minimum. -/
def isMinimum : Status → Bool
  | .localMinimum => true
  | .boundaryMinimum _ => true
  | .rescued isMinimum => isMinimum
  | _ => false

/-- The search with valid settings. -/
def search (s : Settings α) : Query α α (Outcome α (Report α)) := do
  let e ← iterate s s.maxIterations { x := clamp s.x0 s.a s.b, verdict := none, values := [], records := [] }
  let (x, status, converged) ← match e.verdict with
    | some status => pure (e.x, status, true)
    | none => do
      let (x, isMinimum) ← rescue s
      pure (x, Status.rescued isMinimum, false)
  let d ← derivatives x
  let fx ← request x
  return .ok { Report.new [x] fx s.epsilon status with
    iterations := e.values.length
    converged
    nearBoundary := Scalar.abs (x - s.a) < s.epsilon || Scalar.abs (x - s.b) < s.epsilon
    isMinimum := some (isMinimum status)
    derivatives := some d
    history := e.records.reverse
    values := e.values.reverse }

/-- A minimum of `f` in the interval of the settings. -/
def findMinimum (f : α → α) (s : Settings α) : Outcome α (Report α) := do
  checked s.validate
  Search.run (Search.counted (search s)) (.line f)

end Numerics.Newton
