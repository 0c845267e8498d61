import Numerics.Extremum.AxisSearch
import Numerics.Extremum.Newton
import Numerics.Frontend.Error
import Numerics.Frontend.Value
import Numerics.Integral.Adaptive

/-!
# Settings and names from a front end

Nothing, or null, asks for the defaults; so does a member that is missing, and members with unknown names are
ignored. A member of the wrong type makes the settings invalid as a whole.
-/

namespace Numerics.Frontend

/-- Settings from an object; the defaults for nothing. -/
def settings {σ : Type} (default : σ) (read : List (String × Value) → Option σ) (v : Option Value) :
    Except Error σ :=
  match v with
  | none | some .null => .ok default
  | some v =>
    match v.fields? >>= read with
    | some s => .ok s
    | none => .error .invalidSettings

/-- The settings of a Newton search. -/
def newtonSettings : Option Value → Except Error (Newton.Settings Float) :=
  let d : Newton.Settings Float := .default
  settings d fun fields => do
    let x0 ← member fields "x0" d.x0 Value.float?
    let epsilon ← member fields "epsilon" d.epsilon Value.float?
    let maxIterations ← member fields "max_iterations" d.maxIterations Value.count?
    let a ← member fields "a" d.a Value.float?
    let b ← member fields "b" d.b Value.float?
    let trackSteps ← member fields "track_steps" d.trackSteps Value.bool?
    return { x0, epsilon, maxIterations, a, b, trackSteps }

/-- A goal by its name among the settings. -/
def goal? : Value → Option Goal
  | .text "Minimize" => some .minimize
  | .text "Maximize" => some .maximize
  | _ => none

/-- A point that may be left open. -/
def start? : Value → Option (Option (Float × Float))
  | .null => some none
  | v => v.pair?.map some

/-- The settings of a search along the axes. -/
def axisSettings : Option Value → Except Error (AxisSearch.Settings Float) :=
  let d : AxisSearch.Settings Float := .default
  settings d fun fields => do
    let xRange ← member fields "x_range" d.xRange Value.pair?
    let yRange ← member fields "y_range" d.yRange Value.pair?
    let epsilon ← member fields "epsilon" d.epsilon Value.float?
    let goal ← member fields "goal" d.goal goal?
    let start ← member fields "start" d.start start?
    let maxIterations ← member fields "max_iterations" d.maxIterations Value.count?
    let lambda ← member fields "lambda" d.lambda Value.float?
    return { xRange, yRange, epsilon, goal, start, maxIterations, lambda }

/-- The settings of an adaptive integration. -/
def adaptiveSettings : Option Value → Except Error (Integral.Settings Float) :=
  let d : Integral.Settings Float := .default
  settings d fun fields => do
    let epsilon ← member fields "epsilon" d.epsilon Value.float?
    let initial ← member fields "initial_n" d.initialCount.toNat Value.count?
    return { epsilon, initialCount := .ofNat initial }

/-- The name of a rule. -/
def ruleName : Rule → String
  | .leftRectangles => "RectangleLeft"
  | .rightRectangles => "RectangleRight"
  | .midpoints => "RectangleMidpoint"
  | .trapezoids => "Trapezoid"
  | .simpson => "Simpson"

/-- The rule of a name. -/
def rule? : Value → Option Rule
  | .text name => Rule.all.find? (ruleName · == name)
  | _ => none

/-- The rules of a list of names; all of them for nothing. -/
def rules (v : Option Value) : Except Error (List Rule) :=
  match v with
  | none | some .null => .ok Rule.all
  | some (.list items) =>
    match items.mapM rule? with
    | some [] => .error .noRules
    | some rules => .ok rules
    | none => .error .invalidRules
  | some _ => .error .invalidRules

/-- A goal by one of its names in a request. -/
def goal (text : String) : Except Error Goal :=
  if ["min", "minimum", "minimize"].contains text then .ok .minimize
  else if ["max", "maximum", "maximize"].contains text then .ok .maximize
  else .error (.unknownGoal text)

end Numerics.Frontend
