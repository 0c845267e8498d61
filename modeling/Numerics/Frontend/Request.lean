import Numerics.Display
import Numerics.Extremum.GoldenSection
import Numerics.Formula.Objective
import Numerics.Frontend.Settings
import Numerics.LeastSquares
import Numerics.Plot.Contour
import Numerics.Plot.Curve
import Numerics.Plot.Surface
import Numerics.Root.Bisection
import Numerics.Root.GoldenCut

/-!
# Requests of a front end

Each request takes formulas as text and settings as untyped values, and answers with a result or one `Error`. Names
and settings are read before the formula is compiled, and the method checks its arguments last.
-/

namespace Numerics.Frontend

/-- A formula of as many variables as the dimension says. -/
def compile (text : String) (dimension : Nat) : Except Error Formula :=
  match dimension with
  | 1 => (Formula.ofX text).mapError (.compile text)
  | 2 => (Formula.ofXY text).mapError (.compile text)
  | n => .error (.unsupportedDimension n)

/-- The outcome of a method as an answer. -/
def ran {β : Type} (method : Method) (outcome : Outcome Float β) : Except Error β := outcome.mapError (.run method)

/-- A root of a formula by bisection. -/
def findRootBisection (text : String) (a b epsilon : Float) : Except Error (Report Float) := do
  let f ← compile text 1
  ran .bisection (Bisection.findRoot f.line a b epsilon)

/-- A root of a formula by golden cuts. -/
def findRootGolden (text : String) (a b epsilon : Float) : Except Error (Report Float) := do
  let f ← compile text 1
  ran .goldenRoot (GoldenCut.findRoot f.line a b epsilon)

/-- An extremum of a formula by golden sections. -/
def findExtremumGolden (text : String) (a b epsilon : Float) (goalName : String) :
    Except Error (Report Float) := do
  let goal ← goal goalName
  let f ← compile text 1
  ran .goldenExtremum (GoldenSection.findExtremum f.line a b epsilon goal)

/-- An extremum of a formula of two variables. -/
def findExtremumPlane (text : String) (v : Option Value) : Except Error (Report Float) := do
  let s ← axisSettings v
  let f ← compile text 2
  ran .axisSearch (AxisSearch.findExtremum f.plane s .never)

/-- A minimum of a formula by Newton steps. -/
def findMinimumNewton (text : String) (v : Option Value) : Except Error (Report Float) := do
  let s ← newtonSettings v
  let f ← compile text 1
  ran .newton (Newton.findMinimum f.line s)

/-- The integral of a formula with a given count. -/
def integrateFixed (text : String) (a b : Float) (n : UInt64) (ruleNames : Option Value) :
    Except Error (List (Integral.Estimate Float)) := do
  let rules ← rules ruleNames
  let f ← compile text 1
  ran .fixedIntegral (Integral.integrateFixed f.line a b n rules)

/-- The integral of a formula with growing counts. -/
def integrateAdaptive (text : String) (a b : Float) (v ruleNames : Option Value) :
    Except Error (List (Integral.Estimate Float)) := do
  let s ← adaptiveSettings v
  let rules ← rules ruleNames
  let f ← compile text 1
  ran .adaptiveIntegral (Integral.integrateAdaptive f.line a b s rules .never)

/-- The points with these coordinates. -/
def zipPoints (xs ys : List Float) : Except Error (List (Float × Float)) :=
  if xs.length = ys.length then .ok (xs.zip ys) else .error (.lengths xs.length ys.length)

/-- The line through points. -/
def fitLinear (xs ys : List Float) : Except Error (LeastSquares.Fit Float) := do
  let points ← zipPoints xs ys
  ran .linearFit (LeastSquares.linear points)

/-- The parabola through points. -/
def fitQuadratic (xs ys : List Float) : Except Error (LeastSquares.Fit Float) := do
  let points ← zipPoints xs ys
  ran .quadraticFit (LeastSquares.quadratic points)

/-! ## Requests on a compiled formula -/

/-- The value of a formula at a point. -/
def evaluate (f : Formula) (values : List Float) : Except Error Float :=
  (f.evaluate values).mapError (.evaluate f.source)

/-- A view needs a formula of as many variables as it has axes. -/
def requireDimension (f : Formula) (needed : Nat) : Except Error Unit :=
  if f.dimension = needed then .ok () else .error (.wrongDimension f.source f.dimension needed)

/-- The graph of a formula of one variable. -/
def curve (f : Formula) (a b : Float) (samples : Nat) : Except Error (List (Float × Option Float)) := do
  requireDimension f 1
  (Plot.curve f.line a b samples).mapError (.view .curve)

/-- The surface of a formula of two variables. -/
def surface (f : Formula) (xRange yRange : Float × Float) (resolution : Nat) :
    Except Error (Plot.Surface Float) := do
  requireDimension f 2
  (Plot.surface f.plane xRange yRange resolution).mapError (.view .surface)

/-- The contour lines of a formula of two variables. -/
def contourLines (f : Formula) (xRange yRange : Float × Float) (levels resolution : Nat) :
    Except Error (List (Plot.ContourLine Float)) := do
  requireDimension f 2
  (Plot.contourLines f.plane xRange yRange levels resolution).mapError (.view .contours)

end Numerics.Frontend
