import Numerics.Frontend.Request
import Numerics.Proofs.Formula.Evaluation
import Numerics.Proofs.Formula.Grammar
import Numerics.Proofs.Formula.Idempotence
import Numerics.Proofs.Formula.PowerReading
import Numerics.Proofs.Extremum.AxisBox
import Numerics.Proofs.Integral.Schedule
import Numerics.Session
import Numerics.Proofs.Formula.Site
import Numerics.Proofs.Text.CaseContext
import Numerics.Proofs.Formula.Clash
import Numerics.Proofs.Formula.SpacedPasses
import Numerics.Proofs.Formula.Surface
import Numerics.Proofs.Formula.SpacedStages
import Numerics.Proofs.Formula.Spaces
import Numerics.Proofs.Formula.SpacedCalls
import Numerics.Proofs.Cancellation
import Numerics.Proofs.Root.Residual
import Numerics.Proofs.Reported
import Numerics.Proofs.History
import Numerics.Proofs.Extremum.Mirror
import Numerics.Proofs.Plot.Levels
import Numerics.Proofs.Integral.Undefined
import Numerics.Proofs.Extremum.NewtonVerdict
import Numerics.Proofs.Extremum.NewtonTrajectory
import Numerics.Proofs.Integral.SizeCap
import Numerics.Proofs.Integral.Exactness
import Numerics.Proofs.Integral.Agreement
import Numerics.Proofs.Root.Halvings
import Numerics.Proofs.Formula.Faults
import Numerics.Proofs.Plot.Heights
import Numerics.Proofs.Extremum.BestSample
import Numerics.Proofs.Formula.PassLimit
import Numerics.Proofs.LeastSquares
import Numerics.Proofs.Narrowing
import Numerics.Proofs.Root.Cuts
import Numerics.Proofs.Extremum.Sections
import Numerics.Proofs.Extremum.NewtonParabola
import Numerics.Proofs.Extremum.LineOptimum
import Numerics.Proofs.Integral.FirstCounts
import Numerics.Proofs.Integral.GrowthFactors
import Numerics.Proofs.Integral.Visits
import Numerics.Proofs.Formula.Spans
import Numerics.Proofs.Formula.StackHeight
