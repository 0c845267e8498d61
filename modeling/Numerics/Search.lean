import Numerics.Failure
import Numerics.Report

/-!
# Running a search

A search is a computation that ends with a report or a reason for having none. `Search.run` gives its outcome for an
objective, with the number of values that it asked for, and `Search.runUnder` lets a signal stop it.
-/

namespace Numerics

/-- The outcome of a method: a result, or a reason for having none. -/
abbrev Outcome (α : Type) := Except (RunError α)

/-- The checks of a method's arguments, as part of its outcome. -/
def checked {α : Type} (check : Except (InputError α) Unit) : Outcome α Unit := check.mapError .input

namespace Search

variable {ι α β : Type}

/-- The search with the number of its requests in its report. -/
def counted (s : Query ι α (Outcome α (Report α))) : Query ι α (Outcome α (Report α)) := do
  let (outcome, requests) ← s.counted
  return outcome.map fun r => { r with evaluations := requests }

variable [Scalar α]

/-- The outcome for an objective. -/
@[specialize] def run (s : Query ι α (Outcome α β)) (o : Objective ι α) : Outcome α β := s.value o.guarded

/-- The outcome for an objective under a signal to stop. -/
@[specialize] def runUnder (s : Query ι α (Outcome α β)) (o : Objective ι α) (stop : StopSignal) : Outcome α β :=
  (o.execute stop 0 s).getD (.error .cancelled)

end Search

end Numerics
