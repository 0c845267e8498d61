import Numerics.Query
import Numerics.Scalar

/-!
# Objectives

An objective may answer anything, and methods must not depend on that: they see its guarded values. An input that is
not finite or too large is not passed on, and an answer that is not finite or too large counts as undefined; both
give the sentinel `Scalar.undefined`, which is large and finite, so that comparisons with it mean something.

`Objective.execute` runs a computation on the guarded values under a signal that may tell it to stop.
-/

namespace Numerics

variable {α : Type} [Scalar α]

/-- Larger inputs are not passed to objectives. -/
@[inline] def inputLimit : α := 10000000000

/-- An input that may be passed to an objective. -/
@[inline] def withinLimit (x : α) : Bool := Scalar.isFinite x && Scalar.abs x ≤ inputLimit

/-- A value that a method can use: finite, and smaller than the sentinel. -/
@[inline] def isDefined (v : α) : Bool := Scalar.isFinite v && Scalar.abs v < Scalar.undefined

/-- The value if it is defined, else the sentinel. -/
@[inline] def sanitize (v : α) : α := if isDefined v then v else Scalar.undefined

/-- The value as an answer that may be missing. -/
@[inline] def defined? (v : α) : Option α := if isDefined v then some v else none

/-- A function to be searched or integrated, and the inputs at which it may be called. -/
structure Objective (ι α : Type) where
  admits : ι → Bool
  value : ι → α

namespace Objective

/-- A function of one variable. -/
@[inline] def line (f : α → α) : Objective α α := ⟨withinLimit, f⟩

/-- A function of two variables. -/
@[inline] def plane (f : α → α → α) : Objective (α × α) α :=
  ⟨fun p => withinLimit p.1 && withinLimit p.2, fun p => f p.1 p.2⟩

variable {ι : Type}

/-- The value that methods see. -/
@[inline] def guarded (o : Objective ι α) (x : ι) : α :=
  if o.admits x then sanitize (o.value x) else Scalar.undefined

end Objective

/-- When a run is told to stop: never, or once the objective has been called a number of times. -/
inductive StopSignal where
  | never
  | afterCalls (n : Nat)
  deriving Repr, DecidableEq

/-- The run has been told to stop when the objective has been called `calls` times. -/
def StopSignal.isSet (calls : Nat) : StopSignal → Bool
  | .never => false
  | .afterCalls n => n ≤ calls

namespace Objective

variable {ι β : Type}

/-- The result of a computation on the guarded values, after `calls` calls of the objective; none if it was told to
stop at a checkpoint. -/
@[specialize] def execute (o : Objective ι α) (stop : StopSignal) (calls : Nat) : Query ι α β → Option β
  | .done b => some b
  | .ask x next =>
    if o.admits x then o.execute stop (calls + 1) (next (sanitize (o.value x)))
    else o.execute stop calls (next Scalar.undefined)
  | .checkpoint next => if stop.isSet calls then none else o.execute stop calls next

end Objective

end Numerics
