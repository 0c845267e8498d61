import Numerics.Derivative
import Numerics.Plot.Grid

/-!
# Curves, tangents and gradients
-/

namespace Numerics.Plot

variable {α : Type} [Scalar α]

/-- The graph of `f` over `[a, b]` at `samples + 1` nodes, with gaps where it is undefined. -/
def curve (f : α → α) (a b : α) (samples : Nat) : Except (InputError α) (List (α × Option α)) := do
  checkRange (a, b) samples
  return (nodes (a, b) samples).map fun x => (x, defined? ((Objective.line f).guarded x))

/-- The tangent to `f` at `x`, if `f` is defined there. -/
def tangentLine? (f : α → α) (x : α) : Option (Tangent α) := (tangent? x).value (Objective.line f).guarded

/-- The gradient of `f` by central differences, if the samples are defined and the quotients finite. -/
def gradient? (f : α → α → α) (x y step : α) : Option (α × α) :=
  let at_ (x y : α) : α := (Objective.plane f).guarded (x, y)
  let right := at_ (x + step) y
  let left := at_ (x - step) y
  let above := at_ x (y + step)
  let below := at_ x (y - step)
  let allDefined := isDefined right && isDefined left && isDefined above && isDefined below
  if !Scalar.isFinite step || step ≤ 0 || !allDefined then none
  else
    let gx := (right - left) / (2 * step)
    let gy := (above - below) / (2 * step)
    if Scalar.isFinite gx && Scalar.isFinite gy then some (gx, gy) else none

end Numerics.Plot
