import Numerics.Plot.Grid

/-!
# Height fields

A surface is drawn over a square grid of nodes, row by row along the first axis. Heights that are undefined or too
large are drawn as 0.
-/

namespace Numerics.Plot

variable {α : Type} [Scalar α]

/-- Heights of this magnitude and beyond are not drawn. -/
def heightLimit : α := ((Nat.pow 10 50 : Nat) : α)

/-- The height to be drawn. -/
def drawn (z : α) : α := if isDefined z && Scalar.abs z < heightLimit then z else 0

/-- A height field: points `(x, y, z)` over the nodes of a box, row by row. -/
structure Surface (α : Type) where
  resolution : Nat
  points : List (α × α × α)
  deriving Repr

namespace Surface

/-- The number of nodes on each side. -/
def side (s : Surface α) : Nat := s.resolution + 1

/-- The height at the node `ix` of the row `iy`, indices being machine words. -/
def height? (s : Surface α) (ix iy : UInt64) : Option α :=
  s.points[(iy * .ofNat s.side + ix).toNat]?.map fun p => p.2.2

end Surface

/-- The height field of `f` over a box. -/
def surface (f : α → α → α) (xRange yRange : α × α) (resolution : Nat) : Except (InputError α) (Surface α) := do
  checkBox xRange yRange resolution
  let points := (nodes yRange resolution).flatMap fun y =>
    (nodes xRange resolution).map fun x => (x, y, drawn ((Objective.plane f).guarded (x, y)))
  return { resolution, points }

end Numerics.Plot
