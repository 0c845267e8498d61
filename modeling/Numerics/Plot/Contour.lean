import Numerics.Plot.Grid

/-!
# Contour lines

Level sets of a function sampled on a grid, one cell of four nodes at a time. The corners of a cell lie on or above
the level, or below it; wherever two neighbouring corners differ the line crosses their edge, at the point where the
linear interpolation of the two heights meets the level, and each cell joins its crossings in pairs.
-/

namespace Numerics.Plot

open Scalar

variable {α : Type} [Scalar α]

/-- The piece of a line between two points. -/
structure Segment (α : Type) where
  start : α × α
  finish : α × α
  deriving Repr

/-- One level set. -/
structure ContourLine (α : Type) where
  level : α
  segments : List (Segment α)
  deriving Repr

/-- An edge of a cell. -/
inductive Edge where
  | bottom
  | right
  | top
  | left
  deriving Repr, DecidableEq

/-- The edges that are joined in a cell, given which corners lie on or above the level: counter-clockwise from the
lower left one. -/
def joinedEdges : Bool → Bool → Bool → Bool → List (Edge × Edge)
  | true, false, false, false | false, true, true, true => [(.left, .bottom)]
  | false, true, false, false | true, false, true, true => [(.bottom, .right)]
  | true, true, false, false | false, false, true, true => [(.left, .right)]
  | false, false, true, false | true, true, false, true => [(.right, .top)]
  | true, false, true, false => [(.left, .top), (.bottom, .right)]
  | false, true, true, false | true, false, false, true => [(.bottom, .top)]
  | true, true, true, false | false, false, false, true => [(.left, .top)]
  | false, true, false, true => [(.bottom, .left), (.right, .top)]
  | false, false, false, false | true, true, true, true => []

/-- A cell of the grid and the heights of its corners above the level, counter-clockwise from the lower left one. -/
structure Cell (α : Type) where
  x0 : α
  x1 : α
  y0 : α
  y1 : α
  v0 : α
  v1 : α
  v2 : α
  v3 : α

/-- Where the heights from `a` to `b` reach zero, as a fraction of the way; half-way if they hardly differ. -/
def crossingFraction (a b : α) : α :=
  if Scalar.abs (a - b) ≤ place 12 then half else clamp (a / (a - b)) 0 1

namespace Cell

/-- The point of an edge at which the line crosses it. -/
def crossing (c : Cell α) : Edge → α × α
  | .bottom => (c.x0 + (c.x1 - c.x0) * crossingFraction c.v0 c.v1, c.y0)
  | .right => (c.x1, c.y0 + (c.y1 - c.y0) * crossingFraction c.v1 c.v2)
  | .top => (c.x1 + (c.x0 - c.x1) * crossingFraction c.v2 c.v3, c.y1)
  | .left => (c.x0, c.y1 + (c.y0 - c.y1) * crossingFraction c.v3 c.v0)

/-- The pieces of the line in the cell. -/
def segments (c : Cell α) : List (Segment α) :=
  (joinedEdges (0 ≤ c.v0) (0 ≤ c.v1) (0 ≤ c.v2) (0 ≤ c.v3)).map fun (a, b) => ⟨c.crossing a, c.crossing b⟩

end Cell

/-- Heights over the nodes of a box, row by row; none where the function is undefined. -/
structure HeightGrid (α : Type) where
  xs : Array α
  ys : Array α
  heights : Array (Option α)

namespace HeightGrid

/-- The heights of `f` over a box. -/
def sample (f : α → α → α) (xRange yRange : α × α) (resolution : Nat) : HeightGrid α :=
  let xs := nodes xRange resolution
  let ys := nodes yRange resolution
  let heights := ys.flatMap fun y => xs.map fun x => defined? ((Objective.plane f).guarded (x, y))
  { xs := xs.toArray, ys := ys.toArray, heights := heights.toArray }

/-- The height at the node `ix` of the row `iy`. -/
def height? (g : HeightGrid α) (ix iy : Nat) : Option α := g.heights[iy * g.xs.size + ix]?.join

/-- The cell with the lower left node `ix` of the row `iy`, if its four heights are defined. -/
def cell? (g : HeightGrid α) (level : α) (ix iy : Nat) : Option (Cell α) := do
  let v0 ← g.height? ix iy
  let v1 ← g.height? (ix + 1) iy
  let v2 ← g.height? (ix + 1) (iy + 1)
  let v3 ← g.height? ix (iy + 1)
  let x0 ← g.xs[ix]?
  let x1 ← g.xs[ix + 1]?
  let y0 ← g.ys[iy]?
  let y1 ← g.ys[iy + 1]?
  return { x0, x1, y0, y1, v0 := v0 - level, v1 := v1 - level, v2 := v2 - level, v3 := v3 - level }

/-- The pieces of a level set, cell by cell. -/
def levelSet (g : HeightGrid α) (level : α) (resolution : Nat) : List (Segment α) :=
  (List.range resolution).flatMap fun iy =>
    (List.range resolution).flatMap fun ix =>
      match g.cell? level ix iy with
      | some c => c.segments
      | none => []

/-- The least and the greatest height, if two heights at least are defined. -/
def bounds? (g : HeightGrid α) : Option (α × α) :=
  match g.heights.toList.filterMap id with
  | z :: z' :: rest => some ((z' :: rest).foldl least z, (z' :: rest).foldl greatest z)
  | _ => none

end HeightGrid

/-- The level `k` of `levels` levels evenly spread strictly between two heights. -/
def levelBetween (lo hi : α) (levels k : Nat) : α :=
  lo + ((k + 1 : Nat) : α) * (hi - lo) / ((levels + 1 : Nat) : α)

/-- Heights that differ by less are of one height. -/
def flatRange : α := place 10

/-- The contour lines of `f` over a box; none if it is flat there or hardly defined. -/
def contourLines (f : α → α → α) (xRange yRange : α × α) (levels resolution : Nat) :
    Except (InputError α) (List (ContourLine α)) := do
  checkBox xRange yRange resolution
  let g := HeightGrid.sample f xRange yRange resolution
  match g.bounds? with
  | none => return []
  | some (lo, hi) =>
    if hi - lo < flatRange then return []
    else return (List.range levels).map fun k =>
      let level := levelBetween lo hi levels k
      { level, segments := g.levelSet level resolution }

end Numerics.Plot
