import Numerics.Failure
import Numerics.Objective

/-!
# Evenly spaced nodes

Plots sample a range at `n + 1` nodes, the last of them exactly its end.
-/

namespace Numerics.Plot

variable {α : Type} [Scalar α]

/-- The node `i` of `n` equal steps over a range. -/
def node (range : α × α) (i n : Nat) : α :=
  if i = n then range.2 else range.1 + (range.2 - range.1) * (i : α) / (n : α)

/-- The nodes of `n` equal steps over a range. -/
def nodes (range : α × α) (n : Nat) : List α := (List.range (n + 1)).map fun i => node range i n

/-- A range of `n` steps. -/
def checkRange (range : α × α) (n : Nat) : Except (InputError α) Unit := do
  checkInterval range.1 range.2
  checkSubintervals n

/-- A box of `n` steps on each side. -/
def checkBox (xRange yRange : α × α) (n : Nat) : Except (InputError α) Unit := do
  checkInterval xRange.1 xRange.2
  checkInterval yRange.1 yRange.2
  checkSubintervals n

end Numerics.Plot
