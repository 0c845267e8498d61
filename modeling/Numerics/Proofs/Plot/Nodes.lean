import Mathlib.Order.Nat
import Numerics.Plot.Contour

/-!
# Grids of nodes

A grid keeps what it knows of its nodes in one array, row by row.  All rows are of one length, so that the index of an entry
tells its row and its column (`getElem?_rows`), and a height looked up by column and row is that of the node with these numbers
(`HeightGrid.height?_sample`).
-/

namespace Numerics.Plot

section Rows

variable {β γ : Type} {row : β → List γ} {n i : ℕ}

/-- The entry `i` of the row `j`, in rows of length `n` one after the other. -/
theorem getElem?_rows (hrow : ∀ y, (row y).length = n) (ys : List β) (hi : i < n) (j : ℕ) :
    (ys.flatMap row)[j * n + i]? = ys[j]?.bind fun y => (row y)[i]? := by
  induction ys generalizing j with
  | nil => rfl
  | cons y ys ih =>
    rw [List.flatMap_cons]
    cases j with
    | zero => rw [Nat.zero_mul, Nat.zero_add, List.getElem?_append_left (hi.trans_eq (hrow y).symm)]; rfl
    | succ j =>
      have hskip : (j + 1) * n + i = (row y).length + (j * n + i) := by rw [hrow, Nat.succ_mul]; omega
      rw [hskip, List.getElem?_append_right (Nat.le_add_right _ _), Nat.add_sub_cancel_left]
      exact ih j

end Rows

variable {α : Type} [Scalar α] {f : α → α → α} {range xRange yRange : α × α} {n i j : ℕ}

/-- The node with a column and a row. -/
def nodeAt (xRange yRange : α × α) (n : ℕ) (p : ℕ × ℕ) : α × α := (node xRange p.1 n, node yRange p.2 n)

/-- The height of a function at a node, if it is defined there. -/
def heightAt? (f : α → α → α) (xRange yRange : α × α) (n : ℕ) (p : ℕ × ℕ) : Option α :=
  defined? ((Objective.plane f).guarded (nodeAt xRange yRange n p))

theorem length_nodes : (nodes range n).length = n + 1 := by rw [nodes, List.length_map, List.length_range]

theorem getElem?_nodes (hi : i ≤ n) : (nodes range n)[i]? = some (node range i n) := by
  rw [nodes, List.getElem?_map, List.getElem?_range (Nat.lt_succ_of_le hi), Option.map_some]

namespace HeightGrid

/-- **Heights of nodes.** -/
theorem height?_sample (hi : i ≤ n) (hj : j ≤ n) :
    (sample f xRange yRange n).height? i j = heightAt? f xRange yRange n (i, j) := by
  have hrow : ∀ y, ((nodes xRange n).map fun x => defined? ((Objective.plane f).guarded (x, y))).length = n + 1 := fun y => by
    rw [List.length_map, length_nodes]
  unfold height? sample
  rw [List.size_toArray, length_nodes, List.getElem?_toArray, getElem?_rows hrow _ (Nat.lt_succ_of_le hi),
    getElem?_nodes hj, Option.bind_some, List.getElem?_map, getElem?_nodes hi]
  rfl

/-- The cell with the lower left node `(i, j)`, where its four heights are defined. -/
theorem cell?_sample (hi : i < n) (hj : j < n) (level : α) : (sample f xRange yRange n).cell? level i j = do
    let z0 ← heightAt? f xRange yRange n (i, j)
    let z1 ← heightAt? f xRange yRange n (i + 1, j)
    let z2 ← heightAt? f xRange yRange n (i + 1, j + 1)
    let z3 ← heightAt? f xRange yRange n (i, j + 1)
    return { x0 := node xRange i n, x1 := node xRange (i + 1) n, y0 := node yRange j n, y1 := node yRange (j + 1) n,
             v0 := z0 - level, v1 := z1 - level, v2 := z2 - level, v3 := z3 - level } := by
  have hx : ∀ k ≤ n, (sample f xRange yRange n).xs[k]? = some (node xRange k n) :=
    fun k hk => List.getElem?_toArray.trans (getElem?_nodes hk)
  have hy : ∀ k ≤ n, (sample f xRange yRange n).ys[k]? = some (node yRange k n) :=
    fun k hk => List.getElem?_toArray.trans (getElem?_nodes hk)
  unfold cell?
  rw [height?_sample hi.le hj.le, height?_sample hi hj.le, height?_sample hi hj, height?_sample hi.le hj, hx i hi.le,
    hx (i + 1) hi, hy j hj.le, hy (j + 1) hj]
  rfl

end HeightGrid

end Numerics.Plot
