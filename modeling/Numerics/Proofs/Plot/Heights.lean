import Mathlib.Algebra.Order.Group.Nat
import Numerics.Plot.Surface
import Numerics.Proofs.Outcome
import Numerics.Proofs.Plot.Nodes

/-!
# Heights of a surface by column and row

A height field keeps its points row by row, and a height is looked up by the index of its point in this order
(`Surface.height?`).  A column of the grid is looked up in its own row, and a row beyond the grid is refused; but a column beyond
the grid is taken for one of a later row (`surface_heights`, `height?_next_row`).
-/

namespace Numerics.Plot

variable {α : Type} [Scalar α] {f : α → α → α} {xRange yRange : α × α} {n : ℕ}

/-- The height drawn at the node with a column and a row. -/
def drawnAt (f : α → α → α) (xRange yRange : α × α) (n : ℕ) (p : ℕ × ℕ) : α :=
  drawn ((Objective.plane f).guarded (nodeAt xRange yRange n p))

/-- The index of the node with a column and a row in the order of the rows, counted in words of 64 digits. -/
def indexInRows (n : ℕ) (ix iy : UInt64) : ℕ := (iy.toNat * (n + 1) + ix.toNat) % 2 ^ 64

/-- The points of a height field, row by row. -/
def points (f : α → α → α) (xRange yRange : α × α) (n : ℕ) : List (α × α × α) :=
  (nodes yRange n).flatMap fun y => (nodes xRange n).map fun x => (x, y, drawn ((Objective.plane f).guarded (x, y)))

theorem length_points : (points f xRange yRange n).length = (n + 1) ^ 2 := by
  rw [points, List.length_flatMap]
  simp only [List.length_map, length_nodes, List.map_const', List.sum_replicate_nat]
  rw [Nat.pow_two]

theorem getElem?_nodes_of_lt {range : α × α} {i : ℕ} (hi : n < i) : (nodes range n)[i]? = none := by
  rw [List.getElem?_eq_none_iff, length_nodes]
  exact hi

/-- **Points by index.** The index of a point tells its column and its row. -/
theorem getElem?_points (k : ℕ) : (points f xRange yRange n)[k]?.map (fun p => p.2.2) =
    if k / (n + 1) ≤ n then some (drawnAt f xRange yRange n (k % (n + 1), k / (n + 1))) else none := by
  have hrow : ∀ y, ((nodes xRange n).map fun x => (x, y, drawn ((Objective.plane f).guarded (x, y)))).length = n + 1 :=
    fun y => by rw [List.length_map, length_nodes]
  have hcolumn : k % (n + 1) < n + 1 := Nat.mod_lt _ (Nat.succ_pos n)
  have hindex : k = k / (n + 1) * (n + 1) + k % (n + 1) := by rw [Nat.div_add_mod']
  rw [points]
  conv_lhs => rw [hindex]
  rw [getElem?_rows hrow _ hcolumn]
  split_ifs with hk
  · rw [getElem?_nodes hk, Option.bind_some, List.getElem?_map, getElem?_nodes (Nat.le_of_lt_succ hcolumn)]
    rfl
  · rw [getElem?_nodes_of_lt (Nat.lt_of_not_le hk)]
    rfl

theorem toNat_indexInRows (ix iy : UInt64) : (iy * .ofNat (n + 1) + ix).toNat = indexInRows n ix iy := by
  rw [indexInRows, UInt64.toNat_add, UInt64.toNat_mul, UInt64.toNat_ofNat', Nat.mod_add_mod, Nat.add_mod, Nat.mul_mod_mod, ← Nat.add_mod]

/-- A column of the grid is one of its row. -/
theorem indexInRows_of_le {ix iy : UInt64} (hix : ix.toNat ≤ n) (hword : iy.toNat * (n + 1) + ix.toNat < 2 ^ 64) :
    indexInRows n ix iy / (n + 1) = iy.toNat ∧ indexInRows n ix iy % (n + 1) = ix.toNat := by
  rw [indexInRows, Nat.mod_eq_of_lt hword, Nat.mul_comm, Nat.mul_add_div (Nat.succ_pos n), Nat.mul_add_mod,
    Nat.div_eq_of_lt (Nat.lt_succ_of_le hix), Nat.mod_eq_of_lt (Nat.lt_succ_of_le hix)]
  exact ⟨rfl, rfl⟩

/-- **Heights of a surface.** A height is that of the node with the index of the column and the row, and there is one if there is a
node with this index.  For a column of the grid this is the node with these indices, and there is one if the row is one of the grid. -/
theorem surface_heights (f : α → α → α) (h : checkBox xRange yRange n = .ok ()) :
    ∃ g, surface f xRange yRange n = .ok g ∧ g.points.length = (n + 1) ^ 2 ∧
      (∀ ix iy, g.height? ix iy = if indexInRows n ix iy / (n + 1) ≤ n then
        some (drawnAt f xRange yRange n (indexInRows n ix iy % (n + 1), indexInRows n ix iy / (n + 1))) else none) ∧
      ∀ ix iy : UInt64, ix.toNat ≤ n → iy.toNat * (n + 1) + ix.toNat < 2 ^ 64 →
        g.height? ix iy = if iy.toNat ≤ n then some (drawnAt f xRange yRange n (ix.toNat, iy.toNat)) else none := by
  have hheight : ∀ ix iy, (Surface.mk n (points f xRange yRange n)).height? ix iy =
      if indexInRows n ix iy / (n + 1) ≤ n then
        some (drawnAt f xRange yRange n (indexInRows n ix iy % (n + 1), indexInRows n ix iy / (n + 1))) else none := by
    intro ix iy
    rw [Surface.height?, Surface.side, toNat_indexInRows, getElem?_points]
  refine ⟨⟨n, points f xRange yRange n⟩, ?_, length_points, hheight, ?_⟩
  · rw [surface, h]
    rfl
  · intro ix iy hix hword
    obtain ⟨hrow, hcolumn⟩ := indexInRows_of_le hix hword
    rw [hheight, hrow, hcolumn]

/-- The corner of a plane over four nodes, and the row above it. -/
theorem surface_heights_plane :
    checkBox ((0, 1) : Float × Float) (0, 1) 1 = .ok () ∧
      ∃ g, surface (fun x y : Float => x + y) (0, 1) (0, 1) 1 = .ok g ∧ g.points.length = 4 ∧
        (UInt64.toNat 1 ≤ 1 ∧ UInt64.toNat 1 * (1 + 1) + UInt64.toNat 1 < 2 ^ 64 ∧ g.height? 1 1 = some 2) ∧
        UInt64.toNat 1 ≤ 1 ∧ UInt64.toNat 2 * (1 + 1) + UInt64.toNat 1 < 2 ^ 64 ∧ g.height? 1 2 = none := by
  have h : checkBox ((0, 1) : Float × Float) (0, 1) 1 = .ok () := by decide +kernel
  obtain ⟨g, hg, hlength, -, hheight⟩ := surface_heights (fun x y : Float => x + y) h
  refine ⟨h, g, hg, hlength, ⟨by decide, by decide, ?_⟩, by decide, by decide, ?_⟩
  · rw [hheight 1 1 (by decide) (by decide)]
    decide +kernel
  · rw [hheight 1 2 (by decide) (by decide)]
    decide +kernel

/-- The column after the last one is taken for the first one of the next row. -/
theorem height?_next_row : ¬ ∀ (f : Float → Float → Float) (xRange yRange : Float × Float) (n : ℕ) (g : Surface Float)
    (ix iy : UInt64), surface f xRange yRange n = .ok g →
      ((g.height? ix iy).isSome = true ↔ ix.toNat ≤ n ∧ iy.toNat ≤ n) := by
  intro hclaim
  have hrun : (surface (fun x y : Float => x + y) (0, 1) (0, 1) 1).toOption.any (fun g => (g.height? 2 0).isSome) = true := by
    decide +kernel
  obtain ⟨g, hg, hsome⟩ := exists_of_toOption_any hrun
  exact absurd ((hclaim _ _ _ _ g 2 0 hg).mp hsome).1 (by decide)

end Numerics.Plot
