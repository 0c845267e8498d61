import Mathlib.Data.List.Perm.Basic
import Numerics.Proofs.Exact
import Numerics.Proofs.Outcome
import Numerics.Proofs.Plot.Nodes

/-!
# Contour lines have no gaps

The pieces of a contour line are made cell by cell, and two cells that share an edge compute its crossing in opposite
directions.  In exact arithmetic this makes no difference: a crossing belongs to the edge of the grid (`GridEdge.crossing`),
the cells at both its sides come to the same point (`HasHeights.crossing_eq`), and the pieces of a cell end once on each of its
edges that the level crosses (`joinedEdges_perm`).  So contour lines are closed, or end at the border of the grid or next to
nodes without a height (`contourLines_connect`).
-/

namespace Numerics.Plot

open Scalar

/-- An edge of a grid, by the columns and rows of its ends. -/
structure GridEdge where
  start : ℕ × ℕ
  finish : ℕ × ℕ
  deriving DecidableEq

/-- The edge of the cell with the lower left node `(i, j)` as an edge of the grid, from left to right or upward: an edge that
two cells share is the same for both. -/
def Edge.inGrid (i j : ℕ) : Edge → GridEdge
  | bottom => ⟨(i, j), (i + 1, j)⟩
  | right => ⟨(i + 1, j), (i + 1, j + 1)⟩
  | top => ⟨(i, j + 1), (i + 1, j + 1)⟩
  | left => ⟨(i, j), (i, j + 1)⟩

example (i j : ℕ) : Edge.right.inGrid i j = Edge.left.inGrid (i + 1) j ∧ Edge.top.inGrid i j = Edge.bottom.inGrid i (j + 1) :=
  ⟨rfl, rfl⟩

/-- The edges of a cell. -/
def Edge.all : List Edge := [bottom, right, top, left]

/-- The corners of the cell with the lower left node `(i, j)`. -/
def corners (i j : ℕ) : List (ℕ × ℕ) := [(i, j), (i + 1, j), (i + 1, j + 1), (i, j + 1)]

/-- The two ends of a piece. -/
def Segment.ends {α : Type} (s : Segment α) : List (α × α) := [s.start, s.finish]

/-- The pieces of a level set in one cell. -/
def HeightGrid.pieces {α : Type} [Scalar α] (g : HeightGrid α) (level : α) (i j : ℕ) : List (Segment α) :=
  match g.cell? level i j with
  | some c => c.segments
  | none => []

variable {K : Type} [ExactArithmetic K]

/-- The heights at the ends of the edge are defined, and lie on different sides of the level. -/
def GridEdge.isCrossed (height : ℕ × ℕ → Option K) (level : K) (e : GridEdge) : Bool :=
  match height e.start, height e.finish with
  | some a, some b => decide (level ≤ a) != decide (level ≤ b)
  | _, _ => false

/-- The edges of the cell with the lower left node `(i, j)` that the level crosses. -/
def crossedEdges (height : ℕ × ℕ → Option K) (level : K) (i j : ℕ) : List GridEdge :=
  (Edge.all.map (·.inGrid i j)).filter (·.isCrossed height level)

/-- The point at a fraction of the way from `p` to `q`. -/
def pointBetween (p q : K × K) (t : K) : K × K := (p.1 + (q.1 - p.1) * t, p.2 + (q.2 - p.2) * t)

/-- The point lies on the edge between its ends; and if the heights there are not almost the same, the height that linear
interpolation gives to the point is the level. -/
def GridEdge.IsCrossedAt (position : ℕ × ℕ → K × K) (height : ℕ × ℕ → Option K) (level : K) (e : GridEdge) (p : K × K) :
    Prop :=
  ∃ t a b, 0 ≤ t ∧ t ≤ 1 ∧ p = pointBetween (position e.start) (position e.finish) t ∧
    height e.start = some a ∧ height e.finish = some b ∧ (1 / 10 ^ 12 < |a - b| → a + (b - a) * t = level)

/-- Where the level crosses the edge. -/
def GridEdge.crossing (position : ℕ × ℕ → K × K) (height : ℕ × ℕ → Option K) (level : K) (e : GridEdge) : K × K :=
  pointBetween (position e.start) (position e.finish)
    (crossingFraction ((height e.start).getD 0 - level) ((height e.finish).getD 0 - level))

/-- The pieces of a level set over a grid of `n` cells on each side connect at the points of the edges. -/
structure Connects (position : ℕ × ℕ → K × K) (height : ℕ × ℕ → Option K) (level : K) (n : ℕ)
    (pieces : ℕ → ℕ → List (Segment K)) (point : GridEdge → K × K) : Prop where
  /-- A cell with a node without a height has no pieces. -/
  undefined : ∀ i < n, ∀ j < n, ∀ p ∈ corners i j, height p = none → pieces i j = []
  /-- The ends of the pieces in any other cell are the points of its edges that the level crosses, each one once. -/
  ends : ∀ i < n, ∀ j < n, (∀ p ∈ corners i j, (height p).isSome) →
    ((pieces i j).flatMap Segment.ends).Perm ((crossedEdges height level i j).map point)
  /-- The point of an edge lies on it, where the heights reach the level. -/
  crossed : ∀ i < n, ∀ j < n, ∀ e ∈ crossedEdges height level i j, e.IsCrossedAt position height level (point e)

/-! ### Crossings -/

section Crossings

variable {a b : K}

theorem crossingFraction_eq :
    crossingFraction a b = if |a - b| ≤ 1 / 10 ^ 12 then 1 / 2 else max 0 (min (a / (a - b)) 1) := by
  rw [← Exact.place_eq, ← Exact.half_eq, ← Exact.clamp_eq zero_le_one, ← Exact.zero_eq, ← Exact.one_eq]
  rfl

theorem crossingFraction_mem : 0 ≤ crossingFraction a b ∧ crossingFraction a b ≤ 1 := by
  rw [crossingFraction_eq]
  split
  · constructor <;> linarith
  · exact ⟨le_max_left _ _, max_le zero_le_one (min_le_right _ _)⟩

/-- The same crossing from the other end. -/
theorem crossingFraction_comm : crossingFraction b a = 1 - crossingFraction a b := by
  rw [crossingFraction_eq, crossingFraction_eq, abs_sub_comm]
  split
  · linarith
  next h =>
    have hab : a - b ≠ 0 := fun hzero => h (by rw [hzero, abs_zero]; positivity)
    have hba : b - a ≠ 0 := fun hzero => hab (by linarith)
    have hsum : b / (b - a) = 1 - a / (a - b) := by
      field_simp
      ring
    rw [hsum, max_def, max_def, min_def, min_def]
    split_ifs <;> linarith

/-- The fraction at which heights of different signs reach zero. -/
theorem interpolate_crossingFraction (hsides : decide (0 ≤ a) ≠ decide (0 ≤ b)) (hab : 1 / 10 ^ 12 < |a - b|) :
    a + (b - a) * crossingFraction a b = 0 := by
  have hne : a - b ≠ 0 := fun hzero => hsides (by rw [sub_eq_zero.mp hzero])
  have hmem : 0 ≤ a / (a - b) ∧ a / (a - b) ≤ 1 := by
    rcases le_or_gt 0 a with ha | ha <;> rcases le_or_gt 0 b with hb | hb
    · exact absurd (by simp only [ha, hb]) hsides
    · have hpos : 0 < a - b := by linarith
      exact ⟨div_nonneg ha hpos.le, (div_le_one hpos).mpr (by linarith)⟩
    · have hneg : a - b < 0 := by linarith
      exact ⟨div_nonneg_of_nonpos ha.le hneg.le, (div_le_one_of_neg hneg).mpr (by linarith)⟩
    · exact absurd (by simp only [ha.not_ge, hb.not_ge]) hsides
  rw [crossingFraction_eq, if_neg (not_le.mpr hab), min_eq_left hmem.2, max_eq_right hmem.1]
  field_simp
  ring

end Crossings

/-! ### Cells -/

/-- The corners at the ends of the edge are on different sides. -/
def Edge.separates (s0 s1 s2 s3 : Bool) : Edge → Bool
  | bottom => s0 != s1
  | right => s1 != s2
  | top => s3 != s2
  | left => s0 != s3

/-- **The table of a cell.** Whatever sides its corners are on, the edges that are joined are those between corners on
different sides, each one once. -/
theorem joinedEdges_perm (s0 s1 s2 s3 : Bool) :
    ((joinedEdges s0 s1 s2 s3).flatMap fun pair => [pair.1, pair.2]).Perm (Edge.all.filter (·.separates s0 s1 s2 s3)) := by
  cases s0 <;> cases s1 <;> cases s2 <;> cases s3 <;> decide

/-- The level crosses the edge of the cell. -/
def Cell.separates {α : Type} [Scalar α] (c : Cell α) (edge : Edge) : Bool :=
  edge.separates (0 ≤ c.v0) (0 ≤ c.v1) (0 ≤ c.v2) (0 ≤ c.v3)

theorem Cell.ends_segments {α : Type} [Scalar α] (c : Cell α) :
    (c.segments.flatMap Segment.ends).Perm ((Edge.all.filter c.separates).map c.crossing) := by
  have hends : c.segments.flatMap Segment.ends =
      ((joinedEdges (0 ≤ c.v0) (0 ≤ c.v1) (0 ≤ c.v2) (0 ≤ c.v3)).flatMap fun pair => [pair.1, pair.2]).map c.crossing := by
    rw [Cell.segments, List.flatMap_map, List.map_flatMap]
    rfl
  rw [hends]
  exact (joinedEdges_perm _ _ _ _).map _

section Grids

variable {f : K → K → K} {xRange yRange : K × K} {n i j : ℕ} {level z0 z1 z2 z3 : K}

/-- The cell with the lower left node `(i, j)` and these heights. -/
def cellAt (xRange yRange : K × K) (n i j : ℕ) (level z0 z1 z2 z3 : K) : Cell K :=
  { x0 := node xRange i n, x1 := node xRange (i + 1) n, y0 := node yRange j n, y1 := node yRange (j + 1) n,
    v0 := z0 - level, v1 := z1 - level, v2 := z2 - level, v3 := z3 - level }

/-- The function has these heights at the corners of the cell. -/
structure HasHeights (f : K → K → K) (xRange yRange : K × K) (n i j : ℕ) (z0 z1 z2 z3 : K) : Prop where
  corner0 : heightAt? f xRange yRange n (i, j) = some z0
  corner1 : heightAt? f xRange yRange n (i + 1, j) = some z1
  corner2 : heightAt? f xRange yRange n (i + 1, j + 1) = some z2
  corner3 : heightAt? f xRange yRange n (i, j + 1) = some z3

theorem exists_hasHeights (h : ∀ p ∈ corners i j, (heightAt? f xRange yRange n p).isSome) :
    ∃ z0 z1 z2 z3, HasHeights f xRange yRange n i j z0 z1 z2 z3 := by
  have hsome : ∀ p ∈ corners i j, ∃ z, heightAt? f xRange yRange n p = some z := fun p hp =>
    Option.isSome_iff_exists.mp (h p hp)
  obtain ⟨z0, h0⟩ := hsome (i, j) (by simp [corners])
  obtain ⟨z1, h1⟩ := hsome (i + 1, j) (by simp [corners])
  obtain ⟨z2, h2⟩ := hsome (i + 1, j + 1) (by simp [corners])
  obtain ⟨z3, h3⟩ := hsome (i, j + 1) (by simp [corners])
  exact ⟨z0, z1, z2, z3, h0, h1, h2, h3⟩

theorem HasHeights.pieces_eq (h : HasHeights f xRange yRange n i j z0 z1 z2 z3) (hi : i < n) (hj : j < n) :
    (HeightGrid.sample f xRange yRange n).pieces level i j = (cellAt xRange yRange n i j level z0 z1 z2 z3).segments := by
  unfold HeightGrid.pieces
  rw [HeightGrid.cell?_sample hi hj, h.corner0, h.corner1, h.corner2, h.corner3]
  rfl

/-- **Shared crossings.** A cell crosses its edges where the grid does, in whatever direction it looks at them. -/
theorem HasHeights.crossing_eq (h : HasHeights f xRange yRange n i j z0 z1 z2 z3) (edge : Edge) :
    (cellAt xRange yRange n i j level z0 z1 z2 z3).crossing edge =
      (edge.inGrid i j).crossing (nodeAt xRange yRange n) (heightAt? f xRange yRange n) level := by
  unfold GridEdge.crossing Cell.crossing pointBetween nodeAt cellAt
  cases edge with
  | bottom =>
    simp only [Edge.inGrid, h.corner0, h.corner1, Option.getD_some, Prod.mk.injEq, true_and]
    ring
  | right =>
    simp only [Edge.inGrid, h.corner1, h.corner2, Option.getD_some, Prod.mk.injEq, and_true]
    ring
  | top =>
    simp only [Edge.inGrid, h.corner2, h.corner3, Option.getD_some, Prod.mk.injEq]
    rw [crossingFraction_comm]
    constructor <;> ring
  | left =>
    simp only [Edge.inGrid, h.corner0, h.corner3, Option.getD_some, Prod.mk.injEq]
    rw [crossingFraction_comm]
    constructor <;> ring

theorem HasHeights.separates_eq (h : HasHeights f xRange yRange n i j z0 z1 z2 z3) (edge : Edge) :
    (cellAt xRange yRange n i j level z0 z1 z2 z3).separates edge =
      (edge.inGrid i j).isCrossed (heightAt? f xRange yRange n) level := by
  have hside : ∀ z : K, decide (@OfNat.ofNat K 0 (instOfNat 0) ≤ z - level) = decide (level ≤ z) := fun z =>
    decide_eq_decide.mpr (by rw [Exact.zero_eq]; exact sub_nonneg)
  unfold Cell.separates GridEdge.isCrossed cellAt
  cases edge <;> simp only [Edge.separates, Edge.inGrid, h.corner0, h.corner1, h.corner2, h.corner3, hside]

/-- **Pieces of a cell.** They end at the points of the edges that the level crosses. -/
theorem ends_pieces (h : ∀ p ∈ corners i j, (heightAt? f xRange yRange n p).isSome) (hi : i < n) (hj : j < n) :
    (((HeightGrid.sample f xRange yRange n).pieces level i j).flatMap Segment.ends).Perm
      ((crossedEdges (heightAt? f xRange yRange n) level i j).map
        (·.crossing (nodeAt xRange yRange n) (heightAt? f xRange yRange n) level)) := by
  obtain ⟨z0, z1, z2, z3, hheights⟩ := exists_hasHeights h
  have hcrossed : crossedEdges (heightAt? f xRange yRange n) level i j =
      (Edge.all.filter (cellAt xRange yRange n i j level z0 z1 z2 z3).separates).map (Edge.inGrid i j) := by
    rw [crossedEdges, List.filter_map]
    exact congrArg _ (List.filter_congr fun edge _ => (hheights.separates_eq edge).symm)
  rw [hheights.pieces_eq hi hj, hcrossed, List.map_map]
  refine (Cell.ends_segments _).trans (.of_eq (List.map_congr_left fun edge _ => ?_))
  exact hheights.crossing_eq edge

theorem pieces_eq_nil {p : ℕ × ℕ} (hp : p ∈ corners i j) (h : heightAt? f xRange yRange n p = none) (hi : i < n) (hj : j < n) :
    (HeightGrid.sample f xRange yRange n).pieces level i j = [] := by
  have hcell : (HeightGrid.sample f xRange yRange n).cell? level i j = none := by
    rw [HeightGrid.cell?_sample hi hj]
    simp only [corners, List.mem_cons, List.not_mem_nil, or_false] at hp
    rcases hp with rfl | rfl | rfl | rfl <;> simp [h]
  rw [HeightGrid.pieces, hcell]

theorem isCrossedAt_crossing {position : ℕ × ℕ → K × K} {height : ℕ × ℕ → Option K} {e : GridEdge}
    (h : e.isCrossed height level = true) : e.IsCrossedAt position height level (e.crossing position height level) := by
  unfold GridEdge.isCrossed at h
  split at h
  · next a b ha hb =>
    have hmem : 0 ≤ crossingFraction (a - level) (b - level) ∧ _ := crossingFraction_mem
    refine ⟨crossingFraction (a - level) (b - level), a, b, hmem.1, hmem.2, ?_, ha, hb, fun hab => ?_⟩
    · rw [GridEdge.crossing, ha, hb]
      rfl
    · have hsides : decide (0 ≤ a - level) ≠ decide (0 ≤ b - level) := by
        simp only [sub_nonneg]
        exact bne_iff_ne.mp h
      have hzero := interpolate_crossingFraction hsides (by rwa [sub_sub_sub_cancel_right])
      rw [sub_sub_sub_cancel_right] at hzero
      linarith
  · cases h

end Grids

/-- The pieces of a contour line are those of the level in each cell. -/
theorem segments_eq {f : K → K → K} {xRange yRange : K × K} {levels n : ℕ} {lines : List (ContourLine K)}
    {line : ContourLine K} (h : contourLines f xRange yRange levels n = .ok lines) (hline : line ∈ lines) :
    line.segments = (HeightGrid.sample f xRange yRange n).levelSet line.level n := by
  obtain ⟨_, -, h⟩ := bind_eq_ok_iff.mp h
  dsimp only at h
  split at h
  · obtain rfl := Except.ok.inj h
    cases hline
  · split at h
    · obtain rfl := Except.ok.inj h
      cases hline
    · obtain rfl := Except.ok.inj h
      obtain ⟨k, -, rfl⟩ := List.mem_map.mp hline
      rfl

/-- **Contour lines have no gaps.** Whatever heights the function has, and wherever it has none, each contour line is made of
the pieces in its cells, which connect at the edges of the grid that its level crosses. -/
theorem contourLines_connect {f : K → K → K} {xRange yRange : K × K} {levels n : ℕ} {lines : List (ContourLine K)}
    (h : contourLines f xRange yRange levels n = .ok lines) : ∀ line ∈ lines,
    let pieces := (HeightGrid.sample f xRange yRange n).pieces line.level
    line.segments = ((List.range n).flatMap fun j => (List.range n).flatMap fun i => pieces i j) ∧
      ∃ point, Connects (nodeAt xRange yRange n) (heightAt? f xRange yRange n) line.level n pieces point := by
  intro line hline pieces
  refine ⟨segments_eq h hline, (·.crossing (nodeAt xRange yRange n) (heightAt? f xRange yRange n) line.level), ?_⟩
  exact {
    undefined := fun i hi j hj p hp hnone => pieces_eq_nil hp hnone hi hj
    ends := fun i hi j hj hsome => ends_pieces hsome hi hj
    crossed := fun i hi j hj e he => isCrossedAt_crossing (List.mem_filter.mp he).2 }

/-- A saddle: the lines through its one cell end at all four edges. -/
theorem contourLines_connect_saddle :
    ∃ lines, contourLines (fun x y : ℚ => x * y) (-1, 1) (-1, 1) 1 1 = .ok lines ∧
      (lines.map fun line => line.segments.length) = [2] ∧ ∀ line ∈ lines,
        let pieces := (HeightGrid.sample (fun x y : ℚ => x * y) (-1, 1) (-1, 1) 1).pieces line.level
        line.segments = ((List.range 1).flatMap fun j => (List.range 1).flatMap fun i => pieces i j) ∧
          ∃ point, Connects (nodeAt (-1, 1) (-1, 1) 1) (heightAt? (fun x y : ℚ => x * y) (-1, 1) (-1, 1) 1) line.level 1
            pieces point := by
  have hrun : (contourLines (fun x y : ℚ => x * y) (-1, 1) (-1, 1) 1 1).toOption.any fun lines =>
      (lines.map fun line => line.segments.length) == [2] := by decide +kernel
  obtain ⟨lines, hlines, htest⟩ := exists_of_toOption_any hrun
  exact ⟨lines, hlines, eq_of_beq htest, contourLines_connect hlines⟩

end Numerics.Plot
