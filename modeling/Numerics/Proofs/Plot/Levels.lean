import Mathlib.Order.Bounds.Basic
import Mathlib.Order.Interval.Set.Basic
import Numerics.Proofs.Plot.Contours

/-!
# Every contour level is drawn

A level strictly between the least and the greatest height has nodes on both sides.  A cell without pieces has all its corners on
one side (`HasHeights.pieces_eq_nil_iff`), and a grid all of whose cells have their corners on one side lies on that side as a
whole (`eq_of_cells`).  So some cell has a piece of each level, and no contour line is empty (`contourLines_drawn`).
-/

namespace Numerics.Plot

open Scalar

variable {K : Type} [ExactArithmetic K]

/-- The heights at all nodes of a grid. -/
def nodeHeights (f : K → K → K) (xRange yRange : K × K) (n : ℕ) : Set K :=
  (fun p => (Objective.plane f).guarded (nodeAt xRange yRange n p)) '' Set.Iic (n, n)

/-! ### The range of the heights -/

section Bounds

variable {f : K → K → K} {xRange yRange : K × K} {n : ℕ} {g : HeightGrid K} {lo hi z : K}

theorem isLeast_foldl (z : K) (zs : List K) : IsLeast {x | x ∈ z :: zs} (zs.foldl least z) := by
  have hleast : (least : K → K → K) = min := funext₂ fun x y => Exact.least_eq
  rw [hleast]
  exact List.min?_eq_some_iff.mp rfl

theorem isGreatest_foldl (z : K) (zs : List K) : IsGreatest {x | x ∈ z :: zs} (zs.foldl greatest z) := by
  have hgreatest : (greatest : K → K → K) = max := funext₂ fun x y => Exact.greatest_eq
  rw [hgreatest]
  exact List.max?_eq_some_iff.mp rfl

/-- The bounds of heights that are not all the same. -/
theorem HeightGrid.bounds?_eq_some (hlo : IsLeast {x | x ∈ g.heights.toList.filterMap id} lo)
    (hhi : IsGreatest {x | x ∈ g.heights.toList.filterMap id} hi) (hlt : lo < hi) : g.bounds? = some (lo, hi) := by
  unfold bounds?
  split
  · next z z' rest heq =>
    rw [heq] at hlo hhi
    rw [(isLeast_foldl z (z' :: rest)).unique hlo, (isGreatest_foldl z (z' :: rest)).unique hhi]
  · next hshort =>
    -- two different heights are at least two
    cases hheights : g.heights.toList.filterMap id with
    | nil => rw [hheights] at hlo; cases hlo.1
    | cons z zs =>
      cases zs with
      | cons z' rest => exact absurd hheights (hshort z z' rest)
      | nil =>
        rw [hheights] at hlo hhi
        have hloz : lo = z := List.mem_singleton.mp hlo.1
        have hhiz : hi = z := List.mem_singleton.mp hhi.1
        exact absurd (hloz.trans hhiz.symm) hlt.ne

theorem mem_nodes_iff {x : K} : x ∈ nodes xRange n ↔ ∃ i ≤ n, node xRange i n = x := by
  simp only [nodes, List.mem_map, List.mem_range, Nat.lt_succ_iff]

theorem mem_heights_sample_iff : z ∈ (HeightGrid.sample f xRange yRange n).heights.toList.filterMap id ↔
    ∃ p ≤ (n, n), heightAt? f xRange yRange n p = some z := by
  simp only [HeightGrid.sample, List.mem_filterMap, List.mem_flatMap, List.mem_map, mem_nodes_iff, id_eq]
  constructor
  · rintro ⟨_, ⟨_, ⟨j, hj, rfl⟩, _, ⟨i, hi, rfl⟩, rfl⟩, hz⟩
    exact ⟨(i, j), ⟨hi, hj⟩, hz⟩
  · rintro ⟨⟨i, j⟩, ⟨hi, hj⟩, hz⟩
    exact ⟨_, ⟨_, ⟨j, hj, rfl⟩, _, ⟨i, hi, rfl⟩, rfl⟩, hz⟩

theorem heightAt?_eq_some {p : ℕ × ℕ} (h : isDefined ((Objective.plane f).guarded (nodeAt xRange yRange n p)) = true) :
    heightAt? f xRange yRange n p = some ((Objective.plane f).guarded (nodeAt xRange yRange n p)) := if_pos h

variable (hdefined : ∀ p ≤ (n, n), isDefined ((Objective.plane f).guarded (nodeAt xRange yRange n p)) = true)
include hdefined

theorem setOf_mem_heights_sample :
    {z | z ∈ (HeightGrid.sample f xRange yRange n).heights.toList.filterMap id} = nodeHeights f xRange yRange n := by
  ext z
  refine mem_heights_sample_iff.trans (exists_congr fun p => and_congr_right fun hp => ?_)
  rw [heightAt?_eq_some (hdefined p hp), Option.some_inj]

theorem bounds?_sample (hlo : IsLeast (nodeHeights f xRange yRange n) lo) (hhi : IsGreatest (nodeHeights f xRange yRange n) hi)
    (hlt : lo < hi) : (HeightGrid.sample f xRange yRange n).bounds? = some (lo, hi) := by
  rw [← setOf_mem_heights_sample hdefined] at hlo hhi
  exact HeightGrid.bounds?_eq_some hlo hhi hlt

end Bounds

/-! ### Levels -/

section Levels

variable {lo hi : K} {levels k l : ℕ}

theorem levelBetween_eq : levelBetween lo hi levels k = lo + (hi - lo) * ((k + 1) / (levels + 1)) := by
  change lo + ((k + 1 : ℕ) : K) * (hi - lo) / ((levels + 1 : ℕ) : K) = _
  push_cast
  ring

theorem levelBetween_mem (h : lo < hi) (hk : k < levels) :
    lo < levelBetween lo hi levels k ∧ levelBetween lo hi levels k < hi := by
  have hwidth : 0 < hi - lo := sub_pos.mpr h
  have hk' : (k : K) < levels := by exact_mod_cast hk
  have hpos : (0 : K) < (k + 1) / (levels + 1) := by positivity
  have hlt : ((k : K) + 1) / (levels + 1) < 1 := (div_lt_one (by positivity)).mpr (by linarith)
  rw [levelBetween_eq]
  constructor
  · linarith [mul_pos hwidth hpos]
  · linarith [mul_lt_mul_of_pos_left hlt hwidth]

theorem levelBetween_lt (h : lo < hi) (hkl : k < l) : levelBetween lo hi levels k < levelBetween lo hi levels l := by
  have hwidth : 0 < hi - lo := sub_pos.mpr h
  rw [levelBetween_eq, levelBetween_eq]
  gcongr

end Levels

/-! ### Cells that are crossed -/

section Cells

variable {f : K → K → K} {xRange yRange : K × K} {n i j : ℕ} {level z0 z1 z2 z3 : K}

/-- Nothing is joined if and only if all corners are on one side. -/
theorem joinedEdges_eq_nil_iff (s0 s1 s2 s3 : Bool) :
    joinedEdges s0 s1 s2 s3 = [] ↔ s0 = s1 ∧ s1 = s2 ∧ s2 = s3 := by
  cases s0 <;> cases s1 <;> cases s2 <;> cases s3 <;> decide

theorem HasHeights.pieces_eq_nil_iff (h : HasHeights f xRange yRange n i j z0 z1 z2 z3) (hi : i < n) (hj : j < n) :
    (HeightGrid.sample f xRange yRange n).pieces level i j = [] ↔
      (level ≤ z0 ↔ level ≤ z1) ∧ (level ≤ z1 ↔ level ≤ z2) ∧ (level ≤ z2 ↔ level ≤ z3) := by
  have hside : ∀ z : K, @OfNat.ofNat K 0 (instOfNat 0) ≤ z - level ↔ level ≤ z := fun z => by
    rw [Exact.zero_eq]
    exact sub_nonneg
  rw [h.pieces_eq hi hj, Cell.segments, List.map_eq_nil_iff, joinedEdges_eq_nil_iff]
  simp only [cellAt, decide_eq_decide, hside]

/-- **Grids.** What all corners of each cell agree on, all nodes agree on. -/
theorem eq_of_cells {side : ℕ → ℕ → Prop} (hn : 0 < n) (h : ∀ i < n, ∀ j < n,
    (side i j ↔ side (i + 1) j) ∧ (side (i + 1) j ↔ side (i + 1) (j + 1)) ∧ (side (i + 1) (j + 1) ↔ side i (j + 1)))
    {i j : ℕ} (hi : i ≤ n) (hj : j ≤ n) : side i j ↔ side 0 0 := by
  -- along each row to its first node, and from there down the first column
  have hrow : ∀ i ≤ n, side i j ↔ side 0 j := by
    intro i hi
    induction i with
    | zero => exact Iff.rfl
    | succ i ih =>
      refine Iff.trans ?_ (ih (Nat.le_of_succ_le hi))
      rcases hj.lt_or_eq with hlt | rfl
      · exact (h i hi j hlt).1.symm
      · -- the last row is the upper side of the cells below it
        obtain ⟨m, rfl⟩ := Nat.exists_eq_succ_of_ne_zero hn.ne'
        exact (h i hi m (Nat.lt_succ_self m)).2.2
  have hcolumn : ∀ j ≤ n, side 0 j ↔ side 0 0 := by
    intro j hj
    induction j with
    | zero => exact Iff.rfl
    | succ j ih =>
      obtain ⟨hbottom, hright, htop⟩ := h 0 hn j hj
      exact (hbottom.trans (hright.trans htop)).symm.trans (ih (Nat.le_of_succ_le hj))
  exact (hrow i hi).trans (hcolumn j hj)

variable (hdefined : ∀ p ≤ (n, n), isDefined ((Objective.plane f).guarded (nodeAt xRange yRange n p)) = true)
include hdefined

theorem hasHeights_guarded (hi : i < n) (hj : j < n) :
    HasHeights f xRange yRange n i j ((Objective.plane f).guarded (nodeAt xRange yRange n (i, j)))
      ((Objective.plane f).guarded (nodeAt xRange yRange n (i + 1, j)))
      ((Objective.plane f).guarded (nodeAt xRange yRange n (i + 1, j + 1)))
      ((Objective.plane f).guarded (nodeAt xRange yRange n (i, j + 1))) where
  corner0 := heightAt?_eq_some (hdefined _ ⟨hi.le, hj.le⟩)
  corner1 := heightAt?_eq_some (hdefined _ ⟨hi, hj.le⟩)
  corner2 := heightAt?_eq_some (hdefined _ ⟨hi, hj⟩)
  corner3 := heightAt?_eq_some (hdefined _ ⟨hi.le, hj⟩)

/-- **Level sets.** A level with a node below it and a node on or above it has a piece in some cell. -/
theorem levelSet_ne_nil (hn : 0 < n) {lo hi : K} (hlo : lo ∈ nodeHeights f xRange yRange n)
    (hhi : hi ∈ nodeHeights f xRange yRange n) (hbelow : lo < level) (habove : level ≤ hi) :
    (HeightGrid.sample f xRange yRange n).levelSet level n ≠ [] := by
  intro hnil
  have hpieces : ∀ i < n, ∀ j < n, (HeightGrid.sample f xRange yRange n).pieces level i j = [] := by
    intro i hi j hj
    have hrow := List.flatMap_eq_nil_iff.mp hnil j (List.mem_range.mpr hj)
    exact List.flatMap_eq_nil_iff.mp hrow i (List.mem_range.mpr hi)
  obtain ⟨⟨i, j⟩, ⟨hi, hj⟩, rfl⟩ := hlo
  obtain ⟨⟨i', j'⟩, ⟨hi', hj'⟩, rfl⟩ := hhi
  let side (i j : ℕ) : Prop := level ≤ (Objective.plane f).guarded (nodeAt xRange yRange n (i, j))
  have hsides : ∀ {i j}, i ≤ n → j ≤ n → (side i j ↔ side 0 0) := eq_of_cells hn fun i hi j hj =>
    ((hasHeights_guarded hdefined hi hj).pieces_eq_nil_iff hi hj).mp (hpieces i hi j hj)
  exact not_le.mpr hbelow ((hsides hi hj).mpr ((hsides hi' hj').mp habove))

end Cells

/-- **Contour lines are drawn.** Where all nodes have heights that are not almost the same, there is a contour line for each level,
the levels increase from the least to the greatest height, and no line is empty. -/
theorem contourLines_drawn {f : K → K → K} {xRange yRange : K × K} {n : ℕ} {lo hi : K} (levels : ℕ)
    (hx : xRange.1 < xRange.2) (hy : yRange.1 < yRange.2) (hn : 1 ≤ n)
    (hdefined : ∀ p ≤ (n, n), isDefined ((Objective.plane f).guarded (nodeAt xRange yRange n p)) = true)
    (hlo : IsLeast (nodeHeights f xRange yRange n) lo) (hhi : IsGreatest (nodeHeights f xRange yRange n) hi)
    (hrange : 1 / 10 ^ 10 ≤ hi - lo) :
    ∃ lines, contourLines f xRange yRange levels n = .ok lines ∧ lines.length = levels ∧
      (lines.map (·.level)).Pairwise (· < ·) ∧
        ∀ line ∈ lines, lo < line.level ∧ line.level < hi ∧ line.segments ≠ [] := by
  have hlt : lo < hi := sub_pos.mp (lt_of_lt_of_le (by positivity) hrange)
  have hbox : checkBox xRange yRange n = .ok () := by
    unfold checkBox checkSubintervals
    rw [Exact.checkInterval_eq_ok_iff.mpr hx, Exact.checkInterval_eq_ok_iff.mpr hy, if_neg (Nat.one_le_iff_ne_zero.mp hn)]
    rfl
  have hflat : ¬ hi - lo < flatRange := by
    rw [flatRange, Exact.place_eq]
    exact not_lt.mpr hrange
  refine ⟨(List.range levels).map fun k =>
    { level := levelBetween lo hi levels k,
      segments := (HeightGrid.sample f xRange yRange n).levelSet (levelBetween lo hi levels k) n }, ?_, ?_, ?_, ?_⟩
  · unfold contourLines
    rw [hbox, ok_bind]
    dsimp only
    rw [bounds?_sample hdefined hlo hhi hlt]
    exact if_neg hflat
  · rw [List.length_map, List.length_range]
  · rw [List.map_map, List.pairwise_map]
    exact List.pairwise_lt_range.imp fun hkl => levelBetween_lt hlt hkl
  · intro line hline
    obtain ⟨k, hk, rfl⟩ := List.mem_map.mp hline
    obtain ⟨hbelow, habove⟩ := levelBetween_mem hlt (List.mem_range.mp hk)
    exact ⟨hbelow, habove, levelSet_ne_nil hdefined hn hlo.1 hhi.1 hbelow habove.le⟩

/-- Three levels of a saddle over four cells. -/
theorem contourLines_drawn_saddle :
    let f : ℚ → ℚ → ℚ := fun x y => x * y
    (∀ p ≤ (2, 2), isDefined ((Objective.plane f).guarded (nodeAt (-1, 1) (-1, 1) 2 p)) = true) ∧
      IsLeast (nodeHeights f (-1, 1) (-1, 1) 2) (-1) ∧ IsGreatest (nodeHeights f (-1, 1) (-1, 1) 2) 1 ∧
      ∃ lines, contourLines f (-1, 1) (-1, 1) 3 2 = .ok lines ∧ lines.length = 3 ∧
        (lines.map (·.level)).Pairwise (· < ·) ∧
          ∀ line ∈ lines, -1 < line.level ∧ line.level < 1 ∧ line.segments ≠ [] := by
  intro f
  have hnodes : ∀ i ≤ 2, ∀ j ≤ 2, isDefined ((Objective.plane f).guarded (nodeAt (-1, 1) (-1, 1) 2 (i, j))) = true ∧
      -1 ≤ (Objective.plane f).guarded (nodeAt (-1, 1) (-1, 1) 2 (i, j)) ∧
      (Objective.plane f).guarded (nodeAt (-1, 1) (-1, 1) 2 (i, j)) ≤ 1 := by decide +kernel
  have hdefined : ∀ p ≤ (2, 2), isDefined ((Objective.plane f).guarded (nodeAt (-1, 1) (-1, 1) 2 p)) = true :=
    fun p hp => (hnodes p.1 hp.1 p.2 hp.2).1
  have hlo : IsLeast (nodeHeights f (-1, 1) (-1, 1) 2) (-1) := by
    refine ⟨⟨(0, 2), by decide, by decide +kernel⟩, ?_⟩
    rintro z ⟨p, hp, rfl⟩
    exact (hnodes p.1 hp.1 p.2 hp.2).2.1
  have hhi : IsGreatest (nodeHeights f (-1, 1) (-1, 1) 2) 1 := by
    refine ⟨⟨(2, 2), by decide, by decide +kernel⟩, ?_⟩
    rintro z ⟨p, hp, rfl⟩
    exact (hnodes p.1 hp.1 p.2 hp.2).2.2
  exact ⟨hdefined, hlo, hhi, contourLines_drawn 3 (by norm_num) (by norm_num) (by norm_num) hdefined hlo hhi (by norm_num)⟩

end Numerics.Plot
