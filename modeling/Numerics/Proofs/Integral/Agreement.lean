import Mathlib
import Numerics.Proofs.Answers
import Numerics.Proofs.Integral.Panels

/-!
# How the rules agree

Relations between the rules on one panel, and on the two halves of a panel, hold of their sums over all panels.  So the sums of
twice the count are means of sums of the count itself (`panelSum_trapezoids_two_mul`, `panelSum_leftRectangles_two_mul`), and
those of Simpson's rule come of them without a new sample (`panelSum_simpson`).
-/

namespace Numerics.Integral

open Scalar

variable {K : Type} [ExactArithmetic K] {rule : Rule} {f : K → K} {x : K}

/-! ### Sums -/

section Sums

variable (g : K → K) (a b : K) (m : ℕ)

/-- Twice as many panels are the halves of the panels. -/
theorem panelSum_two_mul (rule : Rule) : panelSum rule g a b (2 * m) = ∑ i ∈ Finset.range m,
    (rule.panel g (a + i * ((b - a) / m)) ((b - a) / m / 2) +
      rule.panel g (a + i * ((b - a) / m) + (b - a) / m / 2) ((b - a) / m / 2)) := by
  have hhalf : (b - a) / ((2 * m : ℕ) : K) = (b - a) / m / 2 := by rw [Nat.cast_mul, Nat.cast_ofNat, div_div, mul_comm]
  rw [panelSum, sum_range_two_mul, hhalf]
  refine Finset.sum_congr rfl fun i _ => ?_
  have hleft : a + ((2 * i : ℕ) : K) * ((b - a) / m / 2) = a + i * ((b - a) / m) := by
    push_cast
    ring
  have hright : a + ((2 * i + 1 : ℕ) : K) * ((b - a) / m / 2) = a + i * ((b - a) / m) + (b - a) / m / 2 := by
    rw [← start_succ, hleft]
  rw [hleft, hright]

/-- Sums of means are means of sums. -/
theorem sum_range_mean {u v w : ℕ → K} (h : ∀ i, u i = (v i + w i) / 2) :
    ∑ i ∈ Finset.range m, u i = (∑ i ∈ Finset.range m, v i + ∑ i ∈ Finset.range m, w i) / 2 := by
  rw [← Finset.sum_add_distrib, Finset.sum_div]
  exact Finset.sum_congr rfl fun i _ => h i

theorem panelSum_trapezoids :
    panelSum .trapezoids g a b m = (panelSum .leftRectangles g a b m + panelSum .rightRectangles g a b m) / 2 := by
  refine sum_range_mean m fun i => ?_
  simp only [Rule.panel]
  ring

theorem panelSum_trapezoids_two_mul :
    panelSum .trapezoids g a b (2 * m) = (panelSum .trapezoids g a b m + panelSum .midpoints g a b m) / 2 := by
  rw [panelSum_two_mul]
  refine sum_range_mean m fun i => ?_
  simp only [Rule.panel, add_assoc, add_halves]
  ring

theorem panelSum_leftRectangles_two_mul :
    panelSum .leftRectangles g a b (2 * m) = (panelSum .leftRectangles g a b m + panelSum .midpoints g a b m) / 2 := by
  rw [panelSum_two_mul]
  refine sum_range_mean m fun i => ?_
  simp only [Rule.panel]
  ring

theorem panelSum_simpson :
    panelSum .simpson g a b m = (2 * panelSum .midpoints g a b m + panelSum .trapezoids g a b m) / 3 := by
  simp only [panelSum]
  rw [Finset.mul_sum, ← Finset.sum_add_distrib, Finset.sum_div]
  refine Finset.sum_congr rfl fun i _ => ?_
  simp only [Rule.panel]
  ring

end Sums

/-! ### Defined sums -/

section Defined

theorem isDefined_mean {x y : K} (hx : isDefined x = true) (hy : isDefined y = true) : isDefined ((x + y) / 2) = true := by
  rw [Exact.isDefined_iff, abs_lt] at *
  constructor <;> linarith

theorem isDefined_weightedMean {x y : K} (hx : isDefined x = true) (hy : isDefined y = true) :
    isDefined ((2 * x + y) / 3) = true := by
  rw [Exact.isDefined_iff, abs_lt] at *
  constructor <;> linarith

variable {g : K → K} {a b : K} {m : ℕ} (hl : isDefined (panelSum .leftRectangles g a b m) = true)
  (hr : isDefined (panelSum .rightRectangles g a b m) = true) (hm : isDefined (panelSum .midpoints g a b m) = true)

include hl hr in
theorem isDefined_trapezoids : isDefined (panelSum .trapezoids g a b m) = true := by
  rw [panelSum_trapezoids]
  exact isDefined_mean hl hr

include hl hr hm in
theorem isDefined_trapezoids_two_mul : isDefined (panelSum .trapezoids g a b (2 * m)) = true := by
  rw [panelSum_trapezoids_two_mul]
  exact isDefined_mean (isDefined_trapezoids hl hr) hm

include hl hm in
theorem isDefined_leftRectangles_two_mul : isDefined (panelSum .leftRectangles g a b (2 * m)) = true := by
  rw [panelSum_leftRectangles_two_mul]
  exact isDefined_mean hl hm

include hl hr hm in
theorem isDefined_simpson : isDefined (panelSum .simpson g a b m) = true := by
  rw [panelSum_simpson]
  exact isDefined_weightedMean hm (isDefined_trapezoids hl hr)

end Defined

/-! ### Integrals -/

theorem isDefined_sanitize : isDefined (sanitize x) = isDefined x := by
  unfold sanitize
  split
  · rfl
  · next h => rw [Exact.isDefined_undefined, Bool.eq_false_iff.mpr h]

/-- The integral by a rule is the sum over its panels, or undefined if that is as large as the sentinel. -/
theorem integrate_eq_panelSum {a b : K} {n : UInt64} (hab : a < b) (hn : 0 < n.toNat) (hfit : rule.fixedNat n.toNat < 2 ^ 64) :
    integrate f a b n rule =
      .ok (sanitize (panelSum rule (Objective.line f).guarded a b (rule.panels (rule.fixedNat n.toNat)))) := by
  rw [integrate_eq_sanitize hab hn, Rule.toNat_fixedCount hfit, value_weightedSum_eq (Rule.fixedNat_pos hn) Rule.even_fixedNat]

/-- Twice a count is used as it is. -/
theorem integrate_two_mul_eq_panelSum {a b : K} {n : UInt64} (hab : a < b) (hn : 0 < n.toNat) (hfit : 2 * n.toNat < 2 ^ 64) :
    integrate f a b (2 * n) rule =
      .ok (sanitize (panelSum rule (Objective.line f).guarded a b (rule.panels (2 * n.toNat)))) := by
  have htwice : (2 * n).toNat = 2 * n.toNat := by
    rw [UInt64.toNat_mul]
    exact Nat.mod_eq_of_lt hfit
  have hfixed : rule.fixedNat (2 * n).toNat = 2 * n.toNat := by rw [htwice, Rule.fixedNat_two_mul hn]
  rw [integrate_eq_panelSum hab (by omega) (by rwa [hfixed]), hfixed]

/-- **Agreement.** If the three rules of rectangles have defined sums, so have the others with the same count and with twice
as many subintervals, and they are means of those. -/
theorem integrals_agree (f : K → K) {a b : K} {n : UInt64} (hab : a < b) (hn : 1 ≤ n.toNat) (hfit : 2 * n.toNat < 2 ^ 64) :
    ∃ once twice : Rule → K, (∀ rule, integrate f a b n rule = .ok (once rule)) ∧
      (∀ rule, integrate f a b (2 * n) rule = .ok (twice rule)) ∧
      ((∀ rule ∈ [.leftRectangles, .rightRectangles, .midpoints], isDefined (once rule) = true) →
        once .trapezoids = (once .leftRectangles + once .rightRectangles) / 2 ∧
        twice .trapezoids = (once .trapezoids + once .midpoints) / 2 ∧
        twice .leftRectangles = (once .leftRectangles + once .midpoints) / 2 ∧
        twice .simpson = (4 * twice .trapezoids - once .trapezoids) / 3 ∧
        twice .simpson = (2 * once .midpoints + once .trapezoids) / 3) := by
  have hfixed : ∀ rule : Rule, rule.fixedNat n.toNat < 2 ^ 64 := fun rule => Rule.fixedNat_le.trans_lt (by omega)
  let g := (Objective.line f).guarded
  refine ⟨fun rule => sanitize (panelSum rule g a b (rule.panels (rule.fixedNat n.toNat))),
    fun rule => sanitize (panelSum rule g a b (rule.panels (2 * n.toNat))),
    fun rule => integrate_eq_panelSum hab hn (hfixed rule), fun rule => integrate_two_mul_eq_panelSum hab hn hfit,
    fun hrectangles => ?_⟩
  simp only [isDefined_sanitize, Rule.panels, Rule.fixedNat, List.forall_mem_cons, Nat.mul_div_cancel_left _ Nat.two_pos]
    at hrectangles ⊢
  obtain ⟨hl, hr, hm, -⟩ := hrectangles
  rw [sanitize_of_isDefined hl, sanitize_of_isDefined hr, sanitize_of_isDefined hm,
    sanitize_of_isDefined (isDefined_trapezoids hl hr), sanitize_of_isDefined (isDefined_trapezoids_two_mul hl hr hm),
    sanitize_of_isDefined (isDefined_leftRectangles_two_mul hl hm), sanitize_of_isDefined (isDefined_simpson hl hr hm)]
  refine ⟨panelSum_trapezoids .., panelSum_trapezoids_two_mul .., panelSum_leftRectangles_two_mul .., ?_, panelSum_simpson ..⟩
  rw [panelSum_simpson, panelSum_trapezoids_two_mul]
  ring

/-- A parabola over three subintervals, and over six. -/
theorem integrals_agree_square : (0 : ℚ) < 1 ∧ 1 ≤ (3 : UInt64).toNat ∧ 2 * (3 : UInt64).toNat < 2 ^ 64 ∧
    ∃ once twice : Rule → ℚ, (∀ rule, integrate (fun x : ℚ => x * x) 0 1 3 rule = .ok (once rule)) ∧
      (∀ rule, integrate (fun x : ℚ => x * x) 0 1 (2 * 3) rule = .ok (twice rule)) ∧
      once .trapezoids = (once .leftRectangles + once .rightRectangles) / 2 ∧
      twice .trapezoids = (once .trapezoids + once .midpoints) / 2 ∧
      twice .leftRectangles = (once .leftRectangles + once .midpoints) / 2 ∧
      twice .simpson = (4 * twice .trapezoids - once .trapezoids) / 3 ∧
      twice .simpson = (2 * once .midpoints + once .trapezoids) / 3 := by
  have hfit : 2 * (3 : UInt64).toNat < 2 ^ 64 := by decide
  obtain ⟨once, twice, honce, htwice, hagree⟩ :=
    integrals_agree (fun x : ℚ => x * x) (a := 0) (b := 1) (n := 3) zero_lt_one (by decide) hfit
  refine ⟨zero_lt_one, by decide, hfit, once, twice, honce, htwice, hagree fun rule hrule => ?_⟩
  have hrun : ∀ rule ∈ [Rule.leftRectangles, .rightRectangles, .midpoints],
      (integrate (fun x : ℚ => x * x) 0 1 3 rule).toOption.any (isDefined ·) = true := by decide +kernel
  have hdefined := hrun rule hrule
  rw [honce] at hdefined
  exact hdefined

end Numerics.Integral
