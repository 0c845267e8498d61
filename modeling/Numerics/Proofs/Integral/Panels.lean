import Mathlib.Algebra.BigOperators.Field
import Mathlib.Algebra.BigOperators.Ring.Finset
import Mathlib.Tactic.FieldSimp
import Mathlib.Tactic.Ring
import Numerics.Proofs.Integral.Samples
import Numerics.Proofs.Integral.Schedule

/-!
# Rules panel by panel

A composite rule divides an interval into panels of one width, and adds up what it takes for the integral over each of them
(`Rule.panel`).  Simpson's rule takes two subintervals for a panel, all others one.  In exact arithmetic the sum over the nodes
of a rule, with its passes and end weights, is the sum over its panels (`value_weightedSum_eq`), so that what holds on one panel
holds of the whole interval.
-/

namespace Numerics

variable {K : Type} [ExactArithmetic K]

/-- The number of panels of a rule over `n` subintervals. -/
def Rule.panels (rule : Rule) (n : ℕ) : ℕ :=
  match rule with
  | simpson => n / 2
  | _ => n

/-- What a rule takes for the integral of `g` over the panel of width `w` from `x` on. -/
def Rule.panel (rule : Rule) (g : K → K) (x w : K) : K :=
  match rule with
  | leftRectangles => w * g x
  | rightRectangles => w * g (x + w)
  | midpoints => w * g (x + w / 2)
  | trapezoids => w * ((g x + g (x + w)) / 2)
  | simpson => w / 6 * (g x + 4 * g (x + w / 2) + g (x + w))

/-- A count that the rule uses makes a panel at least. -/
theorem Rule.panels_fixedNat_pos {rule : Rule} {n : ℕ} (h : 0 < n) : 0 < rule.panels (rule.fixedNat n) := by
  cases rule with
  | simpson => exact Nat.div_pos ((le_max_right n 2).trans le_evenNat) Nat.two_pos
  | _ => exact h

namespace Integral

open Query Scalar

/-- What a rule takes for the integral of `g` over `m` panels of `[a, b]`. -/
def panelSum (rule : Rule) (g : K → K) (a b : K) (m : ℕ) : K :=
  ∑ i ∈ Finset.range m, rule.panel g (a + i * ((b - a) / m)) ((b - a) / m)

variable {rule : Rule} {f g : K → K} {a b : K} {n : ℕ}

/-! ### Sums over panels -/

/-- Inner nodes belong to two panels. -/
theorem sum_range_add_succ (u : ℕ → K) (m : ℕ) :
    ∑ i ∈ Finset.range (m + 1), (u i + u (i + 1)) = u 0 + 2 * ∑ i ∈ Finset.range m, u (i + 1) + u (m + 1) := by
  rw [Finset.sum_add_distrib, Finset.sum_range_succ' u, Finset.sum_range_succ fun i => u (i + 1)]
  ring

/-- Two panels for one. -/
theorem sum_range_two_mul (u : ℕ → K) (m : ℕ) :
    ∑ i ∈ Finset.range (2 * m), u i = ∑ i ∈ Finset.range m, (u (2 * i) + u (2 * i + 1)) := by
  induction m with
  | zero => rfl
  | succ m ih => rw [Nat.mul_succ, Finset.sum_range_succ, Finset.sum_range_succ, ih, Finset.sum_range_succ, add_assoc]

theorem value_sumOver_eq_sum {node : ℕ → K} {count : ℕ} :
    (sumOver node count).value g = ∑ i ∈ Finset.range count, g (node i) := value_sumOver

/-- The end of a panel is the start of the next one. -/
theorem start_succ {w : K} (i : ℕ) : a + i * w + w = a + ((i + 1 : ℕ) : K) * w := by
  push_cast
  ring

theorem start_zero {w : K} : a + ((0 : ℕ) : K) * w = a := by rw [Nat.cast_zero, zero_mul, add_zero]

/-- The last panel ends at the end of the interval. -/
theorem start_last (hn : 0 < n) : a + n * ((b - a) / n) = b := by
  rw [mul_div_cancel₀ _ (Nat.cast_ne_zero.mpr hn.ne'), add_sub_cancel]

theorem value_trapezoids (m : ℕ) :
    (weightedSum .trapezoids a b (m + 1)).value g = panelSum .trapezoids g a b (m + 1) := by
  let w : K := (b - a) / ((m + 1 : ℕ) : K)
  let u (i : ℕ) : K := g (a + i * w)
  have hstart : u 0 = g a := congrArg g start_zero
  have hend : u (m + 1) = g b := congrArg g (start_last m.succ_pos)
  calc (weightedSum .trapezoids a b (m + 1)).value g
      = w * (Scalar.half * (g a + g b) + ∑ i ∈ Finset.range m, u (i + 1)) := by
        simp only [weightedSum, value_bind, value_sumOver_eq_sum, request, pure_def, Query.value, Nat.add_sub_cancel]
        rfl
    _ = w * ((∑ i ∈ Finset.range (m + 1), (u i + u (i + 1))) / 2) := by
        rw [sum_range_add_succ, hstart, hend, Exact.half_eq]
        ring
    _ = ∑ i ∈ Finset.range (m + 1), w * ((u i + u (i + 1)) / 2) := by rw [Finset.sum_div, Finset.mul_sum]
    _ = panelSum .trapezoids g a b (m + 1) := by
        refine Finset.sum_congr rfl fun i _ => ?_
        rw [Rule.panel, start_succ]

theorem value_simpson (m : ℕ) : (weightedSum .simpson a b (2 * (m + 1))).value g = panelSum .simpson g a b (m + 1) := by
  let w : K := (b - a) / ((m + 1 : ℕ) : K)
  let u (i : ℕ) : K := g (a + i * w)
  let v (i : ℕ) : K := g (a + i * w + w / 2)
  have hstart : u 0 = g a := congrArg g start_zero
  have hend : u (m + 1) = g b := congrArg g (start_last m.succ_pos)
  have hstep : (b - a) / ((2 * (m + 1) : ℕ) : K) = w / 2 := by
    change _ = (b - a) / ((m + 1 : ℕ) : K) / 2
    rw [Nat.cast_mul, Nat.cast_ofNat, div_div, mul_comm]
  have hodd : ∀ i : ℕ, g (a + ((2 * i + 1 : ℕ) : K) * (w / 2)) = v i := fun i => congrArg g (by push_cast; ring)
  have heven : ∀ i : ℕ, g (a + ((2 * i + 2 : ℕ) : K) * (w / 2)) = u (i + 1) := fun i => congrArg g (by push_cast; ring)
  have hodds : 2 * (m + 1) / 2 = m + 1 := by omega
  have hevens : (2 * (m + 1) - 1) / 2 = m := by omega
  calc (weightedSum .simpson a b (2 * (m + 1))).value g
      = w / 2 / 3 * (g a + 4 * ∑ i ∈ Finset.range (m + 1), v i + 2 * ∑ i ∈ Finset.range m, u (i + 1) + g b) := by
        simp only [weightedSum, value_bind, value_sumOver_eq_sum, request, pure_def, Query.value, hstep, hodd, heven, hodds,
          hevens]
    _ = w / 6 * (4 * ∑ i ∈ Finset.range (m + 1), v i + ∑ i ∈ Finset.range (m + 1), (u i + u (i + 1))) := by
        rw [sum_range_add_succ, hstart, hend]
        ring
    _ = ∑ i ∈ Finset.range (m + 1), w / 6 * (u i + 4 * v i + u (i + 1)) := by
        rw [Finset.mul_sum, ← Finset.sum_add_distrib, Finset.mul_sum]
        exact Finset.sum_congr rfl fun i _ => by ring
    _ = panelSum .simpson g a b (m + 1) := by
        refine Finset.sum_congr rfl fun i _ => ?_
        rw [Rule.panel, start_succ]

/-- **Panels.** The sum over the nodes of a rule is the sum over its panels. -/
theorem value_weightedSum_eq (hn : 0 < n) (heven : rule = .simpson → Even n) :
    (weightedSum rule a b n).value g = panelSum rule g a b (rule.panels n) := by
  cases rule with
  | leftRectangles =>
    simp only [weightedSum, value_bind, value_sumOver_eq_sum, pure_def, Query.value]
    exact Finset.mul_sum ..
  | rightRectangles =>
    simp only [weightedSum, value_bind, value_sumOver_eq_sum, pure_def, Query.value]
    refine (Finset.mul_sum ..).trans (Finset.sum_congr rfl fun i _ => ?_)
    rw [Rule.panel, start_succ]
    rfl
  | midpoints =>
    simp only [weightedSum, value_bind, value_sumOver_eq_sum, pure_def, Query.value, Exact.half_eq]
    refine (Finset.mul_sum ..).trans (Finset.sum_congr rfl fun i _ => ?_)
    have hmiddle : ∀ w : K, a + (i + 1 / 2) * w = a + i * w + w / 2 := fun w => by ring
    exact congrArg (fun x => (b - a) / n * g x) (hmiddle _)
  | trapezoids =>
    obtain ⟨m, rfl⟩ := Nat.exists_eq_succ_of_ne_zero hn.ne'
    exact value_trapezoids m
  | simpson =>
    obtain ⟨k, rfl⟩ := (heven rfl).two_dvd
    obtain ⟨m, rfl⟩ := Nat.exists_eq_succ_of_ne_zero (Nat.pos_of_mul_pos_left hn).ne'
    rw [Rule.panels, Nat.mul_div_cancel_left _ Nat.two_pos]
    exact value_simpson m

/-- The integral by a rule is its sum, or undefined if that is as large as the sentinel. -/
theorem integrate_eq_sanitize {n : UInt64} (hab : a < b) (hn : 0 < n.toNat) :
    integrate f a b n rule =
      .ok (sanitize ((weightedSum rule a b (rule.fixedCount n).toNat).value (Objective.line f).guarded)) := by
  rw [integrate_eq_sumAt_fixedCount (Exact.checkInterval_eq_ok_iff.mpr hab) hn, sumAt, compositeSum, value_bind]
  rfl

end Integral

end Numerics
