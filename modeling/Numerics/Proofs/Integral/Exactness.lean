import Mathlib
import Numerics.Proofs.Answers
import Numerics.Proofs.Integral.Panels

/-!
# Polynomials that are integrated exactly

On one panel a rule takes for the integral of a polynomial what its antiderivative gains there, if the degree is not too high for
the rule (`panel_derivative`).  The gains over all panels add up to the gain over the interval (`panelSum_derivative`), however
many panels there are.
-/

open Polynomial

namespace Numerics

/-- The rule integrates polynomials up to this degree exactly. -/
def Rule.degree : Rule → ℕ
  | leftRectangles => 0
  | rightRectangles => 0
  | midpoints => 1
  | trapezoids => 1
  | simpson => 3

namespace Integral

open Query Scalar

variable {K : Type} [ExactArithmetic K] {rule : Rule} {f : K → K} {a b x w : K} {P p : K[X]} {n : ℕ}

/-! ### Antiderivatives -/

theorem exists_derivative_eq (p : K[X]) : ∃ P, derivative P = p := by
  induction p using Polynomial.induction_on' with
  | add p q hp hq =>
    obtain ⟨P, rfl⟩ := hp
    obtain ⟨Q, rfl⟩ := hq
    exact ⟨P + Q, derivative_add⟩
  | monomial i c =>
    have hne : ((i + 1 : ℕ) : K) ≠ 0 := Nat.cast_ne_zero.mpr i.succ_ne_zero
    exact ⟨monomial (i + 1) (c / ((i + 1 : ℕ) : K)), by rw [derivative_monomial, div_mul_cancel₀ _ hne, Nat.add_sub_cancel]⟩

/-- The gain of an antiderivative is the integral, seen in the reals. -/
theorem integral_map_derivative (φ : K →+* ℝ) (P : K[X]) (a b : K) :
    ∫ x in φ a..φ b, ((derivative P).map φ).eval x = φ (P.eval b - P.eval a) := by
  rw [intervalIntegral.integral_eq_sub_of_hasDerivAt fun x _ => by
    rw [← derivative_map]
    exact (P.map φ).hasDerivAt x]
  · rw [eval_map_apply, eval_map_apply, map_sub]
  · exact (Polynomial.continuous _).intervalIntegrable _ _

/-! ### Panels -/

theorem eval_eq_sum (hdegree : (derivative P).natDegree ≤ n) (y : K) :
    P.eval y = ∑ i ∈ Finset.range (n + 2), P.coeff i * y ^ i := by
  rw [natDegree_derivative] at hdegree
  exact eval_eq_sum_range' (by omega) y

theorem eval_derivative_eq_sum (hdegree : (derivative P).natDegree ≤ n) (y : K) :
    (derivative P).eval y = ∑ i ∈ Finset.range (n + 1), P.coeff (i + 1) * (i + 1) * y ^ i := by
  rw [eval_eq_sum_range' (Nat.lt_succ_of_le hdegree)]
  simp only [coeff_derivative]

/-- **Panels.** The rule takes for the integral what the antiderivative gains on the panel. -/
theorem panel_derivative (hdegree : (derivative P).natDegree ≤ rule.degree) (x w : K) :
    rule.panel (fun y => (derivative P).eval y) x w = P.eval (x + w) - P.eval x := by
  cases rule <;>
    simp only [Rule.panel, eval_eq_sum hdegree, eval_derivative_eq_sum hdegree, Rule.degree, Finset.sum_range_succ,
      Finset.sum_range_zero] <;>
    push_cast <;> ring

theorem panelSum_derivative (hdegree : (derivative P).natDegree ≤ rule.degree) (hn : 0 < n) :
    panelSum rule (fun y => (derivative P).eval y) a b n = P.eval b - P.eval a := by
  let w : K := (b - a) / n
  calc panelSum rule (fun y => (derivative P).eval y) a b n
      = ∑ i ∈ Finset.range n, (P.eval (a + ((i + 1 : ℕ) : K) * w) - P.eval (a + (i : K) * w)) :=
        Finset.sum_congr rfl fun i _ => by rw [panel_derivative hdegree, start_succ]
    _ = P.eval (a + (n : K) * w) - P.eval (a + ((0 : ℕ) : K) * w) := Finset.sum_range_sub (fun i => P.eval (a + (i : K) * w)) n
    _ = P.eval b - P.eval a := by rw [start_last hn, start_zero]

/-! ### Integrals -/

/-- The values at the nodes are all that a rule sees of a function. -/
theorem value_weightedSum_guarded (hab : a ≤ b) (ha : withinLimit a = true) (hb : withinLimit b = true)
    (hvalues : ∀ s ∈ samples rule a b n, isDefined (f s.2) = true) :
    (weightedSum rule a b n).value (Objective.line f).guarded = (weightedSum rule a b n).value f := by
  symm
  refine value_congr _ fun x hx => ?_
  rw [requests_weightedSum] at hx
  obtain ⟨s, hs, rfl⟩ := List.mem_map.mp hx
  have hlimit := Exact.withinLimit_of_mem ha hb (mem_of_mem_samples hab hs)
  exact (guarded_eq_value (o := Objective.line f) hlimit (hvalues s hs)).symm

/-- **Exact integrals.** For polynomials up to its degree a rule gives the exact integral, whatever the count. -/
theorem integrate_polynomial {n : UInt64} (hab : a < b) (ha : withinLimit a = true) (hb : withinLimit b = true)
    (hn : 1 ≤ n.toNat) (hfit : rule.fixedNat n.toNat < 2 ^ 64) (hdegree : p.natDegree ≤ rule.degree)
    (hvalues : ∀ s ∈ samples rule a b (rule.fixedCount n).toNat, isDefined (p.eval s.2) = true)
    (hsum : isDefined ((weightedSum rule a b (rule.fixedCount n).toNat).value fun x => p.eval x) = true) :
    ∃ P : K[X], derivative P = p ∧ integrate (fun x => p.eval x) a b n rule = .ok (P.eval b - P.eval a) ∧
      ∀ φ : K →+* ℝ, φ (P.eval b - P.eval a) = ∫ x in φ a..φ b, (p.map φ).eval x := by
  obtain ⟨P, rfl⟩ := exists_derivative_eq p
  refine ⟨P, rfl, ?_, fun φ => (integral_map_derivative φ P a b).symm⟩
  have htotal : (weightedSum rule a b (rule.fixedCount n).toNat).value (fun x => (derivative P).eval x) =
      P.eval b - P.eval a := by
    rw [Rule.toNat_fixedCount hfit, value_weightedSum_eq (Rule.fixedNat_pos hn) Rule.even_fixedNat]
    exact panelSum_derivative hdegree (Rule.panels_fixedNat_pos hn)
  rw [htotal] at hsum
  rw [integrate_eq_sanitize hab hn, value_weightedSum_guarded hab.le ha hb hvalues, htotal, sanitize_of_isDefined hsum]

/-- Simpson's rule for a cube, with an odd count. -/
theorem integrate_polynomial_cube :
    let p : ℚ[X] := X ^ 3
    p.natDegree ≤ Rule.simpson.degree ∧
      (∀ s ∈ samples .simpson 0 1 (Rule.simpson.fixedCount 3).toNat, isDefined (p.eval s.2) = true) ∧
      isDefined ((weightedSum .simpson 0 1 (Rule.simpson.fixedCount 3).toNat).value fun x => p.eval x) = true ∧
      ∃ P : ℚ[X], derivative P = p ∧ integrate (fun x => p.eval x) 0 1 3 .simpson = .ok (P.eval 1 - P.eval 0) ∧
        ∀ φ : ℚ →+* ℝ, φ (P.eval 1 - P.eval 0) = ∫ x in φ 0..φ 1, (p.map φ).eval x := by
  intro p
  have heval : (fun x => p.eval x) = fun x : ℚ => x ^ 3 := funext fun x => by rw [eval_pow, eval_X]
  have hdegree : p.natDegree ≤ Rule.simpson.degree := (natDegree_X_pow 3).le
  have hvalues : ∀ s ∈ samples .simpson 0 1 (Rule.simpson.fixedCount 3).toNat, isDefined (p.eval s.2) = true := by
    have hcubes : ∀ s ∈ samples .simpson 0 1 (Rule.simpson.fixedCount 3).toNat, isDefined (s.2 ^ 3 : ℚ) = true := by
      decide +kernel
    intro s hs
    rw [congrFun heval s.2]
    exact hcubes s hs
  have hsum : isDefined ((weightedSum .simpson 0 1 (Rule.simpson.fixedCount 3).toNat).value fun x => p.eval x) = true := by
    rw [heval]
    decide +kernel
  exact ⟨hdegree, hvalues, hsum, integrate_polynomial (by norm_num) (by decide +kernel) (by decide +kernel) (by decide)
    (by decide) hdegree hvalues hsum⟩

end Integral

end Numerics
