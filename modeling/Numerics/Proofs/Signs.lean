import Mathlib.Algebra.Order.AbsoluteValue.Basic
import Numerics.Probe
import Numerics.Proofs.Exact

/-!
# Signs and order

What a search for a root relies on in the numbers it computes with: how the order reaches past a number that is not below
another one, that a number which is not close to zero is negative or positive and its sign bit says which, and that the
product of two such numbers with one sign is positive.
-/

namespace Numerics

open Scalar

/-- Numbers whose sign agrees with their order, and whose products vanish only if a factor is close to zero. -/
class SignedOrder (α : Type) [Scalar α] : Prop where
  isFinite_undefined : isFinite (undefined : α) = true
  isFinite_abs : ∀ {x : α}, isFinite x = true → isFinite (Scalar.abs x) = true
  lt_of_lt_of_not_lt : ∀ {x y z : α}, isFinite z = true → x < y → ¬ z < y → x < z
  neg_or_pos : ∀ {x e : α}, isFinite x = true → isFinite e = true → ¬ e ≤ 0 → ¬ Scalar.abs x < e → x < 0 ∨ 0 < x
  isNegative_of_neg : ∀ {x : α}, x < 0 → isNegative x = true
  isNegative_of_pos : ∀ {x : α}, 0 < x → isNegative x = false
  mul_pos : ∀ {x y : α}, isFinite x = true → isFinite y = true → Probe.zeroThreshold < Scalar.abs x →
    Probe.zeroThreshold < Scalar.abs y → isNegative x = isNegative y → 0 < x * y

section Exact

variable {K : Type} [ExactArithmetic K]

theorem Exact.zeroThreshold_pos : (0 : K) < Probe.zeroThreshold := by
  change (0 : K) < ((1 : ℕ) : K) / ((10 ^ 15 : ℕ) : K)
  positivity

instance : SignedOrder K where
  isFinite_undefined := rfl
  isFinite_abs _ := rfl
  lt_of_lt_of_not_lt _ hxy hzy := lt_of_lt_of_le hxy (not_lt.mp hzy)
  neg_or_pos := by
    intro x e _ _ hpos hge
    change ¬ e ≤ ((0 : ℕ) : K) at hpos
    change x < ((0 : ℕ) : K) ∨ ((0 : ℕ) : K) < x
    rw [Nat.cast_zero] at *
    have habs : 0 < |x| := (not_le.mp hpos).trans_le (not_lt.mp hge)
    exact lt_or_gt_of_ne (abs_pos.mp habs)
  isNegative_of_neg := by
    intro x h
    rw [Exact.zero_eq] at h
    exact decide_eq_true h
  isNegative_of_pos := by
    intro x h
    rw [Exact.zero_eq] at h
    exact decide_eq_false (not_lt_of_gt h)
  mul_pos := by
    intro x y _ _ hx hy hsign
    have hx0 : x ≠ 0 := abs_pos.mp (Exact.zeroThreshold_pos.trans hx)
    have hy0 : y ≠ 0 := abs_pos.mp (Exact.zeroThreshold_pos.trans hy)
    rw [Exact.zero_eq]
    have hiff : x < 0 ↔ y < 0 := decide_eq_decide.mp hsign
    rcases lt_or_gt_of_ne hx0 with hneg | hpos
    · exact mul_pos_of_neg_of_neg hneg (hiff.mp hneg)
    · exact mul_pos hpos (lt_of_le_of_ne (not_lt.mp fun h => not_lt_of_gt hpos (hiff.mpr h)) hy0.symm)

end Exact

end Numerics
