import Mathlib.Algebra.Order.Floor.Semiring
import Mathlib.Data.Nat.Log
import Mathlib.Data.Rat.Floor
import Mathlib.Tactic.FieldSimp
import Mathlib.Tactic.Linarith
import Numerics.Failure
import Numerics.Goal

/-!
# Exact arithmetic

The methods with the operations of an ordered field, in which sums, products and quotients are exact: every number is
finite, and the sentinel is some positive number.  Numerals, the smaller and the larger number and the checks of arguments
mean in it what they mean in the field, and its number of halvings is enough (`halvings_spec`).
-/

namespace Numerics

/-- An ordered field to compute in, with a sentinel and a fraction at which to cut brackets. -/
class ExactArithmetic (K : Type) extends Field K, LinearOrder K, IsStrictOrderedRing K, FloorRing K where
  sentinel : K
  sentinel_pos : 0 < sentinel
  cut : K
  cut_pos : 0 < cut
  cut_lt_one : cut < 1

/-- The rational numbers, with the sentinel and the cut of machine numbers. -/
instance : ExactArithmetic ℚ where
  sentinel := 17976931348623156 * 10 ^ 289
  sentinel_pos := by norm_num
  cut := 618033988749895 / 10 ^ 15
  cut_pos := by norm_num
  cut_lt_one := by norm_num

variable {K : Type} [ExactArithmetic K]

instance : Scalar K where
  add x y := x + y
  sub x y := x - y
  mul x y := x * y
  div x y := x / y
  neg x := -x
  lt x y := x < y
  le x y := x ≤ y
  natCast n := n
  abs x := |x|
  isFinite _ := true
  isNegative x := decide (x < 0)
  undefined := ExactArithmetic.sentinel
  goldenCut := ExactArithmetic.cut
  halvings w e := Nat.clog 2 ⌈w / e⌉₊
  decideLt x y := inferInstanceAs (Decidable (x < y))
  decideLe x y := inferInstanceAs (Decidable (x ≤ y))

namespace Exact

variable {x y lo hi : K}

/-- The zero of the methods is that of the field. -/
theorem zero_eq : @OfNat.ofNat K 0 (Scalar.instOfNat 0) = 0 := Nat.cast_zero

theorem one_eq : @OfNat.ofNat K 1 (Scalar.instOfNat 1) = 1 := Nat.cast_one

theorem half_eq : (Scalar.half : K) = 1 / 2 := by
  change ((1 : ℕ) : K) / ((2 : ℕ) : K) = 1 / 2
  rw [Nat.cast_one, Nat.cast_ofNat]

theorem place_eq (k : ℕ) : (Scalar.place k : K) = 1 / 10 ^ k := by
  change ((1 : ℕ) : K) / ((10 ^ k : ℕ) : K) = 1 / 10 ^ k
  rw [Nat.cast_one, Nat.cast_pow, Nat.cast_ofNat]

@[simp] theorem least_eq : Scalar.least x y = min x y := by
  unfold Scalar.least
  split
  · next h => exact (min_eq_left (le_of_lt h)).symm
  · next h => exact (min_eq_right (not_lt.mp h)).symm

@[simp] theorem greatest_eq : Scalar.greatest x y = max x y := by
  unfold Scalar.greatest
  split
  · next h => exact (max_eq_left (le_of_lt h)).symm
  · next h => exact (max_eq_right (not_lt.mp h)).symm

theorem clamp_eq (h : lo ≤ hi) : Scalar.clamp x lo hi = max lo (min x hi) := by
  unfold Scalar.clamp
  split
  · next hlo => exact (max_eq_left ((min_le_left _ _).trans (le_of_lt hlo))).symm
  · next hlo =>
    split
    · next hhi => rw [min_eq_right (le_of_lt hhi), max_eq_right h]
    · next hhi => rw [min_eq_left (not_lt.mp hhi), max_eq_right (not_lt.mp hlo)]

/-- A point between the ends is left where it is. -/
theorem clamp_of_mem (h : x ∈ Set.Icc lo hi) : Scalar.clamp x lo hi = x := by
  rw [clamp_eq (h.1.trans h.2), min_eq_left h.2, max_eq_right h.1]

theorem clamp_mem (h : lo ≤ hi) : Scalar.clamp x lo hi ∈ Set.Icc lo hi := by
  rw [clamp_eq h]
  exact ⟨le_max_left _ _, max_le h (min_le_right _ _)⟩

/-- Some of `n` equal steps from one end to the other lead to a point between them. -/
theorem steps_mem {t : K} {n : ℕ} (h : lo ≤ hi) (ht : 0 ≤ t) (htn : t ≤ n) :
    lo ≤ lo + t * ((hi - lo) / n) ∧ lo + t * ((hi - lo) / n) ≤ hi := by
  have hstep : 0 ≤ (hi - lo) / n := div_nonneg (sub_nonneg.mpr h) n.cast_nonneg
  have hall : (n : K) * ((hi - lo) / n) ≤ hi - lo := by
    rw [mul_div_left_comm]
    exact mul_le_of_le_one_right (sub_nonneg.mpr h) (div_self_le_one _)
  constructor
  · linarith [mul_nonneg ht hstep]
  · linarith [mul_le_mul_of_nonneg_right htn hstep]

/-! ### Defined values -/

theorem isDefined_iff : isDefined x = true ↔ |x| < ExactArithmetic.sentinel := by
  change (true && decide (|x| < ExactArithmetic.sentinel)) = true ↔ _
  rw [Bool.true_and, decide_eq_true_iff]

theorem withinLimit_iff : withinLimit x = true ↔ |x| ≤ 10 ^ 10 := by
  change (true && decide (|x| ≤ ((10000000000 : ℕ) : K))) = true ↔ _
  rw [Bool.true_and, decide_eq_true_iff, Nat.cast_ofNat]
  norm_num

/-- Between inputs within the limit all are. -/
theorem withinLimit_of_mem (hlo : withinLimit lo = true) (hhi : withinLimit hi = true) (hx : lo ≤ x ∧ x ≤ hi) :
    withinLimit x = true := by
  rw [withinLimit_iff, abs_le] at *
  exact ⟨hlo.1.trans hx.1, hx.2.trans hhi.2⟩

/-- The sentinel is not a defined value. -/
@[simp] theorem isDefined_undefined : isDefined (Scalar.undefined : K) = false := by
  rw [Bool.eq_false_iff, ne_eq, isDefined_iff]
  exact not_lt.mpr (le_abs_self _)

/-! ### Checks of arguments -/

theorem checkInterval_eq_ok_iff : checkInterval x y = .ok () ↔ x < y := by
  unfold checkInterval
  change (if (!true || !true || decide (y ≤ x)) = true then _ else _) = _ ↔ _
  rw [← not_le]
  by_cases h : y ≤ x <;> simp [h]

theorem checkEpsilon_eq_ok_iff : checkEpsilon x = .ok () ↔ 0 < x := by
  unfold checkEpsilon
  change (if (!true || decide (x ≤ ((0 : ℕ) : K))) = true then _ else _) = _ ↔ _
  rw [← not_le, Nat.cast_zero]
  by_cases h : x ≤ 0 <;> simp [h]

theorem checkLambda_eq_ok_iff : checkLambda x = .ok () ↔ 0 < x := by
  unfold checkLambda
  change (if (!true || decide (x ≤ ((0 : ℕ) : K))) = true then _ else _) = _ ↔ _
  rw [← not_le, Nat.cast_zero]
  by_cases h : x ≤ 0 <;> simp [h]

omit [ExactArithmetic K] in
theorem checkMaxIterations_eq_ok_iff {n : ℕ} :
    (checkMaxIterations n : Except (InputError K) Unit) = .ok () ↔ 1 ≤ n ∧ n ≤ 10000 := by
  unfold checkMaxIterations
  split <;> simp_all <;> omega

/-! ### Halvings -/

/-- The number of halvings takes the width to at most the tolerance. -/
theorem halvings_spec (h : 0 < y) : x ≤ y * 2 ^ Scalar.halvings x y := by
  have hceil : x / y ≤ (⌈x / y⌉₊ : K) := Nat.le_ceil _
  have hpow : (⌈x / y⌉₊ : K) ≤ 2 ^ Scalar.halvings x y := by
    exact_mod_cast Nat.le_pow_clog one_lt_two ⌈x / y⌉₊
  calc x = y * (x / y) := by field_simp
    _ ≤ y * 2 ^ Scalar.halvings x y := mul_le_mul_of_nonneg_left (hceil.trans hpow) h.le

end Exact

theorem Goal.isDefined_of_improves {α : Type} [Scalar α] {goal : Goal} {candidate reference : α}
    (h : goal.improves candidate reference = true) : isDefined candidate = true := by
  unfold improves at h
  cases hdefined : isDefined candidate with
  | true => rfl
  | false => simp [hdefined] at h

end Numerics
