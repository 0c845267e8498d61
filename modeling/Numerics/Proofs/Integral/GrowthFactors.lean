import Mathlib
import Numerics.Integral.Rule
import Numerics.Proofs.MachineProducts

/-!
# Growth factors

An adaptive run goes from `n` to `n * p / q`, rounded up, and machine numbers give the same count: the number nearest to `p / q` is
off by a small part of a `2 ^ 52`-th, so that for counts of at most 48 digits the product could only miss a whole quotient, and
rounding to the nearest product goes back to it (`ceil_nearest`, `scaled_eq_ceil_product`).
-/

namespace Numerics.Rule

open MachineNumbers (value parts)

/-- A mantissa of 53 digits that is close to the `2 ^ 52`-fold of the fraction `p / q` of small numbers, and not above it by more than
a fourth. -/
structure IsMantissaOf (c p q : ℕ) : Prop where
  log2 : c.log2 = 52
  numerator : 0 < p ∧ p ≤ 13
  denominator : 0 < q ∧ q ≤ 10
  below : p * 2 ^ 52 ≤ q * c + 2
  above : 4 * (q * c) ≤ 4 * (p * 2 ^ 52) + q

theorem IsMantissaOf.pos {c p q : ℕ} (h : IsMantissaOf c p q) : 0 < c :=
  Nat.pos_of_ne_zero fun hzero => absurd (hzero ▸ h.log2) (by decide)

theorem IsMantissaOf.bounds {c p q : ℕ} (h : IsMantissaOf c p q) : 2 ^ 52 ≤ c ∧ c < 2 ^ 53 :=
  (Nat.log2_eq_iff h.pos.ne').mp h.log2

section Nearest

variable {n p q c r : ℕ} {j : ℤ} {x : ℚ}

/-- The product with the mantissa is close to that with the fraction. -/
theorem IsMantissaOf.product_near (h : IsMantissaOf c p q) (hx : x = c * n / 2 ^ 52) :
    n ≤ x ∧ x ≤ 2 * n ∧ n * p - n / 2 ^ 51 ≤ q * x ∧ q * x ≤ n * p + q * (n / 2 ^ 54) := by
  obtain ⟨hlow, hhigh⟩ := h.bounds
  have hn : (0 : ℚ) ≤ n := Nat.cast_nonneg n
  have hlow := mul_le_mul_of_nonneg_right (show (2 ^ 52 : ℚ) ≤ c by exact_mod_cast hlow) hn
  have hhigh := mul_le_mul_of_nonneg_right (show (c : ℚ) ≤ 2 ^ 53 by exact_mod_cast hhigh.le) hn
  have hbelow := mul_le_mul_of_nonneg_left (show (p * 2 ^ 52 : ℚ) ≤ q * c + 2 by exact_mod_cast h.below) hn
  have habove := mul_le_mul_of_nonneg_left (show (4 * (q * c) : ℚ) ≤ 4 * (p * 2 ^ 52) + q by exact_mod_cast h.above) hn
  rw [hx]
  refine ⟨?_, ?_, ?_, ?_⟩ <;> linarith

/-- The quotient rounded up. -/
theorem div_add_bounds (hq : 0 < q) (m : ℕ) : m ≤ q * ((m + (q - 1)) / q) ∧ q * ((m + (q - 1)) / q) + 1 ≤ m + q := by
  have hlow := Nat.lt_div_mul_add hq (a := m + (q - 1))
  have hhigh := Nat.div_mul_le_self (m + (q - 1)) q
  rw [Nat.mul_comm _ q] at hlow hhigh
  omega

/-- What is less than one unit above a whole number is not above it, if it is a multiple of the unit. -/
theorem mul_unit_le {k : ℕ} (hj : (2 : ℚ) ^ j ≤ 1) (h : (r * 2 ^ j : ℚ) < k + 2 ^ j) : (r * 2 ^ j : ℚ) ≤ k := by
  have hj : j ≤ 0 := by
    rw [← zpow_zero (2 : ℚ)] at hj
    exact (zpow_le_zpow_iff_right₀ one_lt_two).mp hj
  obtain ⟨i, rfl⟩ := Int.eq_ofNat_of_zero_le (neg_nonneg.mpr hj) |>.imp fun i h => neg_eq_iff_eq_neg.mp h
  have hu : (0 : ℚ) < 2 ^ i := pow_pos two_pos i
  rw [zpow_neg, zpow_natCast] at h ⊢
  rw [← div_eq_mul_inv, div_lt_iff₀ hu, add_mul, inv_mul_cancel₀ hu.ne'] at h
  rw [← div_eq_mul_inv, div_le_iff₀ hu]
  have h : r < k * 2 ^ i + 1 := by exact_mod_cast h
  exact_mod_cast Nat.le_of_lt_succ h

/-- **Rounding up a rounded product.** Where the product is rounded to the nearest multiple of its unit `2 ^ j`, it leads to the same
count as the fraction. -/
theorem ceil_nearest (h : IsMantissaOf c p q) (hpos : 0 < n) (hn : n ≤ 2 ^ 48) (hx : x = c * n / 2 ^ 52)
    (hlow : 2 ^ j * 2 ^ 52 ≤ x) (hhigh : x < 2 ^ j * 2 ^ 53) (hnear : |r * 2 ^ j - x| ≤ 2 ^ j / 2) :
    ⌈(r * 2 ^ j : ℚ)⌉₊ = (n * p + (q - 1)) / q := by
  obtain ⟨hq, hq'⟩ := h.denominator
  obtain ⟨hx₀, hx₁, hbelow, habove⟩ := h.product_near hx
  obtain ⟨hk₀, hk₁⟩ := div_add_bounds hq (n * p)
  generalize (n * p + (q - 1)) / q = k at hk₀ hk₁
  have hkpos : k ≠ 0 := (Nat.pos_of_mul_pos_left ((Nat.mul_pos hpos h.numerator.1).trans_le hk₀)).ne'
  have hu : (0 : ℚ) < 2 ^ j := zpow_pos two_pos j
  have hn : (n : ℚ) ≤ 2 ^ 48 := by exact_mod_cast hn
  have hq : (0 : ℚ) < q := by exact_mod_cast hq
  have hq' : (q : ℚ) ≤ 10 := by exact_mod_cast hq'
  -- half a unit, and the part by which the mantissa is off, are small
  have hunit : (2 : ℚ) ^ j ≤ 1 / 8 := by linarith
  have hqunit : q * (2 : ℚ) ^ j ≤ 10 * (1 / 8) := mul_le_mul hq' hunit hu.le (by norm_num)
  have hqn : (q * (n / 2 ^ 54) : ℚ) ≤ 10 * (2 ^ 48 / 2 ^ 54) := mul_le_mul hq' (by linarith) (by positivity) (by norm_num)
  obtain ⟨hnear, hnear'⟩ := abs_le.mp hnear
  have hrbelow := mul_le_mul_of_nonneg_left hnear hq.le
  have hrabove := mul_le_mul_of_nonneg_left hnear' hq.le
  rw [Nat.ceil_eq_iff hkpos, Nat.cast_sub (Nat.pos_of_ne_zero hkpos)]
  constructor
  · have hk₁ : (q * k + 1 : ℚ) ≤ n * p + q := by exact_mod_cast hk₁
    refine lt_of_mul_lt_mul_left (a := (q : ℚ)) ?_ hq.le
    push_cast
    linarith
  · rcases hk₀.eq_or_lt with heq | hlt
    · -- a whole quotient
      have heq : (n * p : ℚ) = q * k := by exact_mod_cast heq
      have hxk : x ≤ k + n / 2 ^ 54 := le_of_mul_le_mul_left (by linarith) hq
      exact mul_unit_le (by linarith) (by linarith)
    · have hlt : (n * p + 1 : ℚ) ≤ q * k := by exact_mod_cast hlt
      exact le_of_mul_le_mul_left (by linarith) hq

end Nearest

/-! ### Counts -/

section Counts

variable {w : UInt64} {p q c : ℕ} {factor : Float}

/-- The product of a count with a factor. -/
theorem ceil_product (h : IsMantissaOf c p q) (hfactor : parts factor = .finite .positive c (-52) h.pos) (hw : w.toNat ≤ 2 ^ 48) :
    ⌈value (parts (w.toFloat * factor))⌉₊ = (w.toNat * p + (q - 1)) / q := by
  rcases Nat.eq_zero_or_pos w.toNat with hzero | hpos
  · obtain rfl : w = 0 := UInt64.toNat_inj.mp hzero
    rw [MachineNumbers.value_zero_mul hfactor, Nat.ceil_zero, hzero, Nat.zero_mul, Nat.zero_add,
      Nat.div_eq_of_lt (Nat.sub_one_lt h.denominator.1.ne')]
  obtain ⟨m, e, hm, hparts, hlogm, hlow, hhigh, hvalue⟩ := MachineNumbers.parts_toFloat hpos (by omega)
  obtain ⟨hmlow, hmhigh⟩ := (Nat.log2_eq_iff hm.ne').mp hlogm
  have hlog : 52 ≤ (m * c).log2 :=
    (Nat.le_log2 (Nat.mul_pos hm h.pos).ne').mpr (hmlow.trans (Nat.le_mul_of_pos_right m h.pos))
  have hlog' : (m * c).log2 < 106 :=
    (Nat.log2_lt (Nat.mul_pos hm h.pos).ne').mpr (Nat.mul_lt_mul'' hmhigh h.bounds.2 |>.trans_eq (by norm_num))
  obtain ⟨r, j, hproduct, hlow, hhigh, hnear⟩ := MachineNumbers.value_mul hparts hfactor hlog (by omega) (by omega)
  have hx : (m * c * 2 ^ (e + -52) : ℚ) = c * w.toNat / 2 ^ 52 := by
    rw [← hvalue, zpow_add₀ two_ne_zero]
    ring
  rw [hproduct]
  exact ceil_nearest h hpos hw hx hlow hhigh hnear

theorem scaled_eq_ceil (h : IsMantissaOf c p q) (hfactor : parts factor = .finite .positive c (-52) h.pos) (hw : w.toNat ≤ 2 ^ 48) :
    (scaled w p q).toNat = ⌈value (parts (w.toFloat * factor))⌉₊ := by
  have hproduct : w.toNat * p ≤ 2 ^ 48 * 13 := Nat.mul_le_mul hw h.numerator.2
  have hquotient := Nat.div_le_self (w.toNat * p + (q - 1)) q
  have hq := h.denominator.2
  rw [ceil_product h hfactor hw, scaled, UInt64.toNat_ofNat', Nat.mod_eq_of_lt (by omega)]

/-- **Growth factors.** Counts of at most 48 digits grow as the products of machine numbers say. -/
theorem scaled_eq_ceil_product (hw : w.toNat ≤ 2 ^ 48) :
    (scaled w 3 2).toNat = ⌈value (parts (w.toFloat * 1.5))⌉₊ ∧ (scaled w 6 5).toNat = ⌈value (parts (w.toFloat * 1.2))⌉₊ ∧
      (scaled w 13 10).toNat = ⌈value (parts (w.toFloat * 1.3))⌉₊ := by
  have hhalves : IsMantissaOf 6755399441055744 3 2 := ⟨by decide, by decide, by decide, by norm_num, by norm_num⟩
  have hfifths : IsMantissaOf 5404319552844595 6 5 := ⟨by decide, by decide, by decide, by norm_num, by norm_num⟩
  have htenths : IsMantissaOf 5854679515581645 13 10 := ⟨by decide, by decide, by decide, by norm_num, by norm_num⟩
  exact ⟨scaled_eq_ceil hhalves rfl hw, scaled_eq_ceil hfifths rfl hw, scaled_eq_ceil htenths rfl hw⟩

end Counts

end Numerics.Rule
