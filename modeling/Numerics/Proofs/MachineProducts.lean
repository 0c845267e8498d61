import Mathlib
import Numerics.Proofs.MachineNumbers

/-!
# Products of machine numbers

The product of two machine numbers is the exact product rounded to 53 binary digits, to the nearest number.  The mantissa is shifted
to its leading digits, and the two bits that a shift keeps of the rest tell on which side of one half it lies
(`roundedMantissa_near`).  A carry may need one digit more, which is zero, so the rounded value stays what it is
(`roundWithAccuracy_value`), and packing keeps it (`value_mul`).  Whole numbers of 53 digits are kept exactly (`parts_toFloat`).
-/

namespace Numerics.MachineNumbers

open Float.Model (Format UnpackedFloat totalExponent)
open Float.Model.UnpackedFloat

/-- The value of a number that is taken apart; zero for what is infinite or no number. -/
def value : UnpackedFloat → ℚ
  | .finite .positive m e _ => m * 2 ^ e
  | .finite .negative m e _ => -(m * 2 ^ e)
  | _ => 0

/-! ### The shifted mantissa -/

section Shifts

variable (m k : ℕ)

/-- The mantissa shifted right by `k` digits, with the two bits that tell of the rest. -/
abbrev shifted : ExtendedMantissa := ExtendedMantissa.ofMantissaAndAccuracy m .exact >>> k

theorem shifted_succ : shifted m (k + 1) = (shifted m k).shiftRightOne := rfl

/-- The rest is compared with one half. -/
theorem bits_shifted : ((shifted m k).roundBit = true ↔ 2 ^ k ≤ 2 * (m % 2 ^ k)) ∧
    ((shifted m k).stickyBit = true ↔ m % 2 ^ k ≠ 0 ∧ 2 * (m % 2 ^ k) ≠ 2 ^ k) := by
  induction k with
  | zero =>
    rw [pow_zero, Nat.mod_one]
    exact ⟨iff_of_false Bool.false_ne_true (by decide), iff_of_false Bool.false_ne_true (by decide)⟩
  | succ k ih =>
    have hmantissa : (shifted m k).mantissa = m / 2 ^ k := mantissa_shiftRight _ _
    have hlt : m % 2 ^ k < 2 ^ k := Nat.mod_lt _ (Nat.two_pow_pos k)
    rw [shifted_succ, Nat.mod_pow_succ, pow_succ]
    simp only [ExtendedMantissa.shiftRightOne, hmantissa, bne_iff_ne, Bool.or_eq_true, ih]
    rcases Nat.mod_two_eq_zero_or_one (m / 2 ^ k) with h | h <;> rw [h] <;> omega

/-- **Rounding to nearest.** The rounded mantissa is at most one half away. -/
theorem roundedMantissa_near : 2 * m ≤ 2 * ((shifted m k).roundedMantissa * 2 ^ k) + 2 ^ k ∧
    2 * ((shifted m k).roundedMantissa * 2 ^ k) ≤ 2 * m + 2 ^ k := by
  obtain ⟨hround, hsticky⟩ := bits_shifted m k
  have hmantissa : (shifted m k).mantissa = m / 2 ^ k := mantissa_shiftRight _ _
  have hm : m = m / 2 ^ k * 2 ^ k + m % 2 ^ k := (Nat.div_add_mod' m (2 ^ k)).symm
  have hlt : m % 2 ^ k < 2 ^ k := Nat.mod_lt _ (Nat.two_pow_pos k)
  rw [← hmantissa] at hm
  generalize shifted m k = em at *
  obtain ⟨q, round, sticky⟩ := em
  cases round <;> cases sticky <;>
    simp only [ExtendedMantissa.roundedMantissa, ExtendedMantissa.accuracy, Accuracy.roundToNearestEven, true_iff, Bool.false_eq_true,
      false_iff, not_le, not_and_or, not_not] at hround hsticky hm ⊢
  · omega
  · omega
  · rcases Nat.mod_two_eq_zero_or_one q with h | h <;> rw [h, Nat.add_mul] <;> omega
  · rw [Nat.add_mul]
    omega

end Shifts

/-! ### Normal numbers -/

section Normal

variable {m : ℕ} {e : ℤ}

/-- A mantissa of 53 digits is packed without its first digit. -/
theorem unpack_pack_normal (hm : 0 < m) (hlog : m.log2 = 52) (hle : -1074 ≤ e) (hge : e ≤ 971) :
    unpack Format.binary64 (pack Format.binary64 (.finite .positive m e hm)) = .finite .positive m e hm := by
  obtain ⟨hlo, hhi⟩ := (Nat.log2_eq_iff hm.ne').mp hlog
  have hbias : (e + (Format.binary64.exponentBias : ℤ) + (52 : ℕ)).toNat = (e + 1075).toNat := by
    rw [show (Format.binary64.exponentBias : ℤ) = 1023 from rfl]
    omega
  have hexponent : (BitVec.ofNat 11 (e + 1075).toNat).toNat = (e + 1075).toNat := by
    rw [BitVec.toNat_ofNat]
    exact Nat.mod_eq_of_lt (by omega)
  have hmantissa : (1#1 ++ BitVec.ofNat 52 m).toNat = m := by
    rw [BitVec.toNat_append, ← Nat.shiftLeft_add_eq_or_of_lt (BitVec.isLt _), Nat.shiftLeft_eq, BitVec.toNat_ofNat]
    change 1 * 2 ^ 52 + m % 2 ^ 52 = m
    omega
  unfold pack
  dsimp only
  rw [hbias, if_neg (by rw [show (2 : ℕ) ^ Format.binary64.exponentBits = 2048 from rfl]; omega), hlog, if_pos (show 52 + 1 = Format.binary64.mantissaBits from rfl)]
  unfold unpack
  simp only [unpackExponent_packComponents, unpackMantissa_packComponents, unpackSign_packComponents, Sign.ofBitVec_toBitVec]
  rw [if_neg, if_neg]
  · simp only [UnpackedFloat.finite.injEq, true_and]
    refine ⟨hmantissa, ?_⟩
    change ((BitVec.ofNat 11 (e + 1075).toNat).toNat : ℤ) - 1075 = e
    rw [hexponent]
    omega
  · intro h
    rw [h] at hexponent
    change 0 = _ at hexponent
    omega
  · intro h
    rw [h] at hexponent
    change 2047 = _ at hexponent
    omega

/-- **A rounded mantissa.** The result has 53 digits, and its value is that of the rounded mantissa. -/
theorem roundWithAccuracy_value (hm : 0 < m) (hlog : 52 ≤ m.log2) (he : -1074 ≤ e) :
    ∃ m' e' h, roundWithAccuracy Format.binary64 .positive m e .exact = .finite .positive m' e' h ∧ m'.log2 = 52 ∧
      e + (m.log2 - 52 : ℕ) ≤ e' ∧ e' ≤ e + (m.log2 - 52 : ℕ) + 1 ∧
      (m' : ℚ) * 2 ^ e' = (shifted m (m.log2 - 52)).roundedMantissa * 2 ^ (e + (m.log2 - 52 : ℕ)) := by
  let r := (shifted m (shift m e)).roundedMantissa
  let e₁ := e + (shift m e : ℤ)
  have hshift : shift m e = m.log2 - 52 := shift_eq m he
  have hmantissa : (shifted m (shift m e)).mantissa = m / 2 ^ shift m e := mantissa_shiftRight _ _
  -- the leading digits, before and after rounding
  have hlow : 2 ^ 52 ≤ r := by
    refine le_trans ?_ (le_roundedMantissa _)
    rw [hmantissa, hshift, Nat.le_div_iff_mul_le (Nat.two_pow_pos _), ← pow_add, Nat.add_sub_cancel' hlog]
    exact Nat.log2_self_le hm.ne'
  have hhigh : r ≤ 2 ^ 53 := by
    have hfloor := (div_shift hm he).2
    have hnear := (roundedMantissa_near m (shift m e)).2
    have hm' := Nat.lt_div_mul_add (Nat.two_pow_pos (shift m e)) (a := m)
    by_contra hlt
    have hr := Nat.mul_le_mul_right (2 ^ shift m e) (show 2 ^ 53 + 1 ≤ r by omega)
    have := Nat.mul_le_mul_right (2 ^ shift m e) (Nat.le_sub_one_of_lt hfloor)
    change 2 * (r * 2 ^ shift m e) ≤ _ at hnear
    omega
  have hr : 0 < r := lt_of_lt_of_le (by decide) hlow
  have hfinal : (shifted r (shift r e₁)).mantissa = r / 2 ^ shift r e₁ := mantissa_shiftRight _ _
  have hshift₁ : shift r e₁ = r.log2 - 52 := shift_eq r (by omega)
  have hne : (shifted r (shift r e₁)).mantissa ≠ 0 := by
    rw [hfinal]
    exact (div_shift hr (by omega)).1.ne'
  refine ⟨_, e₁ + shift r e₁, Nat.pos_of_ne_zero hne, dif_neg hne, ?_⟩
  rw [hfinal, hshift₁, ← hshift]
  rcases hhigh.lt_or_eq with hlt | heq
  · have hlogr : r.log2 = 52 := (Nat.log2_eq_iff hr.ne').mpr ⟨hlow, hlt⟩
    rw [hlogr, Nat.sub_self, pow_zero, Nat.div_one, Nat.cast_zero, add_zero]
    exact ⟨hlogr, le_rfl, by omega, rfl⟩
  · -- a carry out of all 53 digits
    change r = 2 ^ 53 at heq
    change _ ∧ _ ∧ _ ∧ _ = (r : ℚ) * 2 ^ e₁
    rw [heq, show (2 ^ 53 : ℕ).log2 - 52 = 1 from by rw [Nat.log2_two_pow], show (2 ^ 53 : ℕ) / 2 ^ 1 = 2 ^ 52 from by norm_num,
      Nat.log2_two_pow]
    refine ⟨rfl, by omega, by omega, ?_⟩
    rw [Nat.cast_one, zpow_add_one₀ two_ne_zero]
    push_cast
    ring

end Normal

/-! ### Products -/

section Products

variable {x y : Float} {m n : ℕ} {e f : ℤ} {hm : 0 < m} {hn : 0 < n}

/-- **A product** of positive numbers is the multiple of the unit of its last digit that is nearest to the exact product. -/
theorem value_mul (hx : parts x = .finite .positive m e hm) (hy : parts y = .finite .positive n f hn)
    (hlog : 52 ≤ (m * n).log2) (hle : -1074 ≤ e + f) (hge : e + f + (m * n).log2 ≤ 1022) :
    ∃ (r : ℕ) (j : ℤ), value (parts (x * y)) = r * 2 ^ j ∧ 2 ^ j * 2 ^ 52 ≤ (m * n * 2 ^ (e + f) : ℚ) ∧
      (m * n * 2 ^ (e + f) : ℚ) < 2 ^ j * 2 ^ 53 ∧ |(r * 2 ^ j - m * n * 2 ^ (e + f) : ℚ)| ≤ 2 ^ j / 2 := by
  obtain ⟨m', e', hm', hround, hlog', hlow, hhigh, hvalue⟩ := roundWithAccuracy_value (Nat.mul_pos hm hn) hlog hle
  have hmul : parts (x * y) = unpack Format.binary64 (pack Format.binary64 (.finite .positive m' e' hm')) := by
    rw [← hround]
    change unpack _ (pack _ (UnpackedFloat.mul _ (parts x) (parts y))) = _
    rw [hx, hy]
    rfl
  obtain ⟨s, hs⟩ := Nat.exists_eq_add_of_le hlog
  obtain ⟨hnear, hnear'⟩ := roundedMantissa_near (m * n) s
  obtain ⟨hleft, hright⟩ := (Nat.log2_eq_iff (Nat.mul_pos hm hn).ne').mp hs
  rw [hs, Nat.add_sub_cancel_left] at hvalue
  generalize (shifted (m * n) s).roundedMantissa = r at hvalue hnear hnear'
  -- all in the unit of the exact product
  have hunit : (2 : ℚ) ^ (e + f + (s : ℤ)) = 2 ^ s * 2 ^ (e + f) := by rw [zpow_add₀ two_ne_zero, zpow_natCast, mul_comm]
  have hpos : (0 : ℚ) < 2 ^ (e + f) := zpow_pos two_pos _
  have hleft : (2 ^ s * 2 ^ 52 : ℚ) ≤ m * n := by
    rw [pow_add, Nat.mul_comm] at hleft
    exact_mod_cast hleft
  have hright : (m * n : ℚ) < 2 ^ s * 2 ^ 53 := by
    rw [Nat.add_right_comm, pow_add, Nat.mul_comm (2 ^ (52 + 1))] at hright
    exact_mod_cast hright
  have hnear : (2 * (m * n) : ℚ) ≤ 2 * (r * 2 ^ s) + 2 ^ s := by exact_mod_cast hnear
  have hnear' : (2 * (r * 2 ^ s) : ℚ) ≤ 2 * (m * n) + 2 ^ s := by exact_mod_cast hnear'
  refine ⟨r, e + f + s, ?_, ?_, ?_, abs_le.mpr ⟨?_, ?_⟩⟩
  · rw [hmul, unpack_pack_normal hm' hlog' (by omega) (by omega)]
    exact hvalue
  all_goals rw [hunit]
  · have := mul_le_mul_of_nonneg_right hleft hpos.le
    linarith
  · have := mul_lt_mul_of_pos_right hright hpos
    linarith
  · have := mul_le_mul_of_nonneg_right hnear hpos.le
    linarith
  · have := mul_le_mul_of_nonneg_right hnear' hpos.le
    linarith

theorem value_zero_mul (hy : parts y = .finite .positive n f hn) : value (parts (UInt64.toFloat 0 * y)) = 0 := by
  have hmul : UnpackedFloat.mul Format.binary64 (.zero .positive) (parts y) = .zero .positive := by
    rw [hy]
    rfl
  change value (unpack _ (pack _ (UnpackedFloat.mul _ (.zero .positive) (parts y)))) = 0
  rw [hmul]
  rfl

/-- Whole numbers of at most 53 digits are machine numbers. -/
theorem parts_toFloat {w : UInt64} (hpos : 0 < w.toNat) (hlt : w.toNat < 2 ^ 53) :
    ∃ m e h, parts w.toFloat = .finite .positive m e h ∧ m.log2 = 52 ∧ -52 ≤ e ∧ e ≤ 1 ∧ (m : ℚ) * 2 ^ e = w.toNat := by
  generalize hn : w.toNat = n at *
  have hlogn : n.log2 ≤ 52 := Nat.le_of_lt_succ ((Nat.log2_lt hpos.ne').mpr hlt)
  let k := 52 - n.log2
  have hlog : (n * 2 ^ k).log2 = 52 := by
    obtain ⟨hlo, hhi⟩ := (Nat.log2_eq_iff hpos.ne').mp rfl
    refine (Nat.log2_eq_iff (Nat.mul_pos hpos (Nat.two_pow_pos k)).ne').mpr ⟨?_, ?_⟩
    · calc 2 ^ 52 = 2 ^ n.log2 * 2 ^ k := by rw [← pow_add, Nat.add_sub_cancel' hlogn]
        _ ≤ n * 2 ^ k := Nat.mul_le_mul_right _ hlo
    · calc n * 2 ^ k < 2 ^ (n.log2 + 1) * 2 ^ k := Nat.mul_lt_mul_of_pos_right hhi (Nat.two_pow_pos k)
        _ = 2 ^ (52 + 1) := by rw [← pow_add]; congr 1; omega
  have hround : UnpackedFloat.round Format.binary64 .positive n 0 = roundWithAccuracy Format.binary64 .positive (n * 2 ^ k) (-k) .exact := by
    have htarget : Format.binary64.targetExponent (totalExponent n 0) = -k := by
      change max ((n.log2 : ℤ) + 1 + 0 - 53) (-1074) = _
      omega
    have hk : (-(-(k : ℤ))).toNat = k := by omega
    unfold UnpackedFloat.round decreaseExponent
    rw [htarget]
    simp only [zero_sub, hk, Nat.shiftLeft_eq]
  obtain ⟨m, e, hm, hparts, hlogm, hlow, hhigh, hvalue⟩ :=
    roundWithAccuracy_value (Nat.mul_pos hpos (Nat.two_pow_pos k)) hlog.ge (e := -k) (by omega)
  rw [hlog] at hlow hhigh hvalue
  have hexact : (shifted (n * 2 ^ k) 0).roundedMantissa = n * 2 ^ k := rfl
  rw [Nat.sub_self, hexact, Nat.cast_zero, add_zero, Nat.cast_mul, Nat.cast_pow, mul_assoc, Nat.cast_ofNat, zpow_neg, zpow_natCast,
    mul_inv_cancel₀ (pow_ne_zero k two_ne_zero), mul_one] at hvalue
  refine ⟨m, e, hm, ?_, hlogm, by omega, by omega, hvalue⟩
  have hnormal : UnpackedFloat.ofUInt64 Format.binary64 w = .finite .positive m e hm := by
    rw [← hparts, ← hround]
    change UnpackedFloat.normalize Format.binary64 ((w.toNat : ℕ) : ℤ) 0 .positive = _
    rw [hn, UnpackedFloat.normalize, Int.compare_eq_gt.mpr (by omega)]
    rfl
  change unpack Format.binary64 (pack Format.binary64 (UnpackedFloat.ofUInt64 Format.binary64 w)) = _
  rw [hnormal, unpack_pack_normal hm hlogm (by omega) (by omega)]

end Products

end Numerics.MachineNumbers
