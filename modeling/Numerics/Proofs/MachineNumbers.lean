import Mathlib
import Numerics.Proofs.Signs

/-!
# Signs and order of machine numbers

Machine numbers have the properties of `SignedOrder`.  Their logical model takes a number apart into sign, mantissa and
exponent, computes with these and packs the result into bits again.  Comparisons are those of a key (`lt_iff`), and the one
operation that rounds here is the product: two factors above `10⁻¹⁵` leave its exponent far above the least one, so that the
mantissa keeps all its leading digits and does not become zero (`roundWithAccuracy_finite`).
-/

namespace Numerics.MachineNumbers

open Float.Model (Format UnpackedFloat totalExponent)
open Float.Model.UnpackedFloat

/-- The sign, the mantissa and the exponent of a machine number. -/
abbrev parts (x : Float) : UnpackedFloat := x.toModel.unpack

/-- The bits of a machine number. -/
abbrev bits (x : Float) : BitVec Format.binary64.numBits := x.toModel.toBits.toBitVec

variable {x y z : Float}

/-! ### Order -/

/-- Numbers have the order of the keys of their parts: first the kind of number, then the exponent, then the mantissa. -/
def key : UnpackedFloat → ℤ ×ₗ ℤ ×ₗ ℤ
  | .notANumber => toLex (0, toLex (0, 0))
  | .infinity .negative => toLex (-2, toLex (0, 0))
  | .finite .negative m e _ => toLex (-1, toLex (-e, -m))
  | .zero _ => toLex (0, toLex (0, 0))
  | .finite .positive m e _ => toLex (1, toLex (e, m))
  | .infinity .positive => toLex (2, toLex (0, 0))

theorem compare_eq_lt_iff (e f : ℤ) (m n : ℕ) :
    (compare e f).then (compare m n) = .lt ↔ e < f ∨ e = f ∧ m < n := by
  rw [Ordering.then_eq_lt, compare_lt_iff_lt, compare_eq_iff_eq, compare_lt_iff_lt]

theorem compare_eq_gt_iff (e f : ℤ) (m n : ℕ) :
    (compare e f).then (compare m n) = .gt ↔ f < e ∨ e = f ∧ n < m := by
  rw [Ordering.then_eq_gt, compare_gt_iff_gt, compare_eq_iff_eq, compare_gt_iff_gt]

theorem parts_lt_iff (u v : UnpackedFloat) :
    u.lt v = true ↔ u ≠ .notANumber ∧ v ≠ .notANumber ∧ key u < key v := by
  unfold UnpackedFloat.lt
  rcases u with (_ | _) | _ | _ | ⟨_ | _, m, e, hm⟩ <;> rcases v with (_ | _) | _ | _ | ⟨_ | _, n, f, hn⟩ <;>
    simp [UnpackedFloat.compare, key, Prod.Lex.toLex_lt_toLex, compare_eq_lt_iff, compare_eq_gt_iff]
  all_goals decide

theorem lt_iff : x < y ↔ parts x ≠ .notANumber ∧ parts y ≠ .notANumber ∧ key (parts x) < key (parts y) := by
  rw [← parts_lt_iff]
  change (decide ((parts x).lt (parts y) = true) = true) ↔ _
  rw [decide_eq_true_iff]

theorem not_nan_of_isFinite (h : Scalar.isFinite x = true) : parts x ≠ .notANumber := by
  intro hnan
  change (parts x).isFinite = true at h
  rw [hnan] at h
  cases h

theorem lt_of_lt_of_not_lt (hz : Scalar.isFinite z = true) (hxy : x < y) (hzy : ¬ z < y) : x < z := by
  rw [lt_iff] at *
  have hnan := not_nan_of_isFinite hz
  have hle : key (parts y) ≤ key (parts z) := not_lt.mp fun h => hzy ⟨hnan, hxy.2.1, h⟩
  exact ⟨hxy.1, hnan, hxy.2.2.trans_le hle⟩

theorem parts_zero : parts (@OfNat.ofNat Float 0 (Scalar.instOfNat 0)) = .zero .positive := rfl

/-- The parts of a number with this sign that is not zero. -/
def IsSigned (s : Sign) (u : UnpackedFloat) : Prop := (∃ m e h, u = .finite s m e h) ∨ u = .infinity s

theorem pos_iff : 0 < x ↔ IsSigned .positive (parts x) := by
  rw [lt_iff, parts_zero, IsSigned]
  rcases parts x with (_ | _) | _ | _ | ⟨_ | _, m, e, hm⟩ <;> simp [key, Prod.Lex.toLex_lt_toLex, *]

theorem neg_iff : x < 0 ↔ IsSigned .negative (parts x) := by
  rw [lt_iff, parts_zero, IsSigned]
  rcases parts x with (_ | _) | _ | _ | ⟨_ | _, m, e, hm⟩ <;> simp [key, Prod.Lex.toLex_lt_toLex, *]

/-! ### Signs -/

/-- The sign that the sign bit stands for. -/
def sign (x : Float) : Sign := Sign.ofBitVec (unpackSign (bits x))

/-- A number with a sign has that of its sign bit. -/
theorem IsSigned.sign_eq {s : Sign} (h : IsSigned s (parts x)) : sign x = s := by
  change IsSigned s (unpack Format.binary64 (bits x)) at h
  unfold IsSigned unpack at h
  dsimp only at h
  split_ifs at h <;> simp_all [sign]

theorem isNegative_eq : Scalar.isNegative x = (sign x == .negative) := by
  have hbit : x.toModel.toBits >>> 63 = 1 ↔ unpackSign (bits x) = 1#1 := by
    rw [unpackSign_def, ← UInt64.toNat_inj, ← BitVec.toNat_inj, UInt64.toNat_shiftRight, BitVec.extractLsb'_toNat]
    have := x.toModel.toBits.toNat_lt
    simp [bits, UInt64.toNat_toBitVec, Nat.shiftRight_eq_div_pow]
    omega
  change (x.toModel.toBits >>> 63 == 1) = _
  rw [Bool.eq_iff_iff, beq_iff_eq, hbit, sign]
  generalize unpackSign (bits x) = b
  revert b
  decide

/-! ### Packing -/

theorem parts_ofModel_pack (u : UnpackedFloat) : parts (.ofModel (.pack u)) =
    unpack Format.binary64 (pack Format.binary64 u) := rfl

theorem unpack_pack_unpack (b : BitVec Format.binary64.numBits) :
    unpack Format.binary64 (pack Format.binary64 (unpack Format.binary64 b)) =
      unpack Format.binary64 b := by
  rw [pack_unpack]
  split
  · next h =>
    rw [isNaNBits, decide_eq_true_iff] at h
    rw [unpack_packedNaN]
    simp [unpack, h]
  · rfl

theorem abs_unpack (b : BitVec Format.binary64.numBits) : (unpack Format.binary64 b).abs =
    unpack Format.binary64
      (packComponents Format.binary64 .positive (unpackExponent b) (unpackMantissa b)) := by
  unfold unpack
  simp only [unpackExponent_packComponents, unpackMantissa_packComponents, unpackSign_packComponents, Sign.ofBitVec_toBitVec]
  split_ifs <;> rfl

theorem parts_abs : parts (Scalar.abs x) = (parts x).abs := by
  change parts (.ofModel (.pack (unpack _ (bits x)).abs)) = (unpack _ (bits x)).abs
  rw [parts_ofModel_pack, abs_unpack, unpack_pack_unpack]

/-! ### Rounding -/

theorem mantissa_shiftRight (em : ExtendedMantissa) (k : ℕ) : (em >>> k).mantissa = em.mantissa / 2 ^ k := by
  induction k with
  | zero => exact (Nat.div_one _).symm
  | succ k ih =>
    change (em >>> k).mantissa / 2 = _
    rw [ih, Nat.div_div_eq_div_mul, ← pow_succ]

theorem le_roundedMantissa (em : ExtendedMantissa) : em.mantissa ≤ em.roundedMantissa := by
  obtain ⟨m, _ | _, _ | _⟩ := em
  · exact le_rfl
  · exact le_rfl
  · exact Nat.le_add_right _ _
  · exact Nat.le_add_right _ _

/-- How far a mantissa is shifted: to its 53 leading digits, and to the least exponent. -/
def shift (m : ℕ) (e : ℤ) : ℕ := (Format.binary64.targetExponent (totalExponent m e) - e).toNat

theorem shift_eq (m : ℕ) {e : ℤ} (he : -1074 ≤ e) : shift m e = m.log2 - 52 := by
  change (max ((m.log2 : ℤ) + 1 + e - 53) (-1074) - e).toNat = _
  omega

/-- A positive mantissa stays positive when it is shifted, and gets at most 53 digits. -/
theorem div_shift {m : ℕ} {e : ℤ} (hm : 0 < m) (he : -1074 ≤ e) :
    0 < m / 2 ^ shift m e ∧ m / 2 ^ shift m e < 2 ^ 53 := by
  rw [shift_eq m he, Nat.div_lt_iff_lt_mul (Nat.two_pow_pos _), ← pow_add]
  constructor
  · refine Nat.div_pos (le_trans (Nat.pow_le_pow_right two_pos ?_) (Nat.log2_self_le hm.ne')) (Nat.two_pow_pos _)
    exact Nat.sub_le _ _
  · refine lt_of_lt_of_le Nat.lt_log2_self (Nat.pow_le_pow_right two_pos ?_)
    omega

theorem roundWithAccuracy_finite (s : Sign) {m : ℕ} {e : ℤ} (hm : 0 < m) (he : -1074 ≤ e) :
    ∃ m' e' h, roundWithAccuracy Format.binary64 s m e .exact = .finite s m' e' h ∧ m' < 2 ^ 53 ∧ -1074 ≤ e' := by
  let em := ExtendedMantissa.ofMantissaAndAccuracy m .exact >>> shift m e
  have hrounded : 0 < em.roundedMantissa := by
    refine lt_of_lt_of_le ?_ (le_roundedMantissa em)
    rw [mantissa_shiftRight]
    exact (div_shift hm he).1
  have he₁ : -1074 ≤ e + shift m e := by omega
  let m' := em.roundedMantissa
  let e' := e + (shift m e : ℤ)
  have hfinal : (ExtendedMantissa.ofMantissaAndAccuracy m' .exact >>> shift m' e').mantissa = m' / 2 ^ shift m' e' :=
    mantissa_shiftRight _ _
  obtain ⟨hpos, hlt⟩ := div_shift hrounded he₁
  have hne : (ExtendedMantissa.ofMantissaAndAccuracy m' .exact >>> shift m' e').mantissa ≠ 0 := by
    rw [hfinal]
    exact hpos.ne'
  refine ⟨_, e' + shift m' e', Nat.pos_of_ne_zero hne, dif_neg hne, hfinal ▸ hlt, ?_⟩
  exact he₁.trans (Int.le_add_of_nonneg_right (Int.natCast_nonneg _))

theorem isSigned_packComponents {e : BitVec 11} {m : BitVec 52} (h : e ≠ 0 ∨ m ≠ 0) (hnan : e = -1#_ → m = 0) :
    IsSigned .positive (unpack Format.binary64 (packComponents Format.binary64 .positive e m)) := by
  unfold unpack
  simp only [unpackExponent_packComponents, unpackMantissa_packComponents, unpackSign_packComponents, Sign.ofBitVec_toBitVec]
  split_ifs with h₁ h₂ h₃ h₄
  · exact .inr rfl
  · exact absurd (hnan h₁) h₂
  · exact absurd h₄ (h.resolve_left (not_not_intro h₃))
  · exact .inl ⟨m.toNat, _, Nat.pos_of_ne_zero fun hzero => h₄ (BitVec.eq_of_toNat_eq hzero), rfl⟩
  · have hpos : 0 < (1#1 ++ m).toNat := by
      rw [BitVec.toNat_append]
      exact lt_of_lt_of_le (by decide) Nat.left_le_or
    exact .inl ⟨(1#1 ++ m).toNat, _, hpos, rfl⟩

/-- A positive number with at most 53 digits stays positive when it is packed. -/
theorem isSigned_pack {m : ℕ} {e : ℤ} (hm : 0 < m) (hlt : m < 2 ^ 53) (he : -1074 ≤ e) :
    IsSigned .positive (unpack Format.binary64 (pack Format.binary64 (.finite .positive m e hm))) := by
  unfold pack
  dsimp only
  have hbias : (e + (Format.binary64.exponentBias : ℤ) + (52 : ℕ)).toNat = (e + 1075).toNat := by
    rw [show (Format.binary64.exponentBias : ℤ) = 1023 from rfl]
    omega
  rw [show Format.binary64.mantissaBits = 53 from rfl]
  split_ifs with h₁ h₂
  · exact isSigned_packComponents (.inl (by decide)) fun _ => rfl
  · rw [hbias] at *
    have hb : (BitVec.ofNat 11 (e + 1075).toNat).toNat = (e + 1075).toNat := by
      rw [BitVec.toNat_ofNat]
      exact Nat.mod_eq_of_lt (by omega)
    refine isSigned_packComponents (.inl fun h => ?_) fun h => ?_
    · rw [h] at hb
      change 0 = _ at hb
      omega
    · rw [h] at hb
      change 2047 = _ at hb
      omega
  · refine isSigned_packComponents (.inr fun h => ?_) fun h => ?_
    · have hm' : m < 2 ^ 52 := by
        rw [← Nat.log2_lt hm.ne']
        have := (Nat.log2_lt hm.ne').mpr hlt
        omega
      have hzero := congrArg BitVec.toNat h
      rw [BitVec.toNat_ofNat, Nat.mod_eq_of_lt hm'] at hzero
      exact hm.ne' hzero
    · exact absurd h (by decide)

/-! ### Products -/

theorem parts_zeroThreshold : parts Probe.zeroThreshold = .finite .positive 5070602400912918 (-102) (by decide) := rfl

/-- The exponent of a number that is not close to zero. -/
theorem exponent_ge_of_zeroThreshold_lt (hfin : Scalar.isFinite x = true) (h : Probe.zeroThreshold < Scalar.abs x) :
    ∃ m e h, parts x = .finite (sign x) m e h ∧ -102 ≤ e := by
  rw [lt_iff, parts_zeroThreshold, parts_abs] at h
  change (parts x).isFinite = true at hfin
  match hx : parts x with
  | .notANumber => rw [hx] at hfin; cases hfin
  | .infinity s => rw [hx] at hfin; cases hfin
  | .zero s =>
    rw [hx] at h
    have hkey := h.2.2
    simp [key, UnpackedFloat.abs, Prod.Lex.toLex_lt_toLex] at hkey
  | .finite s m e hm =>
    rw [hx] at h
    refine ⟨m, e, hm, by rw [IsSigned.sign_eq (.inl ⟨m, e, hm, hx⟩)], ?_⟩
    have hkey := h.2.2
    simp only [key, UnpackedFloat.abs, Prod.Lex.toLex_lt_toLex] at hkey
    omega

theorem mul_pos (hx : Scalar.isFinite x = true) (hy : Scalar.isFinite y = true)
    (hxt : Probe.zeroThreshold < Scalar.abs x) (hyt : Probe.zeroThreshold < Scalar.abs y)
    (hsign : Scalar.isNegative x = Scalar.isNegative y) : 0 < x * y := by
  obtain ⟨m, e, hm, hpx, he⟩ := exponent_ge_of_zeroThreshold_lt hx hxt
  obtain ⟨n, f, hn, hpy, hf⟩ := exponent_ge_of_zeroThreshold_lt hy hyt
  have hs : sign x * sign y = .positive := by
    rw [isNegative_eq, isNegative_eq] at hsign
    revert hsign
    cases sign x <;> cases sign y <;> first | exact fun _ => rfl | nofun
  obtain ⟨k, g, hk, hround, hlt, hg⟩ := roundWithAccuracy_finite .positive (Nat.mul_pos hm hn) (e := e + f) (by omega)
  have hmul : parts (x * y) =
      unpack Format.binary64 (pack Format.binary64 (.finite .positive k g hk)) := by
    rw [← hround, ← hs]
    change unpack _ (pack _ (UnpackedFloat.mul _ (parts x) (parts y))) = _
    rw [hpx, hpy]
    rfl
  rw [pos_iff, hmul]
  exact isSigned_pack hk hlt hg

theorem pos_of_not_le (hfin : Scalar.isFinite x = true) (h : ¬ x ≤ 0) : 0 < x := by
  change ¬ (decide ((parts x).le (.zero .positive) = true) = true) at h
  rw [decide_eq_true_iff] at h
  change (parts x).isFinite = true at hfin
  rw [pos_iff]
  rcases hx : parts x with (_ | _) | _ | _ | ⟨_ | _, m, e, hm⟩
  all_goals rw [hx] at h hfin
  case finite.positive => exact .inl ⟨m, e, hm, rfl⟩
  all_goals first | exact absurd rfl h | cases hfin

theorem neg_or_pos {e : Float} (hx : Scalar.isFinite x = true) (he : Scalar.isFinite e = true) (hpos : ¬ e ≤ 0)
    (hge : ¬ Scalar.abs x < e) : x < 0 ∨ 0 < x := by
  rcases hparts : parts x with s | _ | s | ⟨_ | _, m, f, hm⟩
  · change (parts x).isFinite = true at hx
    rw [hparts] at hx
    cases hx
  · exact absurd hparts (not_nan_of_isFinite hx)
  · have hlt := pos_of_not_le he hpos
    rw [lt_iff, parts_zero] at hlt
    rw [lt_iff, parts_abs, hparts] at hge
    exact absurd hlt hge
  · exact .inl (neg_iff.mpr (.inl ⟨m, f, hm, hparts⟩))
  · exact .inr (pos_iff.mpr (.inl ⟨m, f, hm, hparts⟩))

theorem isNegative_of_neg (h : x < 0) : Scalar.isNegative x = true := by
  rw [isNegative_eq, (neg_iff.mp h).sign_eq]
  rfl

theorem isNegative_of_pos (h : 0 < x) : Scalar.isNegative x = false := by
  rw [isNegative_eq, (pos_iff.mp h).sign_eq]
  rfl

theorem isFinite_abs (h : Scalar.isFinite x = true) : Scalar.isFinite (Scalar.abs x) = true := by
  change (parts (Scalar.abs x)).isFinite = true
  change (parts x).isFinite = true at h
  rw [parts_abs]
  cases hx : parts x <;> rw [hx] at h <;> first | rfl | cases h

instance : SignedOrder Float where
  isFinite_undefined := by decide +kernel
  isFinite_abs := isFinite_abs
  lt_of_lt_of_not_lt := lt_of_lt_of_not_lt
  neg_or_pos := neg_or_pos
  isNegative_of_neg := isNegative_of_neg
  isNegative_of_pos := isNegative_of_pos
  mul_pos := mul_pos

end Numerics.MachineNumbers
