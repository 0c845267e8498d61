import Mathlib
import Numerics.LeastSquares
import Numerics.Proofs.Exact
import Numerics.Proofs.Outcome

/-!
# Least squares in exact arithmetic

The coefficients of a fit solve the normal equations (`normal_linear`, `normal_quadratic`): the residuals of the points are
orthogonal to all powers below the number of unknowns, and so to every polynomial of lower degree (`IsNormal.sum_eval_mul`).
Hence the squares of the residuals of another such polynomial add up to more, by the squares of the difference
(`IsNormal.squares_eq`).  One of these polynomials is the mean of the heights, which bounds the coefficient of determination
(`rSquared_spec`); `fit_leastSquares` puts the parts together.
-/

open Polynomial

namespace Numerics.LeastSquares

open Scalar

variable {K : Type} [ExactArithmetic K] {points : List (K × K)} {p q : K[X]} {n k : ℕ} {f : Fit K} {kind : Kind}

/-! ### Normal equations -/

/-- The squares of the residuals, summed over the points. -/
noncomputable def squares (points : List (K × K)) (p : K[X]) : K := (points.map fun v => (v.2 - p.eval v.1) ^ 2).sum

/-- The residuals are orthogonal to the powers below `n`. -/
def IsNormal (n : ℕ) (points : List (K × K)) (p : K[X]) : Prop :=
  ∀ k < n, (points.map fun v => v.1 ^ k * (v.2 - p.eval v.1)).sum = 0

/-- The order of summation does not matter. -/
theorem sum_map_sum (points : List (K × K)) (n : ℕ) (g : ℕ → K × K → K) :
    (points.map fun v => ∑ i ∈ Finset.range n, g i v).sum = ∑ i ∈ Finset.range n, (points.map (g i)).sum := by
  induction points with
  | nil => simp
  | cons v points ih => simp only [List.map_cons, List.sum_cons, ih, Finset.sum_add_distrib]

/-- The residuals are orthogonal to all polynomials with powers below `n` only. -/
theorem IsNormal.sum_eval_mul (h : IsNormal n points p) (hq : q.natDegree < n) :
    (points.map fun v => q.eval v.1 * (v.2 - p.eval v.1)).sum = 0 := by
  calc (points.map fun v => q.eval v.1 * (v.2 - p.eval v.1)).sum
      = (points.map fun v => ∑ i ∈ Finset.range n, q.coeff i * (v.1 ^ i * (v.2 - p.eval v.1))).sum := by
        simp only [eval_eq_sum_range' hq, Finset.sum_mul, mul_assoc]
    _ = ∑ i ∈ Finset.range n, q.coeff i * (points.map fun v => v.1 ^ i * (v.2 - p.eval v.1)).sum := by
        rw [sum_map_sum]
        simp only [List.sum_map_mul_left]
    _ = 0 := Finset.sum_eq_zero fun i hi => by rw [h i (Finset.mem_range.mp hi), mul_zero]

/-- **Pythagoras.** The squares of another polynomial are more by those of the difference. -/
theorem IsNormal.squares_eq (h : IsNormal n points p) (hp : p.natDegree < n) (hq : q.natDegree < n) :
    squares points q = squares points p + (points.map fun v => ((p - q).eval v.1) ^ 2).sum := by
  have horthogonal := h.sum_eval_mul (q := p - q) ((natDegree_sub_le p q).trans_lt (max_lt hp hq))
  have hsplit : ∀ v : K × K, (v.2 - q.eval v.1) ^ 2 =
      (v.2 - p.eval v.1) ^ 2 + ((p - q).eval v.1) ^ 2 + 2 * ((p - q).eval v.1 * (v.2 - p.eval v.1)) := by
    intro v
    rw [eval_sub]
    ring
  simp only [squares, hsplit, List.sum_map_add, List.sum_map_mul_left]
  rw [horthogonal, mul_zero, add_zero]

theorem sum_squares_nonneg (points : List (K × K)) (g : K × K → K) : 0 ≤ (points.map fun v => g v ^ 2).sum := by
  refine List.sum_nonneg fun x hx => ?_
  obtain ⟨v, -, rfl⟩ := List.mem_map.mp hx
  exact sq_nonneg (g v)

theorem squares_nonneg (points : List (K × K)) (p : K[X]) : 0 ≤ squares points p := sum_squares_nonneg points _

theorem IsNormal.squares_le (h : IsNormal n points p) (hp : p.natDegree < n) (hq : q.natDegree < n) :
    squares points p ≤ squares points q := by
  rw [h.squares_eq hp hq]
  exact le_add_of_nonneg_right (sum_squares_nonneg points _)

theorem squares_eq_zero_iff : squares points p = 0 ↔ ∀ v ∈ points, v.2 = p.eval v.1 := by
  have hterm : ∀ v : K × K, (v.2 - p.eval v.1) ^ 2 = 0 ↔ v.2 = p.eval v.1 := fun v =>
    (pow_eq_zero_iff two_ne_zero).trans sub_eq_zero
  constructor
  · intro h v hv
    refine (hterm v).mp (List.all_zero_of_le_zero_le_of_sum_eq_zero (fun x hx => ?_) h (List.mem_map_of_mem hv))
    obtain ⟨w, -, rfl⟩ := List.mem_map.mp hx
    exact sq_nonneg _
  · intro h
    refine List.sum_eq_zero fun x hx => ?_
    obtain ⟨v, hv, rfl⟩ := List.mem_map.mp hx
    exact (hterm v).mpr (h v hv)

/-! ### Sums over the points -/

theorem total_eq (points : List (K × K)) (g : K × K → K) : total points g = (points.map g).sum := by
  have hfold : ∀ start : K, points.foldl (fun acc v => acc + g v) start = start + (points.map g).sum := by
    induction points with
    | nil => simp
    | cons v points ih =>
      intro start
      rw [List.foldl_cons, ih, List.map_cons, List.sum_cons, add_assoc]
  unfold total
  rw [Exact.zero_eq]
  exact (hfold 0).trans (zero_add _)

theorem power_eq (x : K) (k : ℕ) : power x k = x ^ k := by
  induction k with
  | zero => exact Nat.cast_one.trans (pow_zero x).symm
  | succ k ih =>
    rw [pow_succ, ← ih]
    rfl

theorem powerSum_eq : powerSum points k = (points.map fun v => v.1 ^ k).sum := by
  simp only [powerSum, total_eq, power_eq]

theorem momentSum_eq : momentSum points k = (points.map fun v => v.1 ^ k * v.2).sum := by
  simp only [momentSum, total_eq, power_eq]

/-- The normal equations in terms of the sums. -/
theorem isNormal_of_sums (hp : p.natDegree < n)
    (h : ∀ k < n, ∑ i ∈ Finset.range n, p.coeff i * powerSum points (k + i) = momentSum points k) : IsNormal n points p := by
  intro k hk
  have hterm : ∀ v : K × K, v.1 ^ k * (v.2 - p.eval v.1) =
      v.1 ^ k * v.2 + -1 * ∑ i ∈ Finset.range n, p.coeff i * v.1 ^ (k + i) := by
    intro v
    rw [eval_eq_sum_range' hp, neg_one_mul, ← sub_eq_add_neg, mul_sub, Finset.mul_sum]
    congr 1
    exact Finset.sum_congr rfl fun i _ => by rw [pow_add, mul_left_comm]
  simp only [hterm, List.sum_map_add, List.sum_map_mul_left, sum_map_sum, ← powerSum_eq, ← momentSum_eq]
  rw [h k hk, neg_one_mul, add_neg_cancel]

/-! ### Coefficients -/

/-- The polynomial with these coefficients, by ascending powers. -/
noncomputable def polynomial (coefficients : List K) : K[X] := coefficients.foldr (fun c acc => acc * X + C c) 0

theorem polynomial_cons (c : K) (coefficients : List K) :
    polynomial (c :: coefficients) = polynomial coefficients * X + C c := rfl

theorem eval_polynomial (coefficients : List K) (x : K) : (polynomial coefficients).eval x = evaluate coefficients x := by
  induction coefficients with
  | nil => exact eval_zero.trans Exact.zero_eq.symm
  | cons c coefficients ih =>
    rw [polynomial_cons, eval_add, eval_mul, eval_X, eval_C, ih]
    rfl

/-- The degree is below the number of coefficients. -/
theorem natDegree_polynomial_cons (c : K) (coefficients : List K) :
    (polynomial (c :: coefficients)).natDegree ≤ coefficients.length := by
  induction coefficients generalizing c with
  | nil => rw [polynomial_cons, natDegree_add_C]; simp [polynomial]
  | cons c' coefficients ih =>
    rw [polynomial_cons, natDegree_add_C]
    exact natDegree_mul_le.trans (add_le_add (ih c') natDegree_X_le)

theorem coeff_polynomial (coefficients : List K) (i : ℕ) :
    (polynomial coefficients).coeff i = coefficients.getD i 0 := by
  induction coefficients generalizing i with
  | nil => simp [polynomial]
  | cons c coefficients ih =>
    rw [polynomial_cons]
    cases i with
    | zero => simp
    | succ i => simp [ih]

/-- The polynomial has the coefficients that it is made of. -/
theorem map_coeff_polynomial (coefficients : List K) :
    (List.range coefficients.length).map (polynomial coefficients).coeff = coefficients := by
  refine List.ext_getElem (by simp) fun i hi _ => ?_
  rw [List.length_map, List.length_range] at hi
  simp [coeff_polynomial, hi]

theorem evaluate_pair (c₀ c₁ x : K) : evaluate [c₀, c₁] x = c₁ * x + c₀ := by
  change (@OfNat.ofNat K 0 (instOfNat 0) * x + c₁) * x + c₀ = _
  rw [Exact.zero_eq, zero_mul, zero_add]

/-! ### Fits -/

/-- The coefficients of the fit solve the normal equations, and its score is that of its predictions. -/
structure IsFit (kind : Kind) (points : List (K × K)) (f : Fit K) : Prop where
  length : f.coefficients.length = kind.unknowns
  normal : ∀ k < kind.unknowns, ∑ i ∈ Finset.range kind.unknowns, f.coefficients.getD i 0 * powerSum points (k + i) =
    momentSum points k
  rSquared_eq : f.rSquared = rSquared points f.predict

theorem Kind.unknowns_pos (kind : Kind) : 0 < kind.unknowns := by cases kind <;> decide

theorem IsFit.natDegree_lt (h : IsFit kind points f) : (polynomial f.coefficients).natDegree < kind.unknowns := by
  have hpos := kind.unknowns_pos
  rw [← h.length] at hpos ⊢
  obtain ⟨c, coefficients, hcons⟩ := List.exists_cons_of_length_pos hpos
  rw [hcons]
  exact Nat.lt_succ_of_le (natDegree_polynomial_cons c coefficients)

/-- Equations that are not refused have a determinant. -/
theorem ne_zero_of_not_singular {d : K} (h : ¬ Scalar.abs d < singularThreshold) : d ≠ 0 := by
  rintro rfl
  refine h ?_
  change |(0 : K)| < place 12
  rw [Exact.place_eq, abs_zero]
  positivity

/-- Two equations in closed form. -/
theorem normal_linear {s t : ℕ → K} {d : K} (hd : d = s 0 * s 2 - s 1 * s 1) (h : d ≠ 0) :
    ∀ k < 2, ∑ i ∈ Finset.range 2, [(t 0 * s 2 - s 1 * t 1) / d, (s 0 * t 1 - s 1 * t 0) / d].getD i 0 * s (k + i) = t k := by
  intro k hk
  rw [Finset.sum_range_succ, Finset.sum_range_one, List.getD_cons_zero, List.getD_cons_succ, List.getD_cons_zero]
  interval_cases k <;> field_simp <;> rw [hd] <;> ring

/-- **Cramer's rule** for three equations. -/
theorem normal_quadratic {s t : ℕ → K} {d : K}
    (hd : d = determinant ⟨s 0, s 1, s 2⟩ ⟨s 1, s 2, s 3⟩ ⟨s 2, s 3, s 4⟩) (h : d ≠ 0) :
    ∀ k < 3, ∑ i ∈ Finset.range 3, [
      determinant ⟨t 0, s 1, s 2⟩ ⟨t 1, s 2, s 3⟩ ⟨t 2, s 3, s 4⟩ / d,
      determinant ⟨s 0, t 0, s 2⟩ ⟨s 1, t 1, s 3⟩ ⟨s 2, t 2, s 4⟩ / d,
      determinant ⟨s 0, s 1, t 0⟩ ⟨s 1, s 2, t 1⟩ ⟨s 2, s 3, t 2⟩ / d].getD i 0 * s (k + i) = t k := by
  intro k hk
  rw [Finset.sum_range_succ, Finset.sum_range_succ, Finset.sum_range_one, List.getD_cons_zero, List.getD_cons_succ,
    List.getD_cons_zero, List.getD_cons_succ, List.getD_cons_succ, List.getD_cons_zero]
  unfold determinant at hd ⊢
  dsimp only at hd ⊢
  interval_cases k <;> field_simp <;> rw [hd] <;> ring

theorem isFit_linear (h : linear points = .ok f) : IsFit .linear points f := by
  have hs0 : @Nat.cast K toNatCast points.length = powerSum points 0 := by
    rw [powerSum_eq]
    simp only [pow_zero, List.map_const', List.sum_replicate, nsmul_one]
  have hs1 : (total points fun v => v.1) = powerSum points 1 := by simp only [powerSum_eq, total_eq, pow_one]
  have hs2 : (total points fun v => v.1 * v.1) = powerSum points 2 := by simp only [powerSum_eq, total_eq, sq]
  have ht0 : (total points fun v => v.2) = momentSum points 0 := by simp only [momentSum_eq, total_eq, pow_zero, one_mul]
  have ht1 : (total points fun v => v.1 * v.2) = momentSum points 1 := by simp only [momentSum_eq, total_eq, pow_one]
  unfold linear at h
  rw [bind_eq_ok_iff] at h
  obtain ⟨_, -, h⟩ := h
  dsimp only at h
  rw [hs0, hs1, hs2, ht0, ht1] at h
  split at h
  · cases h
  · next hsingular =>
    obtain rfl := Except.ok.inj h
    exact {
      length := rfl
      normal := normal_linear rfl (ne_zero_of_not_singular hsingular)
      rSquared_eq := by
        dsimp only
        congr 1
        funext x
        exact (evaluate_pair _ _ x).symm }

theorem isFit_quadratic (h : quadratic points = .ok f) : IsFit .quadratic points f := by
  unfold quadratic at h
  rw [bind_eq_ok_iff] at h
  obtain ⟨_, -, h⟩ := h
  dsimp only at h
  split at h
  · cases h
  · next hsingular =>
    obtain rfl := Except.ok.inj h
    exact {
      length := rfl
      normal := normal_quadratic rfl (ne_zero_of_not_singular hsingular)
      rSquared_eq := rfl }

/-! ### The coefficient of determination -/

theorem total_square_eq (points : List (K × K)) (g : K → K) (h : ∀ x, g x = p.eval x) :
    (total points fun v => square (v.2 - g v.1)) = squares points p := by
  rw [total_eq, squares]
  simp only [h, sq]
  rfl

/-- The score of a polynomial that does no worse than the mean of the heights. -/
theorem rSquared_spec (g : K → K) (hg : ∀ x, g x = p.eval x) (h : squares points p ≤ squares points (C (meanY points))) :
    (0 ≤ rSquared points g ∧ rSquared points g ≤ 1) ∧ (rSquared points g = 1 ↔ ∀ v ∈ points, v.2 = p.eval v.1) := by
  have hresidual := squares_nonneg points p
  have hmean : (total points fun v => square (v.2 - meanY points)) = squares points (C (meanY points)) :=
    total_square_eq points (fun _ => meanY points) fun x => eval_C.symm
  rw [← squares_eq_zero_iff]
  unfold rSquared
  dsimp only
  rw [hmean, total_square_eq points g hg, Exact.zero_eq, Exact.one_eq]
  generalize squares points (C (meanY points)) = all at h ⊢
  generalize squares points p = residual at h hresidual ⊢
  have hpos : 0 ≤ all := hresidual.trans h
  split
  · next hflat =>
    -- the mean meets points of one height, and the polynomial does no worse
    have hall : all ≤ 0 := of_decide_eq_true (Bool.and_eq_true_iff.mp hflat).1
    have hmet : residual = 0 := le_antisymm (h.trans hall) hresidual
    rw [if_pos (Bool.and_eq_true_iff.mpr ⟨decide_eq_true hmet.le, decide_eq_true hresidual⟩)]
    exact ⟨⟨zero_le_one, le_rfl⟩, iff_of_true rfl hmet⟩
  · next hall =>
    have hlt : 0 < all := by
      by_contra hle
      exact hall (Bool.and_eq_true_iff.mpr ⟨decide_eq_true (not_lt.mp hle), decide_eq_true hpos⟩)
    refine ⟨⟨sub_nonneg.mpr ((div_le_one hlt).mpr h), sub_le_self _ (div_nonneg hresidual hpos)⟩, ?_⟩
    rw [sub_eq_self, div_eq_zero_iff, or_iff_left hlt.ne']

/-! ### Methods -/

/-- The polynomial has the least squares on the points among all those of degree below `n`, and solves the normal equations. -/
structure IsBest (n : ℕ) (points : List (K × K)) (p : K[X]) : Prop where
  natDegree_lt : p.natDegree < n
  isNormal : IsNormal n points p
  le : ∀ q : K[X], q.natDegree < n → squares points p ≤ squares points q

theorem IsFit.isBest (h : IsFit kind points f) : IsBest kind.unknowns points (polynomial f.coefficients) := by
  have hnormal : IsNormal kind.unknowns points (polynomial f.coefficients) :=
    isNormal_of_sums h.natDegree_lt (by simpa only [coeff_polynomial] using h.normal)
  exact ⟨h.natDegree_lt, hnormal, fun q hq => hnormal.squares_le h.natDegree_lt hq⟩

/-- **Least squares.** A fit has the coefficients of the polynomial with the least squares on the points, and predicts its values;
the score lies between 0 and 1, and is 1 if and only if the polynomial meets all points. -/
theorem fit_leastSquares (h : fit kind points = .ok f) :
    ∃ p : K[X], f.coefficients = (List.range kind.unknowns).map p.coeff ∧ (∀ x, f.predict x = p.eval x) ∧
      IsBest kind.unknowns points p ∧ 0 ≤ f.rSquared ∧ f.rSquared ≤ 1 ∧
      (f.rSquared = 1 ↔ ∀ v ∈ points, v.2 = p.eval v.1) := by
  have hfit : IsFit kind points f := by
    cases kind with
    | linear => exact isFit_linear h
    | quadratic => exact isFit_quadratic h
  have hbest := hfit.isBest
  have hcoefficients : f.coefficients = (List.range kind.unknowns).map (polynomial f.coefficients).coeff := by
    rw [← hfit.length, map_coeff_polynomial]
  have hpredict : ∀ x, f.predict x = (polynomial f.coefficients).eval x := fun x => (eval_polynomial _ x).symm
  have hmean := hbest.le (C (meanY points)) (by rw [natDegree_C]; exact kind.unknowns_pos)
  obtain ⟨⟨hnonneg, hle⟩, hone⟩ := rSquared_spec f.predict hpredict hmean
  rw [← hfit.rSquared_eq] at hnonneg hle hone
  exact ⟨polynomial f.coefficients, hcoefficients, hpredict, hbest, hnonneg, hle, hone⟩

/-- The parabola through four points that lie on none. -/
theorem fit_leastSquares_square : ∃ f : Fit ℚ, fit .quadratic [(0, 0), (1, 1), (2, 4), (3, 10)] = .ok f ∧
    ∃ p : ℚ[X], f.coefficients = (List.range 3).map p.coeff ∧ (∀ x, f.predict x = p.eval x) ∧
      IsBest 3 [(0, 0), (1, 1), (2, 4), (3, 10)] p ∧ 0 ≤ f.rSquared ∧ f.rSquared ≤ 1 ∧
      (f.rSquared = 1 ↔ ∀ v ∈ [(0, 0), (1, 1), (2, 4), (3, 10)], v.2 = p.eval v.1) := by
  obtain ⟨f, hf, -⟩ := exists_of_toOption_any
    (by decide +kernel : (fit .quadratic [((0 : ℚ), (0 : ℚ)), (1, 1), (2, 4), (3, 10)]).toOption.any (fun _ => true) = true)
  exact ⟨f, hf, fit_leastSquares hf⟩

end Numerics.LeastSquares
