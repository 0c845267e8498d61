import Mathlib.Tactic.FieldSimp
import Mathlib.Tactic.Linarith
import Mathlib.Tactic.Positivity
import Mathlib.Tactic.Ring
import Numerics.Proofs.Extremum.NewtonTrajectory

/-!
# Newton steps on a parabola

The difference quotients of a parabola are its slope and its curvature (`value_derivatives_parabola`), so a step goes to its
vertex, or toward it as far as a step may go (`SeesParabola.next_eq`).  A tenth of the interval at each step leads to the vertex
in ten of them (`SeesParabola.iterates_ten`), and a point that settles the search before is close to it (`findMinimum_parabola`).
-/

namespace Numerics.Newton

open Query Scalar

variable {K : Type} [ExactArithmetic K] {s : Settings K} {f g : K → K} {a b c m k x y : K} {d : Derivatives K} {i n : ℕ}
  {status : Status}

/-! ### Difference quotients -/

/-- The parabola with its vertex at `m`, where its value is `k`. -/
def parabola (c m k x : K) : K := c * (x - m) ^ 2 + k

/-- The samples of the difference quotients at `x`. -/
def samples (x : K) : List K := [x - 1 / 10 ^ 4, x - 1 / 10 ^ 6, x, x + 1 / 10 ^ 6, x + 1 / 10 ^ 4]

/-- The samples at all points of the interval are within the limit, and the function has values there. -/
def IsSampled (f : K → K) (a b : K) : Prop :=
  ∀ x ∈ Set.Icc a b, ∀ y ∈ samples x, withinLimit y = true ∧ isDefined (f y) = true

/-- At its samples the function is seen as it is. -/
theorem IsSampled.guarded_eq (h : IsSampled f a b) (hx : x ∈ Set.Icc a b) (hy : y ∈ samples x) :
    (Objective.line f).guarded y = f y ∧ isDefined ((Objective.line f).guarded y) = true := by
  obtain ⟨hlimit, hdefined⟩ := h x hx y hy
  have hguarded : (Objective.line f).guarded y = f y := guarded_eq_value hlimit hdefined
  exact ⟨hguarded, hguarded ▸ hdefined⟩

/-- **Quotients.** The difference quotients of a parabola are its slope and its curvature. -/
theorem value_derivatives_parabola (h : IsSampled (parabola c m k) a b) (hx : x ∈ Set.Icc a b) :
    (derivatives x).value (Objective.line (parabola c m k)).guarded = { first := 2 * c * (x - m), second := 2 * c } := by
  obtain ⟨hback, hbackDefined⟩ := h.guarded_eq (y := x - 1 / 10 ^ 6) hx (by simp [samples])
  obtain ⟨hahead, haheadDefined⟩ := h.guarded_eq (y := x + 1 / 10 ^ 6) hx (by simp [samples])
  obtain ⟨hhere, hhereDefined⟩ := h.guarded_eq (y := x) hx (by simp [samples])
  obtain ⟨hfarBack, hfarBackDefined⟩ := h.guarded_eq (y := x - 1 / 10 ^ 4) hx (by simp [samples])
  obtain ⟨hfarAhead, hfarAheadDefined⟩ := h.guarded_eq (y := x + 1 / 10 ^ 4) hx (by simp [samples])
  rw [value_derivatives, slope, curvature, hbackDefined, haheadDefined, hhereDefined, hfarBackDefined, hfarAheadDefined,
    hback, hahead, hhere, hfarBack, hfarAhead, Derivatives.mk.injEq]
  unfold parabola
  constructor
  · rw [Bool.and_self, if_pos rfl]
    field_simp
    ring
  · rw [Bool.and_self, Bool.and_self, if_pos rfl]
    field_simp
    ring

/-! ### Steps -/

/-- The settings for a search that may make steps as long as the tolerance, and enough of them, on a parabola that is curved more
than it, with its vertex in the interval. -/
structure IsSolvable (s : Settings K) (c m : K) : Prop where
  valid : s.validate = .ok ()
  epsilon_le : s.epsilon ≤ (s.b - s.a) / 10
  iterations : 11 ≤ s.maxIterations
  curved : s.epsilon < 2 * c
  mem : m ∈ Set.Icc s.a s.b

/-- The search sees the slope and the curvature of such a parabola. -/
structure SeesParabola (s : Settings K) (g : K → K) (c m : K) : Prop extends IsSolvable s c m where
  quotients_eq : ∀ x ∈ Set.Icc s.a s.b, (derivatives x).value g = { first := 2 * c * (x - m), second := 2 * c }

theorem IsSolvable.isValid (h : IsSolvable s c m) : s.IsValid := Settings.validate_eq_ok_iff.mp h.valid

theorem IsSolvable.curvature_pos (h : IsSolvable s c m) : 0 < 2 * c := h.isValid.epsilon.trans h.curved

theorem IsSolvable.longest_pos (h : IsSolvable s c m) : 0 < (s.b - s.a) / 10 := h.isValid.epsilon.trans_le h.epsilon_le

/-- A move that goes toward a point of the interval, and no farther than there, stays in the interval. -/
theorem add_move_mem {longest : K} (hlongest : 0 ≤ longest) (hx : x ∈ Set.Icc a b) (hm : m ∈ Set.Icc a b) :
    x + max (-longest) (min (m - x) longest) ∈ Set.Icc a b := by
  obtain ⟨hax, hxb⟩ := hx
  obtain ⟨ham, hmb⟩ := hm
  have hlower : a - x ≤ min (m - x) longest := le_min (by linarith) (by linarith)
  have hupper : min (m - x) longest ≤ b - x := (min_le_left _ _).trans (by linarith)
  have hmove : max (-longest) (min (m - x) longest) ≤ b - x := max_le (by linarith) hupper
  exact ⟨by linarith [le_max_right (-longest) (min (m - x) longest)], by linarith⟩

/-- **Steps.** A step goes toward the vertex, and as far as there unless that is more than a tenth of the interval. -/
theorem SeesParabola.next_eq (h : SeesParabola s g c m) (hx : x ∈ Set.Icc s.a s.b) :
    next s g x = x + max (-((s.b - s.a) / 10)) (min (m - x) ((s.b - s.a) / 10)) := by
  have hlongest := h.longest_pos.le
  have hcurved : s.epsilon < |2 * c| := h.curved.trans_le (le_abs_self _)
  have hquotient : -(2 * c * (x - m)) / (2 * c) = m - x := by
    rw [← mul_neg, mul_div_cancel_left₀ _ h.curvature_pos.ne', neg_sub]
  have hmove : (step s { first := 2 * c * (x - m), second := 2 * c }).1 =
      max (-((s.b - s.a) / 10)) (min (m - x) ((s.b - s.a) / 10)) := by
    have hstep : step s { first := 2 * c * (x - m), second := 2 * c } =
        (clamp (-(2 * c * (x - m)) / (2 * c)) (-((s.b - s.a) / 10)) ((s.b - s.a) / 10), .newton) := if_pos hcurved
    rw [hstep, hquotient]
    exact Exact.clamp_eq (neg_le_self hlongest)
  rw [next, h.quotients_eq x hx, hmove, Exact.clamp_of_mem (add_move_mem hlongest hx h.mem)]

/-- A step reaches the vertex, or comes closer to it by a tenth of the interval. -/
theorem SeesParabola.next_cases (h : SeesParabola s g c m) (hx : x ∈ Set.Icc s.a s.b) :
    next s g x = m ∨ |next s g x - x| = (s.b - s.a) / 10 ∧ |next s g x - m| = |x - m| - (s.b - s.a) / 10 := by
  have hlongest := h.longest_pos.le
  rw [h.next_eq hx]
  rcases lt_or_ge (m - x) (-((s.b - s.a) / 10)) with hbelow | hbelow
  · refine .inr ?_
    rw [min_eq_left (by linarith), max_eq_left hbelow.le, add_sub_cancel_left, abs_neg, abs_of_nonneg hlongest,
      abs_of_nonneg (by linarith), abs_of_nonneg (by linarith)]
    exact ⟨rfl, by ring⟩
  rcases le_or_gt (m - x) ((s.b - s.a) / 10) with habove | habove
  · refine .inl ?_
    rw [min_eq_left habove, max_eq_right hbelow, add_sub_cancel]
  · refine .inr ?_
    rw [min_eq_right habove.le, max_eq_right (neg_le_self hlongest), add_sub_cancel_left, abs_of_nonneg hlongest,
      abs_of_nonpos (by linarith), abs_of_nonpos (by linarith)]
    exact ⟨rfl, by ring⟩

/-- **Iterates.** Each one is at the vertex, or a tenth of the interval closer to it than the one before. -/
theorem SeesParabola.abs_iterates_sub_le (h : SeesParabola s g c m) (i : ℕ) :
    iterates s g i = m ∨ |iterates s g i - m| ≤ (10 - i) * ((s.b - s.a) / 10) := by
  induction i with
  | zero =>
    obtain ⟨hlo, hhi⟩ := iterates_mem (g := g) h.isValid 0
    obtain ⟨ham, hmb⟩ := h.mem
    rw [Nat.cast_zero]
    exact .inr (abs_le.mpr ⟨by linarith, by linarith⟩)
  | succ i ih =>
    rw [iterates_succ]
    rcases h.next_cases (iterates_mem h.isValid i) with hm | ⟨-, hcloser⟩
    · exact .inl hm
    · refine .inr ?_
      rw [hcloser, Nat.cast_succ]
      rcases ih with hm | hle
      · -- no step leads away from the vertex
        have hnonneg := hcloser ▸ abs_nonneg (next s g (iterates s g i) - m)
        rw [hm, sub_self, abs_zero, zero_sub] at hnonneg
        exact absurd h.longest_pos (not_lt.mpr (neg_nonneg.mp hnonneg))
      · linarith

theorem SeesParabola.iterates_ten (h : SeesParabola s g c m) : iterates s g 10 = m := by
  refine (h.abs_iterates_sub_le 10).elim id fun hle => ?_
  rw [Nat.cast_ofNat, sub_self, zero_mul] at hle
  exact sub_eq_zero.mp (abs_nonpos_iff.mp hle)

/-! ### Tests -/

theorem passesTest_iff : PassesTest s x d ↔ |x - s.a| < s.epsilon ∧ 0 < d.first ∨ |x - s.b| < s.epsilon ∧ d.first < 0 ∨
    |d.first| < s.epsilon ∧ 0 < d.second := by
  unfold PassesTest
  rw [Exact.zero_eq]
  rfl

theorem SeesParabola.passesTest_vertex (h : SeesParabola s g c m) : PassesTest s m ((derivatives m).value g) := by
  rw [h.quotients_eq m h.mem, passesTest_iff, sub_self, mul_zero, abs_zero]
  exact .inr (.inr ⟨h.isValid.epsilon, h.curvature_pos⟩)

/-- **Tests.** A point that passes one is close to the vertex: as close as to the end next to it, or as the slope tells. -/
theorem SeesParabola.abs_sub_lt (h : SeesParabola s g c m) (hx : x ∈ Set.Icc s.a s.b)
    (hpasses : PassesTest s x ((derivatives x).value g)) : |x - m| < max s.epsilon (s.epsilon / (2 * c)) := by
  have hpos := h.curvature_pos
  obtain ⟨ham, hmb⟩ := h.mem
  rw [h.quotients_eq x hx, passesTest_iff] at hpasses
  obtain ⟨hax, hxb⟩ := hx
  rw [lt_max_iff]
  rcases hpasses with ⟨hend, hslope⟩ | ⟨hend, hslope⟩ | ⟨hslope, -⟩
  · have hright : 0 < x - m := pos_of_mul_pos_right hslope hpos.le
    rw [abs_of_nonneg (by linarith)] at hend
    rw [abs_of_pos hright]
    exact .inl (by linarith)
  · have hleft : x - m < 0 := neg_of_mul_neg_right hslope hpos.le
    rw [abs_of_nonpos (by linarith)] at hend
    rw [abs_of_neg hleft]
    exact .inl (by linarith)
  · rw [abs_mul, abs_of_pos hpos] at hslope
    exact .inr ((lt_div_iff₀' hpos).mpr hslope)

/-! ### Searches -/

/-- The point that settles a search passes a test, and is close to the vertex. -/
theorem SeesParabola.settled (h : SeesParabola s g c m) (hsettled : settled? s g (iterates s g i) = some (x, status)) :
    isMinimum status = true ∧ isRescued status = false ∧ |x - m| < max s.epsilon (s.epsilon / (2 * c)) := by
  have hmem := iterates_mem (g := g) h.isValid i
  obtain ⟨hx, hrescued, hminimum⟩ := settled?_spec hsettled
  split at hx
  · next hpasses =>
    rw [hminimum, hx]
    exact ⟨hpasses, hrescued, h.abs_sub_lt hmem hpasses⟩
  · next hfails =>
    -- the step is short, so it ends at the vertex
    have hshort : |next s g (iterates s g i) - iterates s g i| < s.epsilon := by
      by_contra hlong
      rw [settled?_eq_none_iff.mpr ⟨hfails, hlong⟩] at hsettled
      cases hsettled
    have hm : x = m := by
      rcases h.next_cases hmem with hm | ⟨hlength, -⟩
      · exact hx.trans hm
      · exact absurd (hlength ▸ hshort) (not_lt.mpr h.epsilon_le)
    rw [hminimum, hm, sub_self, abs_zero]
    exact ⟨h.passesTest_vertex, hrescued, lt_max_of_lt_left h.isValid.epsilon⟩

/-- The eleventh iterate settles a search, if none before does. -/
theorem SeesParabola.settled?_ten (h : SeesParabola s g c m) : settled? s g (iterates s g 10) ≠ none := by
  rw [ne_eq, settled?_eq_none_iff, h.iterates_ten, not_and_or, not_not]
  exact .inl h.passesTest_vertex

/-- **Parabolas.** From any point a search finds the vertex of a parabola up to the tolerance, with eleven iterates at most. -/
theorem findMinimum_parabola (h : IsSolvable s c m) (hf : IsSampled (parabola c m k) s.a s.b) :
    ∃ r x, findMinimum (parabola c m k) s = .ok r ∧ r.point = [x] ∧ r.converged = true ∧ r.isMinimum = some true ∧
      r.iterations ≤ 11 ∧ |x - m| < max s.epsilon (s.epsilon / (2 * c)) := by
  have hsees : SeesParabola s (Objective.line (parabola c m k)).guarded c m :=
    { h with quotients_eq := fun x hx => value_derivatives_parabola hf hx }
  obtain ⟨n, x, status, hend, hr⟩ := findMinimum_isEnd (f := parabola c m k) h.valid
  refine ⟨_, x, hr, rfl, ?_⟩
  cases hend with
  | @settled j x status steps before last =>
    obtain ⟨hminimum, hrescued, hclose⟩ := hsees.settled last
    have hj : j ≤ 10 := not_lt.mp fun hlate => hsees.settled?_ten (before 10 hlate)
    exact ⟨congrArg (!·) hrescued, congrArg some hminimum, Nat.succ_le_succ hj, hclose⟩
  | rescued never => exact absurd (never 10 h.iterations) hsees.settled?_ten

/-- The search for the vertex at 3, from 0. -/
theorem findMinimum_parabola_default : IsSolvable (Settings.default : Settings ℚ) 1 3 ∧
    IsSampled (parabola (1 : ℚ) 3 2) (-10) 10 ∧
    ∃ r x, findMinimum (parabola 1 3 2) (Settings.default : Settings ℚ) = .ok r ∧ r.point = [x] ∧ r.converged = true ∧
      r.isMinimum = some true ∧ r.iterations ≤ 11 ∧
      |x - 3| < max (Settings.default : Settings ℚ).epsilon ((Settings.default : Settings ℚ).epsilon / (2 * 1)) := by
  have h : IsSolvable (Settings.default : Settings ℚ) 1 3 := {
    valid := by decide +kernel
    epsilon_le := by decide +kernel
    iterations := by decide
    curved := by decide +kernel
    mem := ⟨by decide +kernel, by decide +kernel⟩ }
  have hf : IsSampled (parabola (1 : ℚ) 3 2) (-10) 10 := by
    rintro x ⟨hlo, hhi⟩ y hy
    have hbounds : -11 ≤ y ∧ y ≤ 11 := by
      simp only [samples, List.mem_cons, List.not_mem_nil, or_false] at hy
      rcases hy with rfl | rfl | rfl | rfl | rfl <;> constructor <;> linarith
    have hvalue : |parabola 1 3 2 y| ≤ 200 := by
      unfold parabola
      rw [abs_le]
      constructor <;> nlinarith
    rw [Exact.withinLimit_iff, Exact.isDefined_iff, abs_le]
    exact ⟨⟨by linarith, by linarith⟩, hvalue.trans_lt (by decide +kernel)⟩
  exact ⟨h, hf, findMinimum_parabola h hf⟩

end Numerics.Newton
