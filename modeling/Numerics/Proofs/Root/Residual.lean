import Mathlib
import Numerics.Proofs.Root.Bracket

/-!
# The value at the root that a bisection finds

In exact arithmetic a bisection of a bracket with values of different signs always ends, with a middle whose value is below the
tolerance or with a bracket that is as narrow as machine numbers resolve (`findRoot_residual`).  In the second case nothing
bounds the value but the slope of the function: a steep one has values far above the tolerance next to its root
(`findRoot_steep`).
-/

namespace Numerics.Bisection

open Query Scalar

variable {K : Type} [ExactArithmetic K] {f g : K → K} {a b epsilon lo hi x : K} {s : State K} {r : Report K}

/-! ### Brackets in exact arithmetic -/

theorem midpoint_eq : midpoint lo hi = (lo + hi) / 2 := by
  change lo + (hi - lo) / ((2 : ℕ) : K) = (lo + hi) / 2
  rw [Nat.cast_ofNat]
  ring

theorem resolution_eq : resolution lo hi = max (max |lo| |hi|) 1 / 2 ^ 52 := by
  unfold resolution
  rw [Exact.greatest_eq, Exact.greatest_eq]
  change ((1 : ℕ) : K) / ((2 ^ 52 : ℕ) : K) * max (max |lo| |hi|) ((1 : ℕ) : K) = _
  push_cast
  ring

/-- Nothing is resolved more finely than at one. -/
theorem le_resolution : 1 / 2 ^ 52 ≤ resolution lo hi := by
  rw [resolution_eq]
  gcongr
  exact le_max_right _ _

theorem hasSignChange_iff {bracket : K × K} : HasSignChange g bracket ↔ g bracket.1 * g bracket.2 < 0 := by
  unfold HasSignChange
  rw [Exact.zero_eq, mul_neg_iff, or_comm]

/-- Values of different signs are no larger than the difference between them. -/
theorem HasSignChange.abs_le_abs_sub {bracket : K × K} (h : HasSignChange g bracket) (hx : x = bracket.1 ∨ x = bracket.2) :
    |g x| ≤ |g bracket.2 - g bracket.1| := by
  unfold HasSignChange at h
  rw [Exact.zero_eq] at h
  rcases h with ⟨hneg, hpos⟩ | ⟨hpos, hneg⟩
  · rw [abs_of_pos (sub_pos.mpr (hneg.trans hpos)), abs_le]
    rcases hx with rfl | rfl <;> constructor <;> linarith
  · rw [abs_of_neg (sub_neg.mpr (hneg.trans hpos)), abs_le]
    rcases hx with rfl | rfl <;> constructor <;> linarith

/-- The bracket after its halvings is that part of `[a, b]`, and was not as narrow as machine numbers resolve yet. -/
structure IsWide (a b : K) (s : State K) : Prop where
  le_lo : a ≤ s.lo
  lo_lt : s.lo < s.hi
  hi_le : s.hi ≤ b
  width : (s.hi - s.lo) * 2 ^ s.steps = b - a
  unresolved : s.steps = 0 ∨ resolution s.lo s.hi < s.hi - s.lo

theorem isWide_initial (hab : a < b) : IsWide a b (State.initial g a b) where
  le_lo := le_rfl
  lo_lt := hab
  hi_le := le_rfl
  width := by
    change (b - a) * 2 ^ 0 = b - a
    rw [pow_zero, mul_one]
  unresolved := .inl rfl

theorem mid_mem (h : IsWide a b s) (hmid : s.mid = midpoint s.lo s.hi) : s.lo < s.mid ∧ s.mid < s.hi := by
  rw [hmid, midpoint_eq]
  constructor <;> linarith [h.lo_lt]

/-- The half that is kept lies in the bracket, and is half as wide. -/
theorem IsWide.halve (h : IsWide a b s) (hmid : s.mid = midpoint s.lo s.hi) :
    a ≤ s.halve.lo ∧ s.halve.lo < s.halve.hi ∧ s.halve.hi ≤ b ∧ (s.halve.hi - s.halve.lo) * 2 ^ s.halve.steps = b - a := by
  obtain ⟨hlo, hhi⟩ := mid_mem h hmid
  have hwidth := h.width
  unfold State.halve
  split
  · refine ⟨h.le_lo, hlo, hhi.le.trans h.hi_le, ?_⟩
    change (s.mid - s.lo) * 2 ^ (s.steps + 1) = b - a
    rw [← hwidth, hmid, midpoint_eq]
    ring
  · refine ⟨h.le_lo.trans hlo.le, hhi, h.hi_le, ?_⟩
    change (s.hi - s.mid) * 2 ^ (s.steps + 1) = b - a
    rw [← hwidth, hmid, midpoint_eq]
    ring

theorem settled_eq_true_iff :
    s.settled epsilon = true ↔ |s.atMid| < epsilon ∨ s.hi - s.lo ≤ resolution s.lo s.hi := by
  unfold State.settled
  rw [Bool.or_eq_true, decide_eq_true_iff, decide_eq_true_iff]
  rfl

theorem IsWide.next (h : IsWide a b s) (hmid : s.mid = midpoint s.lo s.hi) (hsettled : s.halve.settled epsilon = false) :
    IsWide a b (s.next g) := by
  obtain ⟨hlo, hlt, hhi, hwidth⟩ := h.halve hmid
  rw [← Bool.not_eq_true, settled_eq_true_iff, not_or] at hsettled
  exact ⟨hlo, hlt, hhi, hwidth, .inr (not_le.mp hsettled.2)⟩

/-- The halvings of an interval end once its parts are narrower than machine numbers resolve. -/
theorem IsWide.steps_lt (h : IsWide a b s) {n : ℕ} (hn : 0 < n) (hab : (b - a) * 2 ^ 52 ≤ 2 ^ n) : s.steps < n := by
  rcases h.unresolved with hzero | hwide
  · rwa [hzero]
  · refine (pow_lt_pow_iff_right₀ (one_lt_two : (1 : K) < 2)).mp ?_
    calc (2 ^ s.steps : K) = 1 / 2 ^ 52 * 2 ^ s.steps * 2 ^ 52 := by ring
      _ < (s.hi - s.lo) * 2 ^ s.steps * 2 ^ 52 := by gcongr; exact le_resolution.trans_lt hwide
      _ = (b - a) * 2 ^ 52 := by rw [h.width]
      _ ≤ 2 ^ n := hab

/-! ### Searches in exact arithmetic -/

/-- The search ends at a root up to the tolerance or up to what machine numbers resolve. -/
structure EndsAtRoot (f : K → K) (a b epsilon : K) (r : Report K) (x : K) : Prop where
  point : r.point = [x]
  mem : a ≤ x ∧ x ≤ b
  converged : r.converged = true
  value : r.value = f x
  residual : |f x| < epsilon ∨ ∃ lo hi, r.finalInterval = some (lo, hi) ∧ (x = lo ∨ x = hi) ∧ a ≤ lo ∧ lo < hi ∧ hi ≤ b ∧
    hi - lo ≤ resolution lo hi ∧ HasSignChange f (lo, hi)

/-- The bracket with the function that a search sees there. -/
structure IsProper (f : K → K) (a b : K) : Prop where
  lt : a < b
  withinLimit : ∀ x, a ≤ x → x ≤ b → withinLimit x = true
  isDefined : ∀ x, a ≤ x → x ≤ b → isDefined (f x) = true

theorem IsProper.guarded_eq (h : IsProper f a b) (hx : a ≤ x ∧ x ≤ b) : (Objective.line f).guarded x = f x :=
  guarded_eq_value (h.withinLimit x hx.1 hx.2) (h.isDefined x hx.1 hx.2)

theorem IsProper.width_le (h : IsProper f a b) : (b - a) * 2 ^ 52 ≤ 2 ^ maxHalvings := by
  have ha := abs_le.mp (Exact.withinLimit_iff.mp (h.withinLimit a le_rfl h.lt.le))
  have hb := abs_le.mp (Exact.withinLimit_iff.mp (h.withinLimit b h.lt.le le_rfl))
  calc (b - a) * 2 ^ 52 ≤ 2 ^ 48 * 2 ^ 52 := by gcongr; linarith
    _ = 2 ^ 100 := by norm_num
    _ ≤ 2 ^ maxHalvings := pow_le_pow_right₀ one_le_two (by decide)

/-- The samples of the first check lie in the bracket. -/
theorem mem_of_mem_stepsFrom (hab : a < b) (hx : x ∈ Probe.stepsFrom a ((b - a) / 10) 10) : a ≤ x ∧ x ≤ b := by
  obtain ⟨i, hi, rfl⟩ := List.mem_map.mp hx
  exact Exact.steps_mem hab.le i.cast_nonneg (Nat.cast_le.mpr (Nat.lt_succ_iff.mp (List.mem_range.mp hi)))

theorem IsProper.definedOnMost (h : IsProper f a b) :
    (Probe.definedOnMost a b).value (Objective.line f).guarded = true := by
  unfold Probe.definedOnMost
  rw [value_bind, value_collect, pure_def, value]
  have hall : ∀ v ∈ (Probe.stepsFrom a ((b - a) / 10) 10).map (Objective.line f).guarded, Numerics.isDefined v = true := by
    intro v hv
    obtain ⟨x, hx, rfl⟩ := List.mem_map.mp hv
    have hmem := mem_of_mem_stepsFrom h.lt hx
    rw [h.guarded_eq hmem]
    exact h.isDefined x hmem.1 hmem.2
  rw [List.countP_eq_length.mpr hall, List.length_map, Probe.stepsFrom, List.length_map, List.length_range]
  rfl

theorem EndsAtRoot.of_atEnd (hx : a ≤ x ∧ x ≤ b) (hlt : |f x| < epsilon) (n : ℕ) :
    EndsAtRoot f a b epsilon { Report.atEnd x (f x) epsilon with evaluations := n } x :=
  ⟨rfl, hx, rfl, rfl, .inl hlt⟩

/-- The halvings of a proper bracket with a sign change. -/
theorem IsProper.endsAtRoot_halvedReport (h : IsProper f a b) (hepsilon : 0 < epsilon)
    (hchange : HasSignChange (Objective.line f).guarded (a, b)) :
    ∃ x, ∀ n, EndsAtRoot f a b epsilon
      { halvedReport (Objective.line f).guarded a b epsilon with evaluations := n } x := by
  have hfinite : ∀ y : K, Scalar.isFinite ((Objective.line f).guarded y) = true := fun _ => rfl
  have hpositive : Scalar.isFinite epsilon = true ∧ ¬ epsilon ≤ @OfNat.ofNat K 0 (Scalar.instOfNat 0) := by
    rw [Exact.zero_eq]
    exact ⟨rfl, not_le.mpr hepsilon⟩
  have hstep : ∀ s, (IsBracketed (Objective.line f).guarded (a, b) s ∧ IsWide a b s) → s.halve.settled epsilon = false →
      IsBracketed (Objective.line f).guarded (a, b) (s.next (Objective.line f).guarded) ∧
        IsWide a b (s.next (Objective.line f).guarded) :=
    fun s hs hsettled => ⟨hs.1.next hfinite hpositive hsettled, hs.2.next hs.1.mid hsettled⟩
  rcases value_halvings hstep maxHalvings ⟨isBracketed_initial hchange, isWide_initial h.lt⟩ with
    ⟨t, ⟨ht, hwide⟩, hsettled, hend⟩ | ⟨t, ⟨-, hwide⟩, hsteps, -⟩
  · obtain ⟨hlo, hlt, hhi, -⟩ := hwide.halve ht.mid
    obtain ⟨hlomid, hmidhi⟩ := mid_mem hwide ht.mid
    have hmem : a ≤ t.mid ∧ t.mid ≤ b := ⟨hwide.le_lo.trans hlomid.le, hmidhi.le.trans hwide.hi_le⟩
    have hvalue : t.halve.atMid = f t.mid := by
      rw [halve_atMid, ht.atMid, h.guarded_eq hmem]
    refine ⟨t.mid, fun n => ?_⟩
    unfold halvedReport
    rw [hend]
    refine ⟨congrArg (fun y => [y]) (halve_mid t), hmem, rfl, hvalue, ?_⟩
    rw [or_iff_not_imp_left]
    intro habove
    rw [settled_eq_true_iff, hvalue] at hsettled
    have hsign := ht.hasSignChange_halve hfinite hpositive (by rw [← halve_atMid, hvalue]; exact habove)
    unfold HasSignChange at hsign
    rw [h.guarded_eq ⟨hlo, hlt.le.trans hhi⟩, h.guarded_eq ⟨hlo.trans hlt.le, hhi⟩] at hsign
    exact ⟨_, _, rfl, mid_eq_end t, hlo, hlt, hhi, hsettled.resolve_left habove, hsign⟩
  · have hlt := hwide.steps_lt (Nat.succ_pos _) h.width_le
    rw [hsteps] at hlt
    exact absurd hlt (Nat.not_lt.mpr (Nat.le_add_left _ _))

/-- **The residual of bisection.** The value at the root is below the tolerance for a function that varies by less than the
tolerance over any bracket as narrow as machine numbers resolve. -/
theorem findRoot_residual (h : IsProper f a b) (hepsilon : 0 < epsilon) (hsign : f a * f b < 0) :
    ∃ r x, findRoot f a b epsilon = .ok r ∧ EndsAtRoot f a b epsilon r x ∧
      ((∀ lo hi, a ≤ lo → lo < hi → hi ≤ b → hi - lo ≤ resolution lo hi → |f hi - f lo| < epsilon) →
        |r.value| < epsilon) := by
  have hga := h.guarded_eq ⟨le_rfl, h.lt.le⟩
  have hgb := h.guarded_eq ⟨h.lt.le, le_rfl⟩
  have hchange : HasSignChange (Objective.line f).guarded (a, b) := by
    rw [hasSignChange_iff, hga, hgb]
    exact hsign
  have hsame : (Probe.sameSignAtEnds a b).value (Objective.line f).guarded = false := by
    rw [value_sameSignAtEnds, hga, hgb, Exact.zero_eq, decide_eq_false (not_lt.mpr hsign.le)]
    rfl
  obtain ⟨r, x, hr, hend⟩ : ∃ r x, findRoot f a b epsilon = .ok r ∧ EndsAtRoot f a b epsilon r x := by
    obtain ⟨x, hx⟩ := h.endsAtRoot_halvedReport hepsilon hchange
    simp only [findRoot_eq_ok_iff, Exact.checkInterval_eq_ok_iff.mpr h.lt, Exact.checkEpsilon_eq_ok_iff.mpr hepsilon,
      value_search, h.definedOnMost, hsame, hga, hgb, true_and]
    by_cases ha : |f a| < epsilon
    · exact ⟨_, a, ⟨_, if_pos ha, rfl⟩, .of_atEnd ⟨le_rfl, h.lt.le⟩ ha _⟩
    · by_cases hb : |f b| < epsilon
      · exact ⟨_, b, ⟨_, (if_neg ha).trans (if_pos hb), rfl⟩, .of_atEnd ⟨h.lt.le, le_rfl⟩ hb _⟩
      · exact ⟨_, x, ⟨_, (if_neg ha).trans (if_neg hb), rfl⟩, hx _⟩
  refine ⟨r, x, hr, hend, fun hflat => ?_⟩
  rw [hend.value]
  rcases hend.residual with hlt | ⟨lo, hi, -, hx, hlo, hlt, hhi, hwidth, hchange⟩
  · exact hlt
  · exact (hchange.abs_le_abs_sub hx).trans_lt (hflat lo hi hlo hlt hhi hwidth)

theorem isProper_of_abs_le {f : ℚ → ℚ} {a b : ℚ} (hab : a < b) (hlimit : ∀ x, a ≤ x → x ≤ b → |x| ≤ 10 ^ 10)
    (hvalues : ∀ x, a ≤ x → x ≤ b → |f x| ≤ 10 ^ 20) : IsProper f a b where
  lt := hab
  withinLimit x ha hb := by
    have hle : |x| ≤ ((10000000000 : ℕ) : ℚ) := (hlimit x ha hb).trans (by norm_num)
    exact decide_eq_true hle
  isDefined x ha hb := by
    have hlt : |f x| < (Scalar.undefined : ℚ) := (hvalues x ha hb).trans_lt (by decide +kernel)
    exact decide_eq_true hlt

/-- The search for the root of two. -/
theorem findRoot_residual_square : IsProper (fun x : ℚ => x * x - 2) 0 2 ∧ (0 : ℚ) < 1 / 1000 ∧
    ((0 : ℚ) * 0 - 2) * (2 * 2 - 2) < 0 ∧
    ∃ r x, findRoot (fun x : ℚ => x * x - 2) 0 2 (1 / 1000) = .ok r ∧
      EndsAtRoot (fun x : ℚ => x * x - 2) 0 2 (1 / 1000) r x ∧
      ((∀ lo hi : ℚ, 0 ≤ lo → lo < hi → hi ≤ 2 → hi - lo ≤ resolution lo hi →
        |hi * hi - 2 - (lo * lo - 2)| < 1 / 1000) → |r.value| < 1 / 1000) := by
  have hproper : IsProper (fun x : ℚ => x * x - 2) 0 2 := by
    refine isProper_of_abs_le (by norm_num) (fun x h0 h2 => ?_) (fun x h0 h2 => ?_)
    · rw [abs_le]
      constructor <;> linarith
    · rw [abs_le]
      constructor <;> nlinarith
  exact ⟨hproper, by norm_num, by norm_num, findRoot_residual hproper (by norm_num) (by norm_num)⟩

/-- A line so steep that no two machine numbers next to its root have values near zero. -/
def steepLine (x : ℚ) : ℚ := 10 ^ 20 * (x - 1 / 2 ^ 53)

theorem isProper_steepLine : IsProper steepLine 0 1 := by
  refine isProper_of_abs_le (by norm_num) (fun x h0 h1 => ?_) (fun x h0 h1 => ?_)
  · rw [abs_le]
    constructor <;> linarith
  · unfold steepLine
    rw [abs_le]
    constructor <;> linarith

/-- Without a bound on the slope the value at the root may be above the tolerance. -/
theorem findRoot_steep : ¬ ∀ (f : ℚ → ℚ) (a b epsilon : ℚ), IsProper f a b → ContinuousOn f (Set.Icc a b) →
    f a * f b < 0 → 0 < epsilon →
    ∃ r x, findRoot f a b epsilon = .ok r ∧ r.point = [x] ∧ a ≤ x ∧ x ≤ b ∧ r.converged = true ∧ r.value = f x ∧
      |r.value| < epsilon := by
  intro hclaim
  have hcontinuous : ContinuousOn steepLine (Set.Icc 0 1) := by
    unfold steepLine
    fun_prop
  obtain ⟨r, x, hr, -, -, -, -, -, hlt⟩ :=
    hclaim steepLine 0 1 (1 / 1000) isProper_steepLine hcontinuous (by norm_num [steepLine]) (by norm_num)
  have hrun : (match findRoot steepLine 0 1 (1 / 1000) with
      | .ok r => decide (1 / 1000 ≤ |r.value|)
      | .error _ => false) = true := by decide +kernel
  rw [hr] at hrun
  exact absurd hlt (not_lt.mpr (of_decide_eq_true hrun))

end Numerics.Bisection
