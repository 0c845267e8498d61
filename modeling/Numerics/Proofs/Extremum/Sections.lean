import Mathlib
import Numerics.Extremum.GoldenSection
import Numerics.Proofs.Narrowing
import Numerics.Proofs.Root.Residual

/-!
# The bracket of golden sections

Each step drops the part of the bracket beyond the worse inner point, and asks for one new value (`IsStep`).  That the better
inner point is one of the smaller bracket as well is what the golden cut is for, whose square is what it leaves of one
(`Bracket.IsGolden.dropRight`, `Bracket.IsGolden.dropLeft`): so the inner points of each bracket have their places and their
values (`State.IsSection.next`).  The extremum of a function that has one only is never beyond the worse point
(`IsUnimodal.mem_next`), and the search reports the middle of the last bracket around it (`findExtremum_sections`).
-/

namespace Numerics.GoldenSection

open Query Scalar
open Bisection (IsProper)

section Runs

variable {α : Type} [Scalar α] {f g : α → α} {a b epsilon : α} {goal : Goal} {s t : State α} {r : Report α} {k : ℕ}

/-! ### Steps -/

/-- The state before the first step. -/
def State.initial (g : α → α) (a b : α) : State α :=
  let bracket := Bracket.new a b
  { bracket, atLeft := g bracket.innerLeft, atRight := g bracket.innerRight, steps := 0, trace := [] }

/-- The state after the next step. -/
def State.next (goal : Goal) (g : α → α) (s : State α) : State α := (shrink goal s).value g

/-- The state after `k` steps on `[a, b]`. -/
def stateAfter (goal : Goal) (g : α → α) (a b : α) (k : ℕ) : State α := (State.next goal g)^[k] (State.initial g a b)

theorem stateAfter_succ : stateAfter goal g a b (k + 1) = (stateAfter goal g a b k).next goal g :=
  Function.iterate_succ_apply' ..

/-- The step from `s` to `t` and its record: the part beyond the worse inner point is dropped, the better one keeps its value,
and the value at the other one is asked for. -/
inductive IsStep (goal : Goal) (g : α → α) (s t : State α) (record : Record α) : Prop where
  | keepLeft (improves : goal.improves s.atLeft s.atRight = true) (bracket : t.bracket = s.bracket.dropRight)
      (atRight : t.atRight = s.atLeft) (requests : (shrink goal s).requests g = [t.bracket.innerLeft])
      (atLeft : t.atLeft = g t.bracket.innerLeft) (direction : record.direction = .keepLeft)
      (point : record.point = [s.bracket.innerLeft]) (value : record.value = s.atLeft)
  | keepRight (improves : goal.improves s.atLeft s.atRight = false) (bracket : t.bracket = s.bracket.dropLeft)
      (atLeft : t.atLeft = s.atRight) (requests : (shrink goal s).requests g = [t.bracket.innerRight])
      (atRight : t.atRight = g t.bracket.innerRight) (direction : record.direction = .keepRight)
      (point : record.point = [s.bracket.innerRight]) (value : record.value = s.atRight)

theorem exists_isStep (goal : Goal) (g : α → α) (s : State α) :
    ∃ record, (s.next goal g).trace = record :: s.trace ∧ IsStep goal g s (s.next goal g) record := by
  cases himproves : goal.improves s.atLeft s.atRight with
  | true =>
    have hshrink : shrink goal s = ask s.bracket.dropRight.innerLeft fun v => done (s.keepLeft s.bracket.dropRight v) :=
      if_pos himproves
    obtain ⟨record, htrace, hpoint, hvalue, hdirection⟩ :=
      s.trace.exists_add (s.steps + 1) [s.bracket.dropRight.innerRight] s.atLeft .keepLeft
    rw [State.next, hshrink]
    exact ⟨record, htrace, .keepLeft himproves rfl rfl (by rw [hshrink]; rfl) rfl hdirection hpoint hvalue⟩
  | false =>
    have hshrink : shrink goal s = ask s.bracket.dropLeft.innerRight fun v => done (s.keepRight s.bracket.dropLeft v) :=
      if_neg (by rw [himproves]; exact Bool.false_ne_true)
    obtain ⟨record, htrace, hpoint, hvalue, hdirection⟩ :=
      s.trace.exists_add (s.steps + 1) [s.bracket.dropLeft.innerLeft] s.atRight .keepRight
    rw [State.next, hshrink]
    exact ⟨record, htrace, .keepRight himproves rfl rfl (by rw [hshrink]; rfl) rfl hdirection hpoint hvalue⟩

theorem isStep_stateAfter (goal : Goal) (g : α → α) (a b : α) (k : ℕ) :
    ∃ record, (stateAfter goal g a b (k + 1)).trace = record :: (stateAfter goal g a b k).trace ∧
      IsStep goal g (stateAfter goal g a b k) (stateAfter goal g a b (k + 1)) record := by
  rw [stateAfter_succ]
  exact exists_isStep goal g (stateAfter goal g a b k)

theorem length_requests_shrink (goal : Goal) (g : α → α) (s : State α) : ((shrink goal s).requests g).length = 1 := by
  obtain ⟨record, -, hstep⟩ := exists_isStep goal g s
  cases hstep with
  | keepLeft improves bracket atRight requests => rw [requests]; rfl
  | keepRight improves bracket atLeft requests => rw [requests]; rfl

theorem next_steps (goal : Goal) (g : α → α) (s : State α) : (s.next goal g).steps = s.steps + 1 := by
  unfold State.next shrink
  split <;> rfl

theorem stateAfter_steps : (stateAfter goal g a b k).steps = k := by
  induction k with
  | zero => rfl
  | succ k ih => rw [stateAfter_succ, next_steps, ih]

theorem value_shrinkings_succ (fuel : ℕ) (s : State α) : (shrinkings goal epsilon (fuel + 1) s).value g =
    if epsilon ≤ s.bracket.width then (shrinkings goal epsilon fuel (s.next goal g)).value g else s := by
  rw [shrinkings, apply_ite (Query.value g), value_bind]
  rfl

/-- The steps of a run end with the first bracket that is narrower than the tolerance, or after as many as may be made. -/
theorem value_shrinkings (goal : Goal) (g : α → α) (a b epsilon : α) : ∃ n,
    (shrinkings goal epsilon maxSteps (State.initial g a b)).value g = stateAfter goal g a b n ∧
      (∀ k < n, epsilon ≤ (stateAfter goal g a b k).bracket.width) ∧
      (n = maxSteps ∨ n < maxSteps ∧ ¬ epsilon ≤ (stateAfter goal g a b n).bracket.width) :=
  exists_iterate_of_loop (fun s : State α => epsilon ≤ s.bracket.width)
    (fun fuel s => (shrinkings goal epsilon fuel s).value g) (fun _ => rfl) value_shrinkings_succ maxSteps (State.initial g a b)

/-- A run asks for one value at each step. -/
theorem length_requests_shrinkings (fuel : ℕ) (s : State α) :
    ((shrinkings goal epsilon fuel s).value g).steps = s.steps + ((shrinkings goal epsilon fuel s).requests g).length := by
  induction fuel generalizing s with
  | zero => rfl
  | succ fuel ih =>
    rw [value_shrinkings_succ, shrinkings, apply_ite (Query.requests g), requests_bind]
    split
    · rw [ih, next_steps, List.length_append, length_requests_shrink, State.next]
      omega
    · rfl

/-! ### Searches -/

/-- The report after the steps. -/
def sectionReport (goal : Goal) (g : α → α) (a b epsilon : α) : Report α :=
  let s := (shrinkings goal epsilon maxSteps (State.initial g a b)).value g
  let x := s.bracket.middle
  { (Report.new [x] (g x) epsilon (if s.bracket.width < epsilon then .converged else .iterationLimit)).traced s.trace with
    iterations := s.steps
    nearBoundary := x - a < epsilon || b - x < epsilon
    finalInterval := some (s.bracket.left, s.bracket.right) }

theorem search_eq_ok_iff : (search a b epsilon goal).value g = .ok r ↔
    (Probe.definedOnMost a b).value g = true ∧ r = sectionReport goal g a b epsilon := by
  unfold search
  rw [value_bind]
  cases (Probe.definedOnMost a b).value g with
  | true =>
    simp only [value_bind, Bool.not_true, Bool.false_eq_true, if_false, true_and]
    exact ⟨fun h => (Except.ok.inj h).symm, fun h => congrArg Except.ok h.symm⟩
  | false => exact ⟨nofun, fun h => nomatch h.1⟩

theorem length_requests_definedOnMost : ((Probe.definedOnMost a b).requests g).length = 11 := by
  unfold Probe.definedOnMost
  rw [requests_bind, requests_collect, pure_def, Query.requests, List.append_nil, Probe.stepsFrom, List.length_map,
    List.length_range]

/-- A search asks for 11 values to check the interval, for some to see whether the function is constant, for those at the first
inner points, for one at each step, and for the one at the point that it reports. -/
theorem length_requests_search (h : (Probe.definedOnMost a b).value g = true) : ((search a b epsilon goal).requests g).length =
    14 + ((Probe.looksConstant a b).requests g).length + (sectionReport goal g a b epsilon).iterations := by
  have hsteps : (sectionReport goal g a b epsilon).iterations =
      0 + ((shrinkings goal epsilon maxSteps (State.initial g a b)).requests g).length := length_requests_shrinkings ..
  rw [hsteps]
  unfold search
  simp only [requests_bind, h, Bool.not_true, Bool.false_eq_true, if_false, List.length_append, length_requests_definedOnMost]
  change 11 + (_ + (1 + (1 + (((shrinkings goal epsilon maxSteps (State.initial g a b)).requests g).length + (1 + 0))))) = _
  omega

/-- The report is that of the steps, with the number of the requests. -/
theorem findExtremum_eq_ok_iff : findExtremum f a b epsilon goal = .ok r ↔
    checkInterval a b = .ok () ∧ checkEpsilon epsilon = .ok () ∧
      (Probe.definedOnMost a b).value (Objective.line f).guarded = true ∧
      { sectionReport goal (Objective.line f).guarded a b epsilon with
        evaluations := ((search a b epsilon goal).requests (Objective.line f).guarded).length } = r := by
  unfold findExtremum
  rw [Search.checked_run_eq_ok_iff]
  simp only [search_eq_ok_iff, and_assoc, exists_and_left, exists_eq_left]

end Runs

/-! ### Brackets in exact arithmetic -/

variable {K : Type} [ExactArithmetic K] {f g : K → K} {a b epsilon m x y v w : K} {goal : Goal} {bracket : Bracket K}
  {s t : State K} {r : Report K} {record : Record K} {k n : ℕ}

/-- The bracket has its inner points at the golden cuts from either end. -/
structure Bracket.IsGolden (bracket : Bracket K) : Prop where
  lt : bracket.left < bracket.right
  innerLeft : bracket.innerLeft = bracket.left + (1 - goldenCut) * bracket.width
  innerRight : bracket.innerRight = bracket.left + goldenCut * bracket.width

theorem width_eq (bracket : Bracket K) : bracket.width = bracket.right - bracket.left := rfl

theorem middle_eq (bracket : Bracket K) : bracket.middle = (bracket.left + bracket.right) / 2 := Bisection.midpoint_eq

theorem isGolden_new (hab : a < b) : (Bracket.new a b).IsGolden where
  lt := hab
  innerLeft := congrArg (fun one => a + (one - goldenCut) * (b - a)) Exact.one_eq
  innerRight := rfl

/-- Two golden cuts leave what is left beyond one. -/
theorem sq_goldenCut (hgolden : (goldenCut : K) ^ 2 + goldenCut = 1) : goldenCut * goldenCut = 1 - (goldenCut : K) := by
  rw [← hgolden]
  ring

namespace Bracket.IsGolden

/-- The inner points of a bracket are in order, and between its ends. -/
theorem inner_lt (hgolden : (goldenCut : K) ^ 2 + goldenCut = 1) (h : bracket.IsGolden) :
    bracket.left < bracket.innerLeft ∧ bracket.innerLeft < bracket.innerRight ∧ bracket.innerRight < bracket.right := by
  have hlt : (goldenCut : K) < 1 := ExactArithmetic.cut_lt_one
  have hwidth : 0 < bracket.width := sub_pos.mpr h.lt
  have hless : 1 - goldenCut < (goldenCut : K) := sq_goldenCut hgolden ▸ mul_lt_of_lt_one_left ExactArithmetic.cut_pos hlt
  have hright : bracket.right = bracket.left + 1 * bracket.width := by
    rw [width_eq]
    ring
  rw [h.innerLeft, h.innerRight, hright]
  refine ⟨lt_add_of_pos_right _ (mul_pos (sub_pos.mpr hlt) hwidth), ?_, ?_⟩
  · gcongr
  · gcongr

/-- **Left parts.** Without its right part the bracket is as wide as the golden cut tells, and the left inner point is at the
golden cut of what is left. -/
theorem dropRight (hgolden : (goldenCut : K) ^ 2 + goldenCut = 1) (h : bracket.IsGolden) :
    bracket.dropRight.IsGolden ∧ bracket.dropRight.width = goldenCut * bracket.width := by
  obtain ⟨hleft, hinner, -⟩ := h.inner_lt hgolden
  have hwidth : bracket.dropRight.width = goldenCut * bracket.width := by
    change bracket.innerRight - bracket.left = _
    rw [h.innerRight, add_sub_cancel_left]
  refine ⟨⟨hleft.trans hinner, ?_, ?_⟩, hwidth⟩
  · exact congrArg (fun one => bracket.left + (one - goldenCut) * (bracket.innerRight - bracket.left)) Exact.one_eq
  · rw [hwidth, ← mul_assoc, sq_goldenCut hgolden]
    exact h.innerLeft

/-- **Right parts.** Without its left part the bracket is as wide as that, and the right inner point is at the golden cut of what
is left from its other end. -/
theorem dropLeft (hgolden : (goldenCut : K) ^ 2 + goldenCut = 1) (h : bracket.IsGolden) :
    bracket.dropLeft.IsGolden ∧ bracket.dropLeft.width = goldenCut * bracket.width := by
  obtain ⟨-, hinner, hright⟩ := h.inner_lt hgolden
  have hwidth : bracket.dropLeft.width = goldenCut * bracket.width := by
    change bracket.right - bracket.innerLeft = _
    rw [h.innerLeft, width_eq]
    ring
  have hsame : bracket.innerRight = bracket.innerLeft + (1 - goldenCut) * (goldenCut * bracket.width) := by
    rw [h.innerRight, h.innerLeft, ← mul_assoc, sub_mul 1 goldenCut goldenCut, one_mul, sq_goldenCut hgolden]
    ring
  refine ⟨⟨hinner.trans hright, ?_, rfl⟩, hwidth⟩
  rw [hwidth]
  exact hsame

end Bracket.IsGolden

/-! ### Steps in exact arithmetic -/

/-- The bracket has its inner points at the golden cuts, and the values there are known. -/
structure State.IsSection (g : K → K) (s : State K) : Prop where
  isGolden : s.bracket.IsGolden
  atLeft : s.atLeft = g s.bracket.innerLeft
  atRight : s.atRight = g s.bracket.innerRight

/-- **Steps.** A step leaves a part of the bracket, as wide as the golden cut tells, with its inner points at the golden cuts. -/
theorem State.IsSection.next (hgolden : (goldenCut : K) ^ 2 + goldenCut = 1) (h : s.IsSection g)
    (hstep : IsStep goal g s t record) : t.IsSection g ∧ t.bracket.width = goldenCut * s.bracket.width ∧
      s.bracket.left ≤ t.bracket.left ∧ t.bracket.right ≤ s.bracket.right := by
  obtain ⟨hleft, hinner, hright⟩ := h.isGolden.inner_lt hgolden
  cases hstep with
  | keepLeft improves bracket atRight requests atLeft =>
    obtain ⟨hnext, hwidth⟩ := h.isGolden.dropRight hgolden
    refine ⟨⟨bracket ▸ hnext, atLeft, ?_⟩, bracket ▸ hwidth, ?_⟩
    · rw [atRight, bracket]
      exact h.atLeft
    · rw [bracket]
      exact ⟨le_rfl, hright.le⟩
  | keepRight improves bracket atLeft requests atRight =>
    obtain ⟨hnext, hwidth⟩ := h.isGolden.dropLeft hgolden
    refine ⟨⟨bracket ▸ hnext, ?_, atRight⟩, bracket ▸ hwidth, ?_⟩
    · rw [atLeft, bracket]
      exact h.atRight
    · rw [bracket]
      exact ⟨hleft.le, le_rfl⟩

/-- The inner points after any number of steps. -/
theorem isSection_stateAfter (hgolden : (goldenCut : K) ^ 2 + goldenCut = 1) (hab : a < b) (k : ℕ) :
    (stateAfter goal g a b k).IsSection g ∧ (stateAfter goal g a b k).bracket.width = (b - a) * goldenCut ^ k ∧
      a ≤ (stateAfter goal g a b k).bracket.left ∧ (stateAfter goal g a b k).bracket.right ≤ b := by
  induction k with
  | zero =>
    refine ⟨⟨isGolden_new hab, rfl, rfl⟩, ?_, le_rfl, le_rfl⟩
    rw [pow_zero, mul_one]
    rfl
  | succ k ih =>
    obtain ⟨hsection, hwidth, hleft, hright⟩ := ih
    obtain ⟨record, -, hstep⟩ := isStep_stateAfter goal g a b k
    obtain ⟨hnext, hnarrowed, hnextLeft, hnextRight⟩ := hsection.next hgolden hstep
    refine ⟨hnext, ?_, hleft.trans hnextLeft, hnextRight.trans hright⟩
    rw [hnarrowed, hwidth, pow_succ]
    ring

/-! ### The extremum -/

/-- The function gets strictly better up to `m` in `[a, b]`, and strictly worse from there on. -/
structure IsUnimodal (goal : Goal) (f : K → K) (a b m : K) : Prop where
  mem : m ∈ Set.Icc a b
  minimize : goal = .minimize → StrictAntiOn f (Set.Icc a m) ∧ StrictMonoOn f (Set.Icc m b)
  maximize : goal = .maximize → StrictMonoOn f (Set.Icc a m) ∧ StrictAntiOn f (Set.Icc m b)

/-- Of defined values the smaller one is better, or the larger one. -/
theorem improves_iff (hv : isDefined v = true) (hw : isDefined w = true) :
    goal.improves v w = true ↔ (goal = .minimize → v < w) ∧ (goal = .maximize → w < v) := by
  unfold Goal.improves
  rw [hv, hw]
  cases goal with
  | minimize => simp
  | maximize => simp

/-- What is better than a value is not worse. -/
theorem improves_asymm (hv : isDefined v = true) (hw : isDefined w = true) (h : goal.improves v w = true) :
    goal.improves w v = false := by
  rw [improves_iff hv hw] at h
  rw [← Bool.not_eq_true, improves_iff hw hv]
  rintro ⟨hminimize, hmaximize⟩
  cases goal with
  | minimize => exact lt_asymm (h.1 rfl) (hminimize rfl)
  | maximize => exact lt_asymm (h.2 rfl) (hmaximize rfl)

theorem IsUnimodal.improves_before (h : IsUnimodal goal f a b m) (hdefined : ∀ x, a ≤ x → x ≤ b → isDefined (f x) = true)
    (hx : a ≤ x) (hxy : x < y) (hy : y ≤ m) : goal.improves (f y) (f x) = true := by
  have hb := h.mem.2
  rw [improves_iff (hdefined y (hx.trans hxy.le) (hy.trans hb)) (hdefined x hx ((hxy.le.trans hy).trans hb))]
  exact ⟨fun hgoal => (h.minimize hgoal).1 ⟨hx, hxy.le.trans hy⟩ ⟨hx.trans hxy.le, hy⟩ hxy,
    fun hgoal => (h.maximize hgoal).1 ⟨hx, hxy.le.trans hy⟩ ⟨hx.trans hxy.le, hy⟩ hxy⟩

theorem IsUnimodal.improves_after (h : IsUnimodal goal f a b m) (hdefined : ∀ x, a ≤ x → x ≤ b → isDefined (f x) = true)
    (hx : m ≤ x) (hxy : x < y) (hy : y ≤ b) : goal.improves (f x) (f y) = true := by
  have ha := h.mem.1
  rw [improves_iff (hdefined x (ha.trans hx) (hxy.le.trans hy)) (hdefined y ((ha.trans hx).trans hxy.le) hy)]
  exact ⟨fun hgoal => (h.minimize hgoal).2 ⟨hx, hxy.le.trans hy⟩ ⟨hx.trans hxy.le, hy⟩ hxy,
    fun hgoal => (h.maximize hgoal).2 ⟨hx, hxy.le.trans hy⟩ ⟨hx.trans hxy.le, hy⟩ hxy⟩

/-- **Unimodal functions.** The extremum is not beyond the worse of two points, and beyond neither of two equal ones. -/
theorem IsUnimodal.mem_next (h : IsUnimodal goal f a b m) (hproper : IsProper f a b)
    (hgolden : (goldenCut : K) ^ 2 + goldenCut = 1) (hs : s.IsSection (Objective.line f).guarded)
    (hstep : IsStep goal (Objective.line f).guarded s t record) (ha : a ≤ s.bracket.left) (hb : s.bracket.right ≤ b)
    (hm : m ∈ Set.Icc s.bracket.left s.bracket.right) : m ∈ Set.Icc t.bracket.left t.bracket.right := by
  obtain ⟨hleft, hinner, hright⟩ := hs.isGolden.inner_lt hgolden
  have hlo : a ≤ s.bracket.innerLeft := ha.trans hleft.le
  have hhi : s.bracket.innerRight ≤ b := hright.le.trans hb
  have hatLeft : s.atLeft = f s.bracket.innerLeft := by
    rw [hs.atLeft, hproper.guarded_eq ⟨hlo, hinner.le.trans hhi⟩]
  have hatRight : s.atRight = f s.bracket.innerRight := by
    rw [hs.atRight, hproper.guarded_eq ⟨hlo.trans hinner.le, hhi⟩]
  have hdefinedLeft := hproper.isDefined s.bracket.innerLeft hlo (hinner.le.trans hhi)
  have hdefinedRight := hproper.isDefined s.bracket.innerRight (hlo.trans hinner.le) hhi
  cases hstep with
  | keepLeft improves bracket =>
    rw [hatLeft, hatRight] at improves
    have hle : m ≤ s.bracket.innerRight := by
      refine le_of_not_gt fun hbeyond => ?_
      have hworse := improves_asymm hdefinedLeft hdefinedRight improves
      rw [h.improves_before hproper.isDefined hlo hinner hbeyond.le] at hworse
      exact Bool.false_ne_true hworse.symm
    rw [bracket]
    exact ⟨hm.1, hle⟩
  | keepRight improves bracket =>
    rw [hatLeft, hatRight] at improves
    have hle : s.bracket.innerLeft ≤ m := by
      refine le_of_not_gt fun hbeyond => ?_
      rw [h.improves_after hproper.isDefined hbeyond.le hinner hhi] at improves
      exact Bool.false_ne_true improves.symm
    rw [bracket]
    exact ⟨hle, hm.2⟩

theorem IsUnimodal.mem_stateAfter (h : IsUnimodal goal f a b m) (hproper : IsProper f a b)
    (hgolden : (goldenCut : K) ^ 2 + goldenCut = 1) (k : ℕ) :
    m ∈ Set.Icc (stateAfter goal (Objective.line f).guarded a b k).bracket.left
      (stateAfter goal (Objective.line f).guarded a b k).bracket.right := by
  induction k with
  | zero => exact h.mem
  | succ k ih =>
    obtain ⟨hsection, -, hleft, hright⟩ := isSection_stateAfter hgolden hproper.lt k
    obtain ⟨record, -, hstep⟩ := isStep_stateAfter goal (Objective.line f).guarded a b k
    exact h.mem_next hproper hgolden hsection hstep hleft hright ih

/-! ### Searches in exact arithmetic -/

/-- The search reports the middle of the last of its brackets, each of which is a part of the one before. -/
structure ReportsSections (goal : Goal) (g : K → K) (a b epsilon : K) (r : Report K) : Prop where
  length : r.history.length = r.iterations
  isStep : ∀ k < r.iterations, ∃ record, r.history[k]? = some record ∧
    IsStep goal g (stateAfter goal g a b k) (stateAfter goal g a b (k + 1)) record
  evaluations : r.evaluations = 14 + ((Probe.looksConstant a b).requests g).length + r.iterations
  isSection : ∀ k, (stateAfter goal g a b k).IsSection g
  width : ∀ k, (stateAfter goal g a b k).bracket.width = (b - a) * goldenCut ^ k
  nested : ∀ k, (stateAfter goal g a b k).bracket.left ≤ (stateAfter goal g a b (k + 1)).bracket.left ∧
    (stateAfter goal g a b (k + 1)).bracket.right ≤ (stateAfter goal g a b k).bracket.right
  isWide : ∀ k < r.iterations, epsilon ≤ (stateAfter goal g a b k).bracket.width
  stops : r.iterations = maxSteps ∨ r.converged = true
  middle : ∃ lo hi x, lo = (stateAfter goal g a b r.iterations).bracket.left ∧
    hi = (stateAfter goal g a b r.iterations).bracket.right ∧ r.finalInterval = some (lo, hi) ∧ r.point = [x] ∧
    r.value = g x ∧ x = (lo + hi) / 2 ∧ (r.converged = true ↔ hi - lo < epsilon)

/-- The report after the steps. -/
theorem reportsSections_sectionReport (hgolden : (goldenCut : K) ^ 2 + goldenCut = 1) (hab : a < b)
    (hn : n = 14 + ((Probe.looksConstant a b).requests g).length + (sectionReport goal g a b epsilon).iterations) :
    ReportsSections goal g a b epsilon { sectionReport goal g a b epsilon with evaluations := n } := by
  obtain ⟨k, hend, hwide, hlast⟩ := value_shrinkings goal g a b epsilon
  obtain ⟨hlength, hrecords⟩ :=
    Trace.getElem?_reverse_of_steps (fun k => (stateAfter goal g a b k).trace) rfl (isStep_stateAfter goal g a b) k
  have hnested : ∀ k, (stateAfter goal g a b k).bracket.left ≤ (stateAfter goal g a b (k + 1)).bracket.left ∧
      (stateAfter goal g a b (k + 1)).bracket.right ≤ (stateAfter goal g a b k).bracket.right := by
    intro k
    obtain ⟨record, -, hrecord⟩ := isStep_stateAfter goal g a b k
    exact ((isSection_stateAfter hgolden hab k).1.next hgolden hrecord).2.2
  unfold sectionReport at hn ⊢
  rw [hend] at hn ⊢
  dsimp only at hn ⊢
  rw [stateAfter_steps] at hn ⊢
  exact {
    length := hlength
    isStep := hrecords
    evaluations := hn
    isSection := fun k => (isSection_stateAfter hgolden hab k).1
    width := fun k => (isSection_stateAfter hgolden hab k).2.1
    nested := hnested
    isWide := hwide
    stops := hlast.imp_right fun h => Status.isSettled_iff.mpr (not_le.mp h.2)
    middle := ⟨_, _, _, rfl, rfl, rfl, rfl, rfl, middle_eq _, Status.isSettled_iff⟩ }

/-- A search converges if as many steps as it may make are enough. -/
theorem ReportsSections.converged (h : ReportsSections goal g a b epsilon r) (hn : n < maxSteps)
    (hwidth : (b - a) * goldenCut ^ n < epsilon) : r.converged = true := by
  refine h.stops.resolve_left fun hall => ?_
  have hwide := h.isWide n (hall ▸ hn)
  rw [h.width] at hwide
  exact absurd hwidth (not_lt.mpr hwide)

/-- The middle of a bracket is not far from what is in it. -/
theorem abs_middle_sub_lt {lo hi : K} (hm : m ∈ Set.Icc lo hi) (hwidth : hi - lo < epsilon) :
    |(lo + hi) / 2 - m| < epsilon / 2 := by
  obtain ⟨hlo, hhi⟩ := hm
  rw [abs_lt]
  constructor <;> linarith

theorem exists_findExtremum (hproper : IsProper f a b) (hepsilon : 0 < epsilon) (goal : Goal) :
    ∃ r, findExtremum f a b epsilon goal = .ok r :=
  ⟨_, findExtremum_eq_ok_iff.mpr ⟨Exact.checkInterval_eq_ok_iff.mpr hproper.lt, Exact.checkEpsilon_eq_ok_iff.mpr hepsilon,
    hproper.definedOnMost, rfl⟩⟩

/-- **Golden sections.** Where the golden cut is exact, each step leaves a part of the bracket with its inner points and their
values in their places, for one value that is asked for; so all brackets have the extremum of a function with one only, and the
report is less than half the tolerance away from it once the last one is narrow. -/
theorem findExtremum_sections (hgolden : (goldenCut : K) ^ 2 + goldenCut = 1) (h : findExtremum f a b epsilon goal = .ok r) :
    ReportsSections goal (Objective.line f).guarded a b epsilon r ∧ ∀ m, IsProper f a b → IsUnimodal goal f a b m →
      (∀ k, m ∈ Set.Icc (stateAfter goal (Objective.line f).guarded a b k).bracket.left
        (stateAfter goal (Objective.line f).guarded a b k).bracket.right) ∧
      (r.converged = true → ∃ x, r.point = [x] ∧ |x - m| < epsilon / 2) := by
  obtain ⟨hinterval, -, hdefined, rfl⟩ := findExtremum_eq_ok_iff.mp h
  have hreports : ReportsSections goal (Objective.line f).guarded a b epsilon _ :=
    reportsSections_sectionReport hgolden (Exact.checkInterval_eq_ok_iff.mp hinterval) (length_requests_search hdefined)
  refine ⟨hreports, fun m hproper hm => ?_⟩
  have hmem := hm.mem_stateAfter hproper hgolden
  refine ⟨hmem, fun hconverged => ?_⟩
  obtain ⟨lo, hi, x, rfl, rfl, -, hpoint, -, rfl, hiff⟩ := hreports.middle
  exact ⟨_, hpoint, abs_middle_sub_lt (hmem _) (hiff.mp hconverged)⟩

/-- The real numbers, with the golden cut. -/
noncomputable instance : ExactArithmetic ℝ where
  sentinel := 17976931348623156 * 10 ^ 289
  sentinel_pos := by norm_num
  cut := Real.goldenRatio⁻¹
  cut_pos := inv_pos.mpr Real.goldenRatio_pos
  cut_lt_one := inv_lt_one_of_one_lt₀ Real.one_lt_goldenRatio

theorem goldenCut_real : (goldenCut : ℝ) ^ 2 + goldenCut = 1 := by
  change (Real.goldenRatio⁻¹) ^ 2 + Real.goldenRatio⁻¹ = 1
  rw [Real.inv_goldenRatio, neg_sq, Real.goldenConj_sq]
  ring

/-- The search for the vertex of a parabola. -/
theorem findExtremum_sections_parabola : (goldenCut : ℝ) ^ 2 + goldenCut = 1 ∧
    IsProper (fun x : ℝ => (x - 1 / 2) ^ 2) 0 2 ∧ IsUnimodal .minimize (fun x : ℝ => (x - 1 / 2) ^ 2) 0 2 (1 / 2) ∧
    ∃ r x, findExtremum (fun x : ℝ => (x - 1 / 2) ^ 2) 0 2 (1 / 10) .minimize = .ok r ∧
      ReportsSections .minimize (Objective.line fun x : ℝ => (x - 1 / 2) ^ 2).guarded 0 2 (1 / 10) r ∧
      r.converged = true ∧ r.point = [x] ∧ |x - 1 / 2| < 1 / 10 / 2 := by
  have hproper : IsProper (fun x : ℝ => (x - 1 / 2) ^ 2) 0 2 := by
    refine ⟨by norm_num, fun x h0 h2 => ?_, fun x h0 h2 => ?_⟩
    · rw [Exact.withinLimit_iff, abs_of_nonneg h0]
      linarith
    · rw [Exact.isDefined_iff, abs_of_nonneg (sq_nonneg _)]
      change (x - 1 / 2) ^ 2 < (17976931348623156 * 10 ^ 289 : ℝ)
      calc (x - 1 / 2) ^ 2 ≤ 4 := by nlinarith
        _ < 17976931348623156 * 1 := by norm_num
        _ ≤ 17976931348623156 * 10 ^ 289 := by gcongr; exact one_le_pow₀ (by norm_num)
  have hunimodal : IsUnimodal .minimize (fun x : ℝ => (x - 1 / 2) ^ 2) 0 2 (1 / 2) := by
    refine ⟨⟨by norm_num, by norm_num⟩, fun _ => ⟨fun x hx y hy hxy => ?_, fun x hx y hy hxy => ?_⟩, nofun⟩
    · have hy' := hy.2
      simp only
      nlinarith
    · have hx' := hx.1
      simp only
      nlinarith
  have hcut : (goldenCut : ℝ) ≤ 2 / 3 := by nlinarith [goldenCut_real]
  have hwidth : ((2 : ℝ) - 0) * goldenCut ^ 10 < 1 / 10 := by
    calc ((2 : ℝ) - 0) * goldenCut ^ 10 ≤ (2 - 0) * (2 / 3) ^ 10 := by
          gcongr
          exact ExactArithmetic.cut_pos.le
      _ < 1 / 10 := by norm_num
  obtain ⟨r, hr⟩ := exists_findExtremum hproper (by norm_num : (0 : ℝ) < 1 / 10) .minimize
  obtain ⟨hreports, hextremum⟩ := findExtremum_sections goldenCut_real hr
  have hconverged := hreports.converged (n := 10) (by decide) hwidth
  obtain ⟨x, hpoint, hclose⟩ := (hextremum _ hproper hunimodal).2 hconverged
  exact ⟨goldenCut_real, hproper, hunimodal, r, x, hr, hreports, hconverged, hpoint, hclose⟩

end Numerics.GoldenSection
