import Numerics.Proofs.Extremum.Rescue
import Numerics.Proofs.Extremum.NewtonPath
import Numerics.Proofs.LockStep

/-!
# The trajectory of a Newton search

What a Newton search tells of its way.  One that keeps a history reports the same as one that keeps none, but for the history
(`findMinimum_untracked`).  In exact arithmetic the iterates stay in the interval (`iterates_mem`), and a step is a tenth of the
interval long at most, or a tenth of the slope (`step_spec`, `abs_clamp_sub_le`); the report has the value of the function at
each iterate, and value, slope and curvature at its point (`findMinimum_trajectory`).
-/

namespace Numerics.Newton

open Query Scalar

/-! ### Searches without a history -/

section Untracked

variable {α : Type} [Scalar α]

/-- The settings for a search without a history. -/
def Settings.untracked (s : Settings α) : Settings α := { s with trackSteps := false }

/-- The ending of a run without a history. -/
def Ending.untracked (e : Ending α) : Ending α := { e with records := [] }

/-- The report of a search without a history. -/
def untracked (r : Report α) : Report α := { r with history := [] }

/-- The same values lead a run without a history to the same ending, but for its records. -/
theorem lockStep_iterate (s : Settings α) (fuel : ℕ) (e : Ending α) :
    LockStep id Ending.untracked (iterate s fuel e) (iterate s.untracked fuel e.untracked) := by
  induction fuel generalizing e with
  | zero => exact .done e
  | succ fuel ih =>
    rw [iterate, iterate]
    refine .request _ fun fx => (LockStep.refl _).bind fun d => ?_
    -- both runs are at the same point, with the same slope and curvature
    have hclassify : classify s.untracked e.untracked.x (id d) = classify s e.x d := rfl
    rw [hclassify]
    cases classify s e.x d with
    | some status => exact .done _
    | none =>
      change LockStep _ _ _ (if Scalar.abs (clamp (e.x + (step s d).1) s.a s.b - e.x) < s.epsilon then _ else _)
      dsimp only
      split
      · exact (LockStep.refl _).bind fun there => .done _
      · exact ih _

theorem lockStep_search (s : Settings α) : LockStep id (Except.map untracked) (search s) (search s.untracked) := by
  refine (lockStep_iterate s s.maxIterations _).bind fun ⟨x, verdict, values, records⟩ => ?_
  cases verdict with
  | some status =>
    refine (LockStep.refl _).bind fun result => (LockStep.refl _).bind fun d => ?_
    exact .request _ fun fx => Search.lockStep_report rfl
  | none =>
    refine (LockStep.refl (rescue s)).bind fun rescued => ?_
    refine (LockStep.refl _).bind fun result => (LockStep.refl _).bind fun d => ?_
    exact .request _ fun fx => Search.lockStep_report rfl

/-- **Searches without a history.** They report the same as those with one, but for the history. -/
theorem findMinimum_untracked (f : α → α) (s : Settings α) : findMinimum f s.untracked = (findMinimum f s).map untracked := by
  have hrun := (Search.lockStep_counted (lockStep_search s) fun _ _ => rfl).value (Objective.line f).guarded
  unfold findMinimum Search.run
  change (checked s.validate >>= fun _ => _) = _
  cases checked s.validate with
  | error e => rfl
  | ok _ => exact hrun

end Untracked

/-! ### Exact arithmetic -/

variable {K : Type} [ExactArithmetic K] {s : Settings K} {g : K → K} {x : K} {d : Derivatives K} {i : ℕ}

/-- Settings that can be met. -/
structure Settings.IsValid (s : Settings K) : Prop where
  interval : s.a < s.b
  epsilon : 0 < s.epsilon
  iterations : 1 ≤ s.maxIterations ∧ s.maxIterations ≤ 10000

theorem Settings.validate_eq_ok_iff : s.validate = .ok () ↔ s.IsValid := by
  unfold validate
  rw [check_bind_eq_ok_iff, check_bind_eq_ok_iff, check_bind_eq_ok_iff, Exact.checkInterval_eq_ok_iff,
    Exact.checkEpsilon_eq_ok_iff, Exact.checkMaxIterations_eq_ok_iff]
  exact ⟨fun ⟨hinterval, hepsilon, hiterations, _⟩ => ⟨hinterval, hepsilon, hiterations⟩,
    fun ⟨hinterval, hepsilon, hiterations⟩ => ⟨hinterval, hepsilon, hiterations, rfl⟩⟩

/-! ### Difference quotients -/

/-- The central difference quotient of the first order, and 1 where the function has no value at a sample. -/
def slope (g : K → K) (x : K) : K :=
  if isDefined (g (x + 1 / 10 ^ 6)) && isDefined (g (x - 1 / 10 ^ 6)) then
    (g (x + 1 / 10 ^ 6) - g (x - 1 / 10 ^ 6)) / (2 / 10 ^ 6)
  else 1

/-- The central difference quotient of the second order, and 1 where the function has no value at a sample. -/
def curvature (g : K → K) (x : K) : K :=
  if isDefined (g x) && isDefined (g (x + 1 / 10 ^ 4)) && isDefined (g (x - 1 / 10 ^ 4)) then
    (g (x + 1 / 10 ^ 4) - 2 * g x + g (x - 1 / 10 ^ 4)) / (1 / 10 ^ 4) ^ 2
  else 1

theorem value_firstDerivative : (firstDerivative x).value g = slope g x := by
  change (if (isDefined (g (x + place 6)) && isDefined (g (x - place 6))) = true then
    (g (x + place 6) - g (x - place 6)) / (((2 : ℕ) : K) * place 6) else ((1 : ℕ) : K)) = _
  rw [Exact.place_eq, Nat.cast_ofNat, Nat.cast_one, mul_one_div]
  rfl

theorem value_secondDerivative : (secondDerivative x).value g = curvature g x := by
  change (if (isDefined (g x) && isDefined (g (x + place 4)) && isDefined (g (x - place 4))) = true then
    (g (x + place 4) - ((2 : ℕ) : K) * g x + g (x - place 4)) / (place 4 * place 4) else ((1 : ℕ) : K)) = _
  rw [Exact.place_eq, Nat.cast_ofNat, Nat.cast_one, ← sq]
  rfl

/-- The derivatives that a search reports are difference quotients. -/
theorem value_derivatives : (derivatives x).value g = { first := slope g x, second := curvature g x } := by
  rw [← value_firstDerivative, ← value_secondDerivative]
  rfl

/-! ### Steps -/

/-- **Iterates.** They lie in the interval. -/
theorem iterates_mem (h : s.IsValid) (i : ℕ) : iterates s g i ∈ Set.Icc s.a s.b := by
  cases i with
  | zero => exact Exact.clamp_mem h.interval.le
  | succ i =>
    rw [iterates_succ]
    exact Exact.clamp_mem h.interval.le

/-- What the interval leaves of a step is no longer than the step. -/
theorem abs_clamp_sub_le {lo hi m : K} (hx : x ∈ Set.Icc lo hi) : |clamp (x + m) lo hi - x| ≤ |m| := by
  -- the clamp moves `x + m` toward the interval, and so toward `x`
  obtain ⟨hlo, hhi⟩ := hx
  rw [Exact.clamp_eq (hlo.trans hhi), abs_le]
  constructor
  · have hle := le_max_right lo (min (x + m) hi)
    have hmin : x - |m| ≤ min (x + m) hi := le_min (by linarith [neg_abs_le m]) (by linarith [abs_nonneg m])
    linarith
  · have hle : max lo (min (x + m) hi) ≤ x + |m| :=
      max_le (by linarith [abs_nonneg m]) ((min_le_left _ _).trans (by linarith [le_abs_self m]))
    linarith

/-- A step is a tenth of the interval long at most, or a tenth of the slope. -/
theorem step_spec (h : s.IsValid) (d : Derivatives K) :
    ((step s d).2 = .newton ∧ |(step s d).1| ≤ (s.b - s.a) / 10) ∨
      ((step s d).2 = .gradient ∧ |(step s d).1| = 1 / 10 * |d.first|) := by
  have hlongest : 0 ≤ (s.b - s.a) / 10 := div_nonneg (sub_nonneg.mpr h.interval.le) (by norm_num)
  unfold step
  split
  · exact .inl ⟨rfl, abs_le.mpr (Exact.clamp_mem (neg_le_self hlongest))⟩
  · refine .inr ⟨rfl, ?_⟩
    change |-place 1 * d.first| = _
    rw [Exact.place_eq, neg_mul, abs_neg, abs_mul, abs_of_nonneg (by positivity), pow_one]

/-! ### Trajectories -/

/-- Slope and curvature at the iterate `i`. -/
def quotients (s : Settings K) (g : K → K) (i : ℕ) : Derivatives K where
  first := slope g (iterates s g i)
  second := curvature g (iterates s g i)

/-- The step from the iterate `i` comes to an accepted point: the iterate passes a test for a minimum, or it hardly moves. -/
def IsAccepted (s : Settings K) (g : K → K) (i : ℕ) : Prop :=
  PassesTest s (iterates s g i) (quotients s g i) ∨ |iterates s g (i + 1) - iterates s g i| < s.epsilon

/-- The record tells of the iterate `i`, and of what kind the step from it is. -/
structure IsRecordOf (s : Settings K) (g : K → K) (i : ℕ) (record : Record K) : Prop where
  index : record.index = i
  point : record.point = [iterates s g i]
  value : record.value = g (iterates s g i)
  derivatives : record.derivatives = some (quotients s g i)
  step : (record.direction = .stay ∧ PassesTest s (iterates s g i) (quotients s g i)) ∨
    (record.direction = .newton ∧ |iterates s g (i + 1) - iterates s g i| ≤ (s.b - s.a) / 10) ∨
    (record.direction = .gradient ∧ |iterates s g (i + 1) - iterates s g i| ≤ 1 / 10 * |slope g (iterates s g i)|)

/-- The history has one record for each of the first `n` iterates. -/
structure IsHistory (s : Settings K) (g : K → K) (n : ℕ) (history : List (Record K)) : Prop where
  length : history.length = n
  record : ∀ i (h : i < history.length), IsRecordOf s g i history[i]

/-- The report is that of a search which made its way along the iterates, up to the first accepted point if it came to one. -/
structure IsTrajectory (s : Settings K) (g : K → K) (r : Report K) : Prop where
  inside : ∀ i, iterates s g i ∈ Set.Icc s.a s.b
  iterations : 1 ≤ r.iterations ∧ r.iterations ≤ s.maxIterations
  values : r.values = (List.range r.iterations).map fun i => g (iterates s g i)
  reported : ∃ x ∈ Set.Icc s.a s.b, r.point = [x] ∧ r.value = g x ∧
    r.derivatives = some { first := slope g x, second := curvature g x }
  converged : r.converged = false ↔ isRescued r.status = true
  rescued : isRescued r.status = true ↔ ∀ i < s.maxIterations, ¬ IsAccepted s g i
  scanned : isRescued r.status = true → r.iterations = s.maxIterations ∧ r.point = [rescuePoint s g]
  settled : isRescued r.status = false → ∃ j, r.iterations = j + 1 ∧ (∀ i < j, ¬ IsAccepted s g i) ∧ IsAccepted s g j ∧
    r.point = [if PassesTest s (iterates s g j) (quotients s g j) then iterates s g j else iterates s g (j + 1)]

theorem quotients_eq : quotients s g i = (derivatives (iterates s g i)).value g := value_derivatives.symm

theorem settled?_iterates_eq_none_iff : settled? s g (iterates s g i) = none ↔ ¬ IsAccepted s g i := by
  rw [settled?_eq_none_iff, IsAccepted, quotients_eq, iterates_succ, not_or]
  rfl

/-- The point that an iterate settles a search at: the iterate, or the one after it. -/
theorem eq_of_settled?_iterates {status : Status} (h : settled? s g (iterates s g i) = some (x, status)) :
    x = if PassesTest s (iterates s g i) (quotients s g i) then iterates s g i else iterates s g (i + 1) := by
  rw [quotients_eq, iterates_succ]
  exact (settled?_spec h).1

/-- Each record tells of its iterate. -/
theorem isRecordOf_recordAt (h : s.IsValid) (i : ℕ) : IsRecordOf s g i (recordAt s g i) where
  index := rfl
  point := rfl
  value := rfl
  derivatives := congrArg some quotients_eq.symm
  step := by
    have hmove : |iterates s g (i + 1) - iterates s g i| ≤ |(Newton.step s (quotients s g i)).1| := by
      rw [iterates_succ, quotients_eq]
      exact abs_clamp_sub_le (iterates_mem h i)
    change directionAt s g (iterates s g i) = _ ∧ _ ∨ directionAt s g (iterates s g i) = _ ∧ _ ∨
      directionAt s g (iterates s g i) = _ ∧ _
    unfold directionAt
    rw [← quotients_eq]
    split
    · next hpasses => exact .inl ⟨rfl, hpasses⟩
    · rcases step_spec h (quotients s g i) with ⟨hdirection, hstep⟩ | ⟨hdirection, hstep⟩
      · exact .inr (.inl ⟨hdirection, hmove.trans hstep⟩)
      · exact .inr (.inr ⟨hdirection, hmove.trans hstep.le⟩)

theorem isHistory_records (h : s.IsValid) (n : ℕ) : IsHistory s g n ((List.range n).map (recordAt s g)) where
  length := by rw [List.length_map, List.length_range]
  record i hi := by
    rw [List.getElem_map, List.getElem_range]
    exact isRecordOf_recordAt h i

/-- **Ends.** The report of an end is that of a search along the iterates. -/
theorem IsEnd.isTrajectory {n : ℕ} {status : Status} (hend : IsEnd s g n x status) (h : s.IsValid) (evaluations : ℕ) :
    IsTrajectory s g (reportAt s g n x status evaluations) := by
  have hconverged : (!isRescued status) = false ↔ isRescued status = true := by rw [Bool.not_eq_false']
  have hderivatives : some ((derivatives x).value g) = some { first := slope g x, second := curvature g x } :=
    congrArg some value_derivatives
  cases hend with
  | @settled j x status steps before last =>
    have hx := eq_of_settled?_iterates last
    have hmem : x ∈ Set.Icc s.a s.b := by
      rw [hx]
      split <;> exact iterates_mem h _
    have hbefore : ∀ i < j, ¬ IsAccepted s g i := fun i hi => settled?_iterates_eq_none_iff.mp (before i hi)
    have haccepted : IsAccepted s g j := by
      by_contra hnever
      rw [settled?_iterates_eq_none_iff.mpr hnever] at last
      cases last
    have hnot : ¬ isRescued status = true := Bool.eq_false_iff.mp (settled?_spec last).2.1
    exact {
      inside := iterates_mem h
      iterations := ⟨Nat.succ_pos j, steps⟩
      values := rfl
      reported := ⟨x, hmem, rfl, rfl, hderivatives⟩
      converged := hconverged
      rescued := iff_of_false hnot fun hnever => hnever j steps haccepted
      scanned := fun hscan => absurd hscan hnot
      settled := fun _ => ⟨j, rfl, hbefore, haccepted, congrArg (fun x => [x]) hx⟩ }
  | rescued never =>
    have hpoint : ((rescue s).value g).1 = rescuePoint s g := congrArg Prod.fst value_rescue
    have hmem : ((rescue s).value g).1 ∈ Set.Icc s.a s.b := hpoint ▸ nodes_mem h.interval.le (rescuePoint_mem_nodes s g)
    exact {
      inside := iterates_mem h
      iterations := ⟨h.iterations.1, le_rfl⟩
      values := rfl
      reported := ⟨_, hmem, rfl, rfl, hderivatives⟩
      converged := hconverged
      rescued := iff_of_true rfl fun i hi => settled?_iterates_eq_none_iff.mp (never i hi)
      scanned := fun _ => ⟨rfl, congrArg (fun x => [x]) hpoint⟩
      settled := nofun }

/-- Whether a history is kept has no influence on the end. -/
theorem IsEnd.of_track {n : ℕ} {status : Status} {track : Bool} (h : IsEnd { s with trackSteps := track } g n x status) :
    IsEnd s g n x status := by
  cases h with
  | settled steps before last => exact .settled steps before last
  | rescued never => exact .rescued never

/-- **The trajectory of a search.** A search with valid settings reports its way along the iterates, with a history of them if it
is to keep one, and else the same without it. -/
theorem findMinimum_trajectory (f : K → K) {s : Settings K} (h : s.validate = .ok ()) :
    ∃ r history, IsTrajectory s (Objective.line f).guarded r ∧ IsHistory s (Objective.line f).guarded r.iterations history ∧
      ∀ track : Bool, findMinimum f { s with trackSteps := track } =
        .ok { r with history := if track then history else [] } := by
  have hvalid : s.IsValid := Settings.validate_eq_ok_iff.mp h
  obtain ⟨n, x, status, hend, hr⟩ := findMinimum_isEnd (f := f) (s := { s with trackSteps := true }) h
  generalize (requests _ _).length = evaluations at hr
  refine ⟨_, _, hend.of_track.isTrajectory hvalid evaluations, isHistory_records hvalid n, fun track => ?_⟩
  cases track with
  | true => exact hr
  | false =>
    have huntracked := findMinimum_untracked f { s with trackSteps := true }
    rw [hr] at huntracked
    exact huntracked

/-- A parabola with its vertex at 1, from 0. -/
theorem findMinimum_trajectory_parabola : (Settings.default : Settings ℚ).validate = .ok () ∧
    ∃ r history, IsTrajectory Settings.default (Objective.line fun x : ℚ => (x - 1) * (x - 1)).guarded r ∧
      IsHistory Settings.default (Objective.line fun x : ℚ => (x - 1) * (x - 1)).guarded r.iterations history ∧
      ∀ track : Bool, findMinimum (fun x : ℚ => (x - 1) * (x - 1)) { Settings.default with trackSteps := track } =
        .ok { r with history := if track then history else [] } := by
  have h : (Settings.default : Settings ℚ).validate = .ok () := by decide +kernel
  exact ⟨h, findMinimum_trajectory _ h⟩

end Numerics.Newton
