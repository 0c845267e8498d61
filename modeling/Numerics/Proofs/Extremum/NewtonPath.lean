import Mathlib.Data.List.Range
import Mathlib.Logic.Function.Iterate
import Numerics.Proofs.Invariants

/-!
# The path of a Newton search

The iterates of a Newton search are known beforehand (`iterates`): each one is a step away from the one before.  An iterate
settles the search if it passes a test for a minimum, or if the step from it is short (`settled?`).  A search ends with the
first iterate that settles it, and with the point that a scan finds if none does (`IsEnd`); its report is read off the path
and the end (`findMinimum_isEnd`).
-/

namespace Numerics.Newton

open Query Scalar

variable {α : Type} [Scalar α] {s : Settings α} {f g : α → α} {x y : α} {d : Derivatives α} {status : Status}
  {i j n fuel : ℕ}

/-! ### Tests -/

/-- The point passes a test for a minimum: near an end toward which the function falls, or without slope where the curvature
is positive. -/
def PassesTest (s : Settings α) (x : α) (d : Derivatives α) : Prop :=
  (Scalar.abs (x - s.a) < s.epsilon ∧ 0 < d.first) ∨ (Scalar.abs (x - s.b) < s.epsilon ∧ d.first < 0) ∨
    (Scalar.abs d.first < s.epsilon ∧ 0 < d.second)

instance : Decidable (PassesTest s x d) := inferInstanceAs (Decidable (_ ∨ _ ∨ _))

/-- The search ran out of steps. -/
def isRescued : Status → Bool
  | .rescued _ => true
  | _ => false

theorem isSome_classify_iff : (classify s x d).isSome = true ↔ PassesTest s x d := by
  unfold classify PassesTest
  split_ifs <;> simp_all

theorem classify_eq_none_iff : classify s x d = none ↔ ¬ PassesTest s x d := by
  rw [← isSome_classify_iff, Bool.not_eq_true, Option.isSome_eq_false_iff, Option.isNone_iff_eq_none]

/-- The verdicts of the tests are for minima, and not those of a scan. -/
theorem isMinimum_of_classify (h : classify s x d = some status) : isMinimum status = true ∧ isRescued status = false := by
  unfold classify at h
  split_ifs at h <;> cases h <;> exact ⟨rfl, rfl⟩

/-- A point that passes no test is no minimum. -/
theorem isMinimum_getD_classify :
    (isMinimum ((classify s x d).getD .notAMinimum) = true ↔ PassesTest s x d) ∧
      isRescued ((classify s x d).getD .notAMinimum) = false := by
  rw [← isSome_classify_iff]
  cases h : classify s x d with
  | none => exact ⟨iff_of_false nofun nofun, rfl⟩
  | some status => exact ⟨iff_of_true (isMinimum_of_classify h).1 rfl, (isMinimum_of_classify h).2⟩

/-! ### Iterates -/

/-- The point that the search goes to from `x`. -/
def next (s : Settings α) (g : α → α) (x : α) : α := clamp (x + (step s ((derivatives x).value g)).1) s.a s.b

/-- The iterate `i` of the search. -/
def iterates (s : Settings α) (g : α → α) (i : ℕ) : α := (next s g)^[i] (clamp s.x0 s.a s.b)

theorem iterates_succ : iterates s g (i + 1) = next s g (iterates s g i) := Function.iterate_succ_apply' _ _ _

/-- What the search does at `x`: it stays if the point passes a test, and else it makes a step. -/
def directionAt (s : Settings α) (g : α → α) (x : α) : Direction :=
  if PassesTest s x ((derivatives x).value g) then .stay else (step s ((derivatives x).value g)).2

/-- The record of the iterate `i`. -/
def recordAt (s : Settings α) (g : α → α) (i : ℕ) : Record α :=
  record i (iterates s g i) (g (iterates s g i)) ((derivatives (iterates s g i)).value g)
    (directionAt s g (iterates s g i))

/-- Where an iterate at `x` settles the search, and with which verdict, if it does. -/
def settled? (s : Settings α) (g : α → α) (x : α) : Option (α × Status) :=
  match classify s x ((derivatives x).value g) with
  | some status => some (x, status)
  | none =>
    if Scalar.abs (next s g x - x) < s.epsilon then
      some (next s g x, (classify s (next s g x) ((derivatives (next s g x)).value g)).getD .notAMinimum)
    else none

theorem settled?_eq_none_iff : settled? s g x = none ↔
    ¬ PassesTest s x ((derivatives x).value g) ∧ ¬ Scalar.abs (next s g x - x) < s.epsilon := by
  unfold settled?
  split
  · next status h => exact iff_of_false nofun fun hnot => absurd (h ▸ rfl) (isSome_classify_iff.not.mpr hnot.1)
  · next h =>
    rw [classify_eq_none_iff] at h
    split
    · next hshort => exact iff_of_false nofun fun hnot => hnot.2 hshort
    · next hlong => exact iff_of_true rfl ⟨h, hlong⟩

/-- An iterate settles the search at itself if it passes a test, and else at the point that it goes to; the verdict is that of
the tests there. -/
theorem settled?_spec (h : settled? s g x = some (y, status)) :
    y = (if PassesTest s x ((derivatives x).value g) then x else next s g x) ∧ isRescued status = false ∧
      (isMinimum status = true ↔ PassesTest s y ((derivatives y).value g)) := by
  unfold settled? at h
  split at h
  · next verdict hclassify =>
    cases h
    have hpasses : PassesTest s x ((derivatives x).value g) := isSome_classify_iff.mp (hclassify ▸ rfl)
    obtain ⟨hminimum, hrescued⟩ := isMinimum_of_classify hclassify
    exact ⟨(if_pos hpasses).symm, hrescued, iff_of_true hminimum hpasses⟩
  · next hclassify =>
    split at h
    · cases h
      exact ⟨(if_neg (classify_eq_none_iff.mp hclassify)).symm, isMinimum_getD_classify.2, isMinimum_getD_classify.1⟩
    · cases h

/-! ### Runs -/

/-- What a run that came to an iterate comes to with the point `y`. -/
def Ending.visited (s : Settings α) (g : α → α) (e : Ending α) (y : α) (verdict : Option Status) : Ending α where
  x := y
  verdict := verdict
  values := g e.x :: e.values
  records := e.track s (g e.x) ((derivatives e.x).value g) (directionAt s g e.x)

/-- **One iterate.** It settles the search, or the next one follows. -/
theorem value_iterate_succ (e : Ending α) : (iterate s (fuel + 1) e).value g =
    match settled? s g e.x with
    | some (y, status) => e.visited s g y (some status)
    | none => (iterate s fuel (e.visited s g (next s g e.x) none)).value g := by
  rw [iterate, settled?]
  simp only [request, ask_bind, done_bind, Query.value, value_bind]
  unfold Ending.visited directionAt
  cases hclassify : classify s e.x ((derivatives e.x).value g) with
  | some status =>
    rw [if_pos (isSome_classify_iff.mp (hclassify ▸ rfl))]
    rfl
  | none =>
    rw [if_neg (classify_eq_none_iff.mp hclassify)]
    dsimp only
    unfold next
    split
    · rw [value_bind]
      rfl
    · rfl

/-- The ending of a run at `y` after `n` iterates. -/
def endingAt (s : Settings α) (g : α → α) (n : ℕ) (y : α) (verdict : Option Status) : Ending α where
  x := y
  verdict := verdict
  values := ((List.range n).map fun i => g (iterates s g i)).reverse
  records := if s.trackSteps then ((List.range n).map (recordAt s g)).reverse else []

theorem endingAt_succ (y : α) (verdict : Option Status) :
    endingAt s g (n + 1) y verdict = (endingAt s g n (iterates s g n) none).visited s g y verdict := by
  unfold endingAt Ending.visited Ending.track
  simp only [List.range_succ, List.map_append, List.map_singleton, List.reverse_append, List.reverse_singleton,
    List.singleton_append, List.length_reverse, List.length_map, List.length_range]
  cases s.trackSteps <;> rfl

/-- **Runs.** After iterates that do not settle the search a run ends with the first one that does, or runs out of steps. -/
theorem value_iterate (fuel : ℕ) (h : ∀ i < n, settled? s g (iterates s g i) = none) :
    (∃ j x status, j < n + fuel ∧ (∀ i < j, settled? s g (iterates s g i) = none) ∧
        settled? s g (iterates s g j) = some (x, status) ∧
        (iterate s fuel (endingAt s g n (iterates s g n) none)).value g = endingAt s g (j + 1) x (some status)) ∨
      ((∀ i < n + fuel, settled? s g (iterates s g i) = none) ∧
        (iterate s fuel (endingAt s g n (iterates s g n) none)).value g =
          endingAt s g (n + fuel) (iterates s g (n + fuel)) none) := by
  -- with one more iterate behind it the run has one step less to make
  induction fuel generalizing n with
  | zero => exact .inr ⟨h, rfl⟩
  | succ fuel ih =>
    have hstep : (endingAt s g n (iterates s g n) none).x = iterates s g n := rfl
    rw [value_iterate_succ, hstep]
    cases hsettled : settled? s g (iterates s g n) with
    | some result =>
      refine .inl ⟨n, result.1, result.2, by omega, h, hsettled, ?_⟩
      rw [endingAt_succ]
    | none =>
      have hnext : ∀ i < n + 1, settled? s g (iterates s g i) = none := by
        intro i hi
        rcases Nat.lt_succ_iff_lt_or_eq.mp hi with hlt | rfl
        · exact h i hlt
        · exact hsettled
      rw [show n + (fuel + 1) = n + 1 + fuel by omega]
      dsimp only
      rw [← endingAt_succ, ← iterates_succ]
      exact ih hnext

/-! ### Reports -/

/-- How a search ends, after `n` iterates, at `x` and with this status: with the first iterate that settles it, or with a scan
after as many iterates as may be made. -/
inductive IsEnd (s : Settings α) (g : α → α) : ℕ → α → Status → Prop where
  | settled {j : ℕ} {x : α} {status : Status} (steps : j < s.maxIterations)
      (before : ∀ i < j, settled? s g (iterates s g i) = none)
      (last : settled? s g (iterates s g j) = some (x, status)) : IsEnd s g (j + 1) x status
  | rescued (never : ∀ i < s.maxIterations, settled? s g (iterates s g i) = none) :
      IsEnd s g s.maxIterations ((rescue s).value g).1 (.rescued ((rescue s).value g).2)

/-- The report of a search that ended so. -/
def reportAt (s : Settings α) (g : α → α) (n : ℕ) (x : α) (status : Status) (evaluations : ℕ) : Report α :=
  { Report.new [x] (g x) s.epsilon status with
    iterations := n
    converged := !isRescued status
    nearBoundary := Scalar.abs (x - s.a) < s.epsilon || Scalar.abs (x - s.b) < s.epsilon
    isMinimum := some (isMinimum status)
    derivatives := some ((derivatives x).value g)
    history := if s.trackSteps then (List.range n).map (recordAt s g) else []
    values := (List.range n).map fun i => g (iterates s g i)
    evaluations }

/-- The path in a report is that of the ending of the run. -/
theorem reportAt_eq (y : α) (verdict : Option Status) : reportAt s g n x status 0 =
    { Report.new [x] (g x) s.epsilon status with
      iterations := (endingAt s g n y verdict).values.length
      converged := !isRescued status
      nearBoundary := Scalar.abs (x - s.a) < s.epsilon || Scalar.abs (x - s.b) < s.epsilon
      isMinimum := some (isMinimum status)
      derivatives := some ((derivatives x).value g)
      history := (endingAt s g n y verdict).records.reverse
      values := (endingAt s g n y verdict).values.reverse } := by
  unfold reportAt endingAt
  simp only [List.length_reverse, List.length_map, List.length_range, List.reverse_reverse]
  cases s.trackSteps
  · rfl
  · simp only [if_true, List.reverse_reverse]
    rfl

/-- A search has the report of its end. -/
theorem value_search : ∃ n x status, IsEnd s g n x status ∧ (search s).value g = .ok (reportAt s g n x status 0) := by
  have hstart : ({ x := clamp s.x0 s.a s.b, verdict := none, values := [], records := [] } : Ending α) =
      endingAt s g 0 (iterates s g 0) none := by
    unfold endingAt
    cases s.trackSteps <;> rfl
  have hrun := value_iterate (s := s) (g := g) (n := 0) s.maxIterations nofun
  rw [Nat.zero_add] at hrun
  unfold search
  rw [hstart, value_bind]
  rcases hrun with ⟨j, x, status, hj, hbefore, hlast, hvalue⟩ | ⟨hnever, hvalue⟩
  · have hrescued := (settled?_spec hlast).2.1
    refine ⟨j + 1, x, status, .settled hj hbefore hlast, ?_⟩
    rw [hvalue, reportAt_eq x (some status), hrescued]
    rfl
  · refine ⟨_, _, _, .rescued hnever, ?_⟩
    rw [hvalue, reportAt_eq (iterates s g s.maxIterations) none]
    dsimp only [endingAt]
    rw [value_bind]
    rfl

/-- **The end of a search.** A search with valid settings has the report of its end. -/
theorem findMinimum_isEnd (h : s.validate = .ok ()) :
    ∃ n x status, IsEnd s (Objective.line f).guarded n x status ∧
      findMinimum f s = .ok (reportAt s (Objective.line f).guarded n x status
        ((search s).requests (Objective.line f).guarded).length) := by
  obtain ⟨n, x, status, hend, hvalue⟩ := value_search (s := s) (g := (Objective.line f).guarded)
  refine ⟨n, x, status, hend, ?_⟩
  rw [findMinimum, h, checked_ok, ok_bind, Search.run, Search.value_counted, hvalue]
  rfl

end Numerics.Newton
