import Numerics.Proofs.Extremum.Rescue
import Numerics.Proofs.Extremum.NewtonPath

/-!
# The verdict of a Newton search

Whether a Newton search claims a minimum depends on the tests at the point that it reports, with the slope and curvature that
it reports, however the search ended; but after a scan it forgets the tests for the ends (`findMinimum_verdict`).  The tests do
not ask whether the function has a value at the point: where it has none the curvature is taken to be 1, and the search may
claim a minimum there (`findMinimum_without_value`).
-/

namespace Numerics.Newton

open Query Scalar

variable {α : Type} [Scalar α] {s : Settings α} {f g : α → α} {x : α} {status : Status} {n : ℕ}

/-- The slope vanishes and the curvature is positive. -/
def IsFlatValley (s : Settings α) (d : Derivatives α) : Prop := Scalar.abs d.first < s.epsilon ∧ 0 < d.second

instance {d : Derivatives α} : Decidable (IsFlatValley s d) := inferInstanceAs (Decidable (_ ∧ _))

theorem IsFlatValley.passesTest {d : Derivatives α} (h : IsFlatValley s d) : PassesTest s x d := .inr (.inr h)

/-- **Verdicts.** The status of an end is that of a minimum if and only if the point passes the tests that count: after a scan
only the one of slope and curvature does. -/
theorem IsEnd.isMinimum_iff (h : IsEnd s g n x status) :
    isMinimum status = true ↔ PassesTest s x ((derivatives x).value g) ∧
      (isRescued status = true → IsFlatValley s ((derivatives x).value g)) := by
  cases h with
  | settled steps before last =>
    obtain ⟨-, hrescued, hminimum⟩ := settled?_spec last
    rw [hminimum, hrescued]
    exact ⟨fun hpasses => ⟨hpasses, nofun⟩, fun hpasses => hpasses.1⟩
  | rescued never =>
    rw [value_rescue]
    change decide (IsFlatValley s _) = true ↔ _
    rw [decide_eq_true_iff]
    exact ⟨fun hvalley => ⟨hvalley.passesTest, fun _ => hvalley⟩, fun hpasses => hpasses.2 rfl⟩

/-- **The verdict of a search.** It claims a minimum if and only if the reported point passes a test with the reported slope and
curvature, and after a scan that of slope and curvature. -/
theorem findMinimum_verdict (f : α → α) {s : Settings α} (h : s.validate = .ok ()) :
    ∃ r x d, findMinimum f s = .ok r ∧ r.point = [x] ∧ r.derivatives = some d ∧
      (r.isMinimum = some true ↔ PassesTest s x d ∧ (isRescued r.status = true → IsFlatValley s d)) ∧
      (r.converged = false ↔ isRescued r.status = true) := by
  obtain ⟨n, x, status, hend, hr⟩ := findMinimum_isEnd (f := f) h
  refine ⟨_, x, _, hr, rfl, rfl, ?_, ?_⟩
  · exact Option.some_inj.trans hend.isMinimum_iff
  · change (!isRescued status) = false ↔ isRescued status = true
    rw [Bool.not_eq_false']

/-- A search from the middle of `[0, 10]` that may make one step only. -/
def oneStep : Settings α := { Settings.default with x0 := 5, a := 0, maxIterations := 1 }

/-- The search on a line that rises, of which the scan finds the left end. -/
theorem findMinimum_verdict_line : (oneStep : Settings Float).validate = .ok () ∧
    ∃ r x d, findMinimum (fun x : Float => x) oneStep = .ok r ∧ r.point = [x] ∧ r.derivatives = some d ∧
      (r.isMinimum = some true ↔ PassesTest oneStep x d ∧ (isRescued r.status = true → IsFlatValley oneStep d)) ∧
      (r.converged = false ↔ isRescued r.status = true) := by
  have h : (oneStep : Settings Float).validate = .ok () := by decide +kernel
  exact ⟨h, findMinimum_verdict _ h⟩

/-- The report claims no minimum, although its point passes a test with its slope and curvature. -/
def missesMinimum (s : Settings α) (r : Report α) : Bool :=
  match r.point, r.derivatives with
  | [x], some d => decide (PassesTest s x d) && r.isMinimum == some false
  | _, _ => false

/-- The left end is the lowest point of a line that rises, and the scan that finds it claims no minimum. -/
theorem findMinimum_misses_end : ¬ ∀ (f : Float → Float) (s : Settings Float) (r : Report Float) (x : Float)
    (d : Derivatives Float), findMinimum f s = .ok r → r.point = [x] → r.derivatives = some d →
      (r.isMinimum = some true ↔ PassesTest s x d) := by
  intro hclaim
  have hrun : (findMinimum (fun x : Float => x) oneStep).toOption.any (missesMinimum oneStep) = true := by decide +kernel
  obtain ⟨r, hr, hmisses⟩ := exists_of_toOption_any hrun
  unfold missesMinimum at hmisses
  split at hmisses
  · next x d hpoint hderivatives =>
    obtain ⟨hpasses, hminimum⟩ := Bool.and_eq_true_iff.mp hmisses
    rw [(hclaim _ _ r x d hr hpoint hderivatives).mpr (of_decide_eq_true hpasses)] at hminimum
    cases hminimum
  · cases hmisses

/-! ### Points without a value -/

/-- Where the function has no value the curvature is taken to be 1. -/
theorem curvature_of_undefined (h : isDefined (g x) = false) : ((derivatives x).value g).second = 1 := by
  change (if isDefined (g x) && _ && _ then _ else 1) = _
  rw [h]
  rfl

/-- **Claims without a value.** A point without a value is claimed for a minimum if it passes the tests that count with 1 for
its curvature.  And in exact arithmetic a scan finds a point with a value, unless the function has none at any of its nodes. -/
theorem findMinimum_without_value (K α : Type) [ExactArithmetic K] [Scalar α] :
    (∀ (f : α → α) (s : Settings α), s.validate = .ok () → ∃ r x d, findMinimum f s = .ok r ∧ r.point = [x] ∧
      r.value = (Objective.line f).guarded x ∧ r.derivatives = some d ∧ (isDefined r.value = false → d.second = 1 ∧
        (r.isMinimum = some true ↔ PassesTest s x d ∧ (isRescued r.status = true → IsFlatValley s d)))) ∧
    (∀ (f : K → K) (s : Settings K) (r : Report K), findMinimum f s = .ok r → isRescued r.status = true →
      isDefined r.value = false → r.point = [s.a] ∧ ∀ x ∈ nodes s, isDefined ((Objective.line f).guarded x) = false) := by
  constructor
  · intro f s h
    obtain ⟨n, x, status, hend, hr⟩ := findMinimum_isEnd (f := f) h
    refine ⟨_, x, _, hr, rfl, rfl, rfl, fun hundefined => ⟨curvature_of_undefined hundefined, ?_⟩⟩
    exact Option.some_inj.trans hend.isMinimum_iff
  · intro f s r hr hrescued hundefined
    obtain ⟨n, x, status, hend, hr'⟩ := findMinimum_isEnd (f := f) (checked_bind_eq_ok_iff.mp hr).1
    obtain rfl := Except.ok.inj (hr'.symm.trans hr)
    change isRescued status = true at hrescued
    change isDefined ((Objective.line f).guarded x) = false at hundefined
    change [x] = [s.a] ∧ _
    cases hend with
    | settled steps before last =>
      rw [(settled?_spec last).2.1] at hrescued
      cases hrescued
    | rescued never =>
      rw [value_rescue] at hundefined ⊢
      obtain ⟨hpoint, hnone⟩ := undefined_rescuePoint (isAnswer_guarded _) hundefined
      exact ⟨congrArg (fun x => [x]) hpoint, hnone⟩

/-- A search around 0 that starts there. -/
def aroundZero : Settings Float := { Settings.default with a := -1, b := 1 }

/-- The pole of `1/x²`, and a scan of a function without any value. -/
theorem findMinimum_without_value_pole :
    (aroundZero.validate = .ok () ∧ ∃ r x d, findMinimum (fun x => 1 / (x * x)) aroundZero = .ok r ∧ r.point = [x] ∧
      r.value = (Objective.line fun x : Float => 1 / (x * x)).guarded x ∧ r.derivatives = some d ∧
      (isDefined r.value = false → d.second = 1 ∧ (r.isMinimum = some true ↔
        PassesTest aroundZero x d ∧ (isRescued r.status = true → IsFlatValley aroundZero d)))) ∧
    ∃ r, findMinimum (fun _ : ℚ => 10 ^ 306) oneStep = .ok r ∧ isRescued r.status = true ∧ isDefined r.value = false ∧
      r.point = [(oneStep : Settings ℚ).a] ∧
      ∀ x ∈ nodes oneStep, isDefined ((Objective.line fun _ : ℚ => 10 ^ 306).guarded x) = false := by
  have h : aroundZero.validate = .ok () := by decide +kernel
  have hrun : (findMinimum (fun _ : ℚ => 10 ^ 306) oneStep).toOption.any
      (fun r => isRescued r.status && !isDefined r.value) = true := by decide +kernel
  obtain ⟨hclaims, hscans⟩ := findMinimum_without_value ℚ Float
  obtain ⟨r, hr, hend⟩ := exists_of_toOption_any hrun
  obtain ⟨hrescued, hundefined⟩ := Bool.and_eq_true_iff.mp hend
  rw [Bool.not_eq_true'] at hundefined
  exact ⟨⟨h, hclaims _ _ h⟩, r, hr, hrescued, hundefined, hscans _ _ r hr hrescued hundefined⟩

/-- At the pole of `1/x²` the samples to both sides are equal and the curvature is taken to be 1, so that the search claims a
minimum. -/
theorem findMinimum_claims_pole : ¬ ∀ (f : Float → Float) (s : Settings Float) (r : Report Float),
    s.validate = .ok () → findMinimum f s = .ok r → r.isMinimum = some true → isDefined r.value = true := by
  intro hclaim
  have hrun : (findMinimum (fun x : Float => 1 / (x * x)) aroundZero).toOption.any
      (fun r => r.isMinimum == some true && !isDefined r.value) = true := by decide +kernel
  obtain ⟨r, hr, hclaims⟩ := exists_of_toOption_any hrun
  obtain ⟨hminimum, hundefined⟩ := Bool.and_eq_true_iff.mp hclaims
  rw [hclaim _ _ r (by decide +kernel) hr (beq_iff_eq.mp hminimum)] at hundefined
  cases hundefined

end Numerics.Newton
