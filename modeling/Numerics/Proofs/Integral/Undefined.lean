import Numerics.Proofs.Integral.Samples
import Numerics.Proofs.Reported

/-!
# Integrals of functions that are not defined everywhere

Where a function has no value a composite sum adds the sentinel, times the weight of the node, and it is the total alone that
is looked at.  So it depends on the weights, and on the other values, whether an integral with undefined samples is undefined
(`integrate_eq`), and on the difference of two totals alone whether a run converges (`converged_adaptiveEstimate`).
-/

namespace Numerics.Integral

open Query Scalar

/-! ### Sums -/

section Sums

variable {K : Type} [ExactArithmetic K] {g : K → K}

/-- The weight of the nodes at which the function has no value. -/
def undefinedWeight (g : K → K) (l : List (K × K)) : K := ((l.filter fun s => !isDefined (g s.2)).map (·.1)).sum

/-- The weighted sum of the values that the function has. -/
def definedSum (g : K → K) (l : List (K × K)) : K := ((l.filter fun s => isDefined (g s.2)).map fun s => s.1 * g s.2).sum

theorem sum_eq_undefinedWeight (hg : ∀ x, IsAnswer (g x)) (l : List (K × K)) :
    (l.map fun s => s.1 * g s.2).sum = undefinedWeight g l * Scalar.undefined + definedSum g l := by
  induction l with
  | nil =>
    change 0 = 0 * _ + 0
    rw [zero_mul, zero_add]
  | cons s l ih =>
    rw [List.map_cons, List.sum_cons, ih]
    cases hs : isDefined (g s.2) with
    | true =>
      have hweight : undefinedWeight g (s :: l) = undefinedWeight g l := by simp [undefinedWeight, hs]
      have hsum : definedSum g (s :: l) = s.1 * g s.2 + definedSum g l := by simp [definedSum, hs]
      rw [hweight, hsum]
      ring
    | false =>
      have hweight : undefinedWeight g (s :: l) = s.1 + undefinedWeight g l := by simp [undefinedWeight, hs]
      have hsum : definedSum g (s :: l) = definedSum g l := by simp [definedSum, hs]
      have hvalue : g s.2 = Scalar.undefined := (hg s.2).resolve_left (Bool.eq_false_iff.mp hs)
      rw [hweight, hsum, hvalue]
      ring

/-- **Totals.** The integral is the total, or undefined if that is as large as the sentinel. -/
theorem integrate_eq {f : K → K} {a b v : K} {n : UInt64} {rule : Rule} (h : integrate f a b n rule = .ok v) :
    let g := (Objective.line f).guarded
    let l := samples rule a b (rule.fixedCount n).toNat
    v = sanitize (undefinedWeight g l * Scalar.undefined + definedSum g l) := by
  intro g l
  obtain rfl := Except.ok.inj (checked_bind_eq_ok_iff.mp h).2
  rw [← sum_eq_undefinedWeight (isAnswer_guarded _), ← value_weightedSum, compositeSum, value_bind]
  rfl

theorem sanitize_eq_undefined_iff {total : K} : sanitize total = Scalar.undefined ↔ Scalar.undefined ≤ |total| := by
  unfold sanitize
  split
  · next h =>
    have hlt : |total| < Scalar.undefined := Exact.isDefined_iff.mp h
    refine ⟨?_, fun hle => absurd hle (not_le.mpr hlt)⟩
    rintro rfl
    exact absurd (le_abs_self _) (not_le.mpr hlt)
  · next h => exact ⟨fun _ => not_lt.mp fun hlt => h (Exact.isDefined_iff.mpr hlt), fun _ => rfl⟩

end Sums

/-! ### Adaptive runs -/

section Runs

variable {α : Type} [Scalar α] {f : α → α} {a b epsilon : α} {rule : Rule} {s : Settings α}

theorem yields_accepts {n : UInt64} {value : α} {change : Option α} :
    (accepts rule epsilon n value change).Yields fun accepted => accepted = true → change.any (· ≤ epsilon) = true :=
  fun _ _ haccepted => (value_accepts.mp haccepted).1

/-- The newest value is an answer that differs from the one before by no more than the tolerance. -/
def IsSettled (epsilon : α) (history : List (UInt64 × α)) : Prop :=
  ∃ n value m before earlier, history = (n, value) :: (m, before) :: earlier ∧ IsAnswer value ∧
    Scalar.abs (value - before) ≤ epsilon

theorem yields_rounds_settled (fuel : ℕ) {n : UInt64} {history : List (UInt64 × α)} :
    (rounds rule epsilon fuel n history).Yields fun result => result.2 = true → IsSettled epsilon result.1 := by
  induction fuel generalizing n history with
  | zero => exact .done fun h => absurd h Bool.false_ne_true
  | succ fuel ih =>
    rw [rounds]
    refine Yields.checkpoint ((yields_request n).bind fun value hvalue => yields_accepts.bind fun accepted haccepted => ?_)
    split
    · next h =>
      refine .done fun _ => ?_
      have hchange := haccepted h
      cases history with
      | nil => cases hchange
      | cons entry earlier => exact ⟨n, value, entry.1, entry.2, earlier, rfl, hvalue, of_decide_eq_true hchange⟩
    split
    · exact .done fun h => absurd h Bool.false_ne_true
    · exact ih

theorem yields_schedule_settled :
    (schedule s rule).Yields fun result => result.2 = true → IsSettled s.epsilon result.1 := yields_rounds_settled _

/-- **Converged runs.** The value that is accepted is an answer that differs from the one before by no more than the
tolerance. -/
theorem converged_adaptiveEstimate (h : ((adaptiveEstimate a b s rule).value (Objective.line f).guarded).converged = true) :
    let e := (adaptiveEstimate a b s rule).value (Objective.line f).guarded
    IsAnswer e.value ∧ ∃ m before earlier, e.history = earlier ++ [(m, before), (e.n, e.value)] ∧
      Scalar.abs (e.value - before) ≤ s.epsilon := by
  rw [value_adaptiveEstimate] at h ⊢
  have hanswers : ∀ n, IsAnswer (sumAt f a b rule n) := fun n => yields_compositeSum _ (isAnswer_guarded _)
  obtain ⟨n, value, m, before, earlier, hhistory, hvalue, hclose⟩ := yields_schedule_settled _ hanswers h
  dsimp only
  rw [hhistory]
  exact ⟨hvalue, m, before, earlier.reverse, by simp, hclose⟩

end Runs

/-- **Undefined samples.** In exact arithmetic an integral is undefined if and only if its total is as large as the sentinel,
each node without a value counting as the sentinel times its weight; else it is that total, whether or not some nodes have no
value.  And an adaptive run that converges has a defined value, or ends with the sentinel after a total that differs from it by
no more than the tolerance. -/
theorem integrals_of_undefined_samples (K α : Type) [ExactArithmetic K] [Scalar α] :
    (∀ (f : K → K) (a b v : K) (n : UInt64) (rule : Rule), integrate f a b n rule = .ok v →
      let g := (Objective.line f).guarded
      let l := samples rule a b (rule.fixedCount n).toNat
      let total := undefinedWeight g l * Scalar.undefined + definedSum g l
      (compositeSum rule a b (rule.fixedCount n)).requests g = l.map (·.2) ∧
        (v = Scalar.undefined ↔ Scalar.undefined ≤ |total|) ∧ (|total| < Scalar.undefined → v = total)) ∧
    (∀ (f : α → α) (a b : α) (s : Settings α) (rules : List Rule) (stop : StopSignal)
      (es : List (Estimate α)), integrateAdaptive f a b s rules stop = .ok es → ∀ e ∈ es, e.converged = true →
      isDefined e.value = true ∨ e.value = Scalar.undefined ∧ ∃ (m : UInt64) (before : α) (earlier : List (UInt64 × α)),
        e.history = earlier ++ [(m, before), (e.n, Scalar.undefined)] ∧
          Scalar.abs (Scalar.undefined - before) ≤ s.epsilon) := by
  constructor
  · intro f a b v n rule h g l total
    have hv : v = sanitize total := integrate_eq h
    refine ⟨requests_compositeSum, hv ▸ sanitize_eq_undefined_iff, fun hlt => hv.trans ?_⟩
    exact if_pos (Exact.isDefined_iff.mpr hlt)
  · intro f a b s rules stop es h e he hconverged
    obtain ⟨rule, -, rfl⟩ := List.mem_map.mp (eq_of_integrateAdaptive h ▸ he)
    obtain ⟨hanswer, hsettled⟩ := converged_adaptiveEstimate hconverged
    refine hanswer.imp_right fun hundefined => ⟨hundefined, ?_⟩
    rwa [hundefined] at hsettled

/-- A tenth of the sentinel for one node out of ten without a value, and a run that converges without any value. -/
theorem integrals_of_undefined_samples_pole :
    let f : ℚ → ℚ := fun x => if x = 0 then 10 ^ 306 else x
    let g := (Objective.line f).guarded
    let l := samples .leftRectangles 0 1 (Rule.fixedCount .leftRectangles 10).toNat
    let total := undefinedWeight g l * Scalar.undefined + definedSum g l
    let s : Settings ℚ := { epsilon := 1 / 100, initialCount := 1 }
    (∃ v, integrate f 0 1 10 .leftRectangles = .ok v ∧ v = total ∧ isDefined v = true ∧
      (compositeSum .leftRectangles 0 1 (Rule.fixedCount .leftRectangles 10)).requests g = l.map (·.2) ∧
        (v = Scalar.undefined ↔ Scalar.undefined ≤ |total|)) ∧
    ∃ es, integrateAdaptive (fun _ : ℚ => 10 ^ 306) 0 1 s Rule.all .never = .ok es ∧ ∀ e ∈ es, e.converged = true ∧
      (isDefined e.value = true ∨ e.value = Scalar.undefined ∧ ∃ (m : UInt64) (before : ℚ) (earlier : List (UInt64 × ℚ)),
        e.history = earlier ++ [(m, before), (e.n, Scalar.undefined)] ∧
          Scalar.abs (Scalar.undefined - before) ≤ s.epsilon) := by
  intro f g l total s
  have hintegral : (integrate f 0 1 10 .leftRectangles).toOption.any (fun v => isDefined v) = true := by decide +kernel
  have hadaptive : (integrateAdaptive (fun _ : ℚ => 10 ^ 306) 0 1 s Rule.all .never).toOption.any
      (fun es => es.all (·.converged)) = true := by decide +kernel
  obtain ⟨v, hv, hdefined⟩ := exists_of_toOption_any hintegral
  obtain ⟨es, hes, hconverged⟩ := exists_of_toOption_any hadaptive
  obtain ⟨hsum, hrun⟩ := integrals_of_undefined_samples ℚ ℚ
  obtain ⟨hrequests, hiff, htotal⟩ := hsum f 0 1 v 10 .leftRectangles hv
  have hne : v ≠ Scalar.undefined := by
    rintro rfl
    exact absurd hdefined (Bool.eq_false_iff.mp Exact.isDefined_undefined)
  refine ⟨⟨v, hv, htotal (not_le.mp fun hle => hne (hiff.mpr hle)), hdefined, hrequests, hiff⟩, es, hes, fun e he => ?_⟩
  have he' := List.all_eq_true.mp hconverged e he
  exact ⟨he', hrun _ 0 1 s Rule.all .never es hes e he he'⟩

/-- The integral of `1/x` over `[0, 1]` by ten left rectangles is defined, though the pole is a node; and the integral of a
function without any value converges, to no value. -/
theorem integrate_hides_undefined :
    (¬ ∀ (f : Float → Float) (a b v : Float) (n : UInt64) (rule : Rule), integrate f a b n rule = .ok v →
      (∃ x ∈ (compositeSum rule a b (rule.fixedCount n)).requests (Objective.line f).guarded,
        isDefined ((Objective.line f).guarded x) = false) → v = Scalar.undefined) ∧
    ¬ ∀ (f : Float → Float) (a b : Float) (s : Settings Float) (rules : List Rule) (es : List (Estimate Float)),
      integrateAdaptive f a b s rules .never = .ok es → ∀ e ∈ es, e.converged = true → isDefined e.value = true := by
  constructor
  · intro hclaim
    have hintegral : (integrate (fun x : Float => 1 / x) 0 1 10 .leftRectangles).toOption.any
        (fun v => isDefined v) = true := by decide +kernel
    have hsample : ((compositeSum .leftRectangles 0 1 (Rule.fixedCount .leftRectangles 10)).requests
        (Objective.line fun x : Float => 1 / x).guarded).any
          (fun x => !isDefined ((Objective.line fun x : Float => 1 / x).guarded x)) = true := by decide +kernel
    obtain ⟨v, hv, hdefined⟩ := exists_of_toOption_any hintegral
    obtain ⟨x, hx, hundefined⟩ := List.any_eq_true.mp hsample
    have hclaimed := hclaim _ _ _ v _ _ hv ⟨x, hx, by simpa using hundefined⟩
    have hsentinel : isDefined (Scalar.undefined : Float) = false := by decide +kernel
    rw [hclaimed, hsentinel] at hdefined
    cases hdefined
  · intro hclaim
    have hrun : (integrateAdaptive (fun _ : Float => Scalar.undefined) 0 1 .default [.leftRectangles] .never).toOption.any
        (fun es => es.any fun e => e.converged && !isDefined e.value) = true := by decide +kernel
    obtain ⟨es, hes, htest⟩ := exists_of_toOption_any hrun
    obtain ⟨e, he, hconverged⟩ := List.any_eq_true.mp htest
    rw [Bool.and_eq_true, Bool.not_eq_true'] at hconverged
    have hclaimed := hclaim _ _ _ _ _ es hes e he hconverged.1
    rw [hconverged.2] at hclaimed
    cases hclaimed

end Numerics.Integral
