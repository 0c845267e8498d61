import Mathlib.Order.Interval.Set.Basic
import Numerics.Proofs.Exact
import Numerics.Extremum.AxisSearch
import Numerics.Proofs.Outcome

/-!
# One search along an axis

What one iteration of a search along the axes can do in exact arithmetic.  From a point of the box it asks for values in the
box only (`requests_step`), and it leaves the point or moves it along the axis, by no more than the longest move and to a
strictly better value (`value_step`).  The halving of a stretch ends with one no longer than the tolerance
(`width_refineWithin`), and would do no more with more halvings (`refineWithin_eq_of_le`).
-/

namespace Numerics.AxisSearch

open Query Scalar

variable {K : Type} [ExactArithmetic K]

/-! ### Settings -/

/-- Settings that can be met. -/
structure Settings.IsValid (settings : Settings K) : Prop where
  x : settings.xRange.1 < settings.xRange.2
  y : settings.yRange.1 < settings.yRange.2
  epsilon : 0 < settings.epsilon
  lambda : 0 < settings.lambda
  iterations : 1 ≤ settings.maxIterations ∧ settings.maxIterations ≤ 10000

/-- The box of the settings. -/
def Settings.box (settings : Settings K) : Set (K × K) :=
  {p | p.1 ∈ Set.Icc settings.xRange.1 settings.xRange.2 ∧ p.2 ∈ Set.Icc settings.yRange.1 settings.yRange.2}

section Settings

variable {settings : Settings K} {axis : Axis} {p : K × K} {t : K}

theorem Settings.validate_eq_ok_iff : settings.validate = .ok () ↔ settings.IsValid := by
  unfold validate
  rw [check_bind_eq_ok_iff, check_bind_eq_ok_iff, check_bind_eq_ok_iff, check_bind_eq_ok_iff, check_bind_eq_ok_iff,
    Exact.checkInterval_eq_ok_iff, Exact.checkInterval_eq_ok_iff, Exact.checkEpsilon_eq_ok_iff,
    Exact.checkLambda_eq_ok_iff, Exact.checkMaxIterations_eq_ok_iff]
  constructor
  · rintro ⟨hx, hy, hepsilon, hlambda, hiterations, -⟩
    exact ⟨hx, hy, hepsilon, hlambda, hiterations⟩
  · rintro ⟨hx, hy, hepsilon, hlambda, hiterations⟩
    refine ⟨hx, hy, hepsilon, hlambda, hiterations, ?_⟩
    cases settings.start <;> rfl

theorem Settings.IsValid.startPoint_mem (h : settings.IsValid) : settings.startPoint ∈ settings.box :=
  ⟨Exact.clamp_mem h.x.le, Exact.clamp_mem h.y.le⟩

theorem coordinate_mem (axis : Axis) (hp : p ∈ settings.box) :
    axis.coordinate p ∈ Set.Icc (axis.range settings).1 (axis.range settings).2 := by
  cases axis with
  | x => exact hp.1
  | y => exact hp.2

theorem move_mem (hp : p ∈ settings.box) (ht : t ∈ Set.Icc (axis.range settings).1 (axis.range settings).2) :
    axis.move p t ∈ settings.box := by
  cases axis with
  | x => exact ⟨ht, hp.2⟩
  | y => exact ⟨hp.1, ht⟩

end Settings

/-! ### Halving a stretch -/

section Refine

variable {goal : Goal} {epsilon left right : K} {along : K → K × K} {g : K × K → K} {fuel fuel' : ℕ}

/-- The middle of a stretch longer than the tolerance, and the place a tenth of the tolerance beyond it. -/
theorem middle_mem (he : 0 < epsilon) (h : epsilon < right - left) :
    (left + right) / 2 ∈ Set.Icc left right ∧ (left + right) / 2 + epsilon / 10 ∈ Set.Icc left right := by
  constructor <;> constructor <;> linarith

theorem refineWithin_succ : refineWithin goal epsilon along (fuel + 1) left right =
    if epsilon < right - left then
      ask (along ((left + right) / 2 + epsilon / 10)) fun ahead => ask (along ((left + right) / 2)) fun here =>
        if goal.improves ahead here then refineWithin goal epsilon along fuel ((left + right) / 2) right
        else refineWithin goal epsilon along fuel left ((left + right) / 2)
    else done (left, right) := by
  rw [refineWithin]

/-- Halving asks for values on the stretch only. -/
theorem requests_refineWithin (he : 0 < epsilon) {q : K × K}
    (hq : q ∈ (refineWithin goal epsilon along fuel left right).requests g) : ∃ t ∈ Set.Icc left right, q = along t := by
  induction fuel generalizing left right with
  | zero => cases hq
  | succ fuel ih =>
    rw [refineWithin_succ] at hq
    split at hq
    · next hlong =>
      obtain ⟨hmid, hahead⟩ := middle_mem he hlong
      simp only [requests, List.mem_cons] at hq
      rcases hq with rfl | rfl | hq
      · exact ⟨_, hahead, rfl⟩
      · exact ⟨_, hmid, rfl⟩
      · split at hq
        · obtain ⟨t, ht, rfl⟩ := ih hq
          exact ⟨t, ⟨hmid.1.trans ht.1, ht.2⟩, rfl⟩
        · obtain ⟨t, ht, rfl⟩ := ih hq
          exact ⟨t, ⟨ht.1, ht.2.trans hmid.2⟩, rfl⟩
    · cases hq

/-- Halving keeps a part of the stretch. -/
theorem value_refineWithin (h : left ≤ right) :
    left ≤ ((refineWithin goal epsilon along fuel left right).value g).1 ∧
      ((refineWithin goal epsilon along fuel left right).value g).1 ≤
        ((refineWithin goal epsilon along fuel left right).value g).2 ∧
      ((refineWithin goal epsilon along fuel left right).value g).2 ≤ right := by
  induction fuel generalizing left right with
  | zero => exact ⟨le_rfl, h, le_rfl⟩
  | succ fuel ih =>
    have hleft : left ≤ (left + right) / 2 := by linarith
    have hright : (left + right) / 2 ≤ right := by linarith
    rw [refineWithin_succ]
    split
    · simp only [Query.value]
      split
      · obtain ⟨h₁, h₂, h₃⟩ := ih hright
        exact ⟨hleft.trans h₁, h₂, h₃⟩
      · obtain ⟨h₁, h₂, h₃⟩ := ih hleft
        exact ⟨h₁, h₂, h₃.trans hright⟩
    · exact ⟨le_rfl, h, le_rfl⟩

/-- The half of a stretch is as long as one halving less allows. -/
theorem half_le (h : right - left ≤ epsilon * 2 ^ (fuel + 1)) :
    right - (left + right) / 2 ≤ epsilon * 2 ^ fuel ∧ (left + right) / 2 - left ≤ epsilon * 2 ^ fuel := by
  rw [pow_succ] at h
  constructor <;> linarith

/-- With enough halvings the stretch that is kept is no longer than the tolerance. -/
theorem width_refineWithin (h : right - left ≤ epsilon * 2 ^ fuel) :
    ((refineWithin goal epsilon along fuel left right).value g).2 -
      ((refineWithin goal epsilon along fuel left right).value g).1 ≤ epsilon := by
  induction fuel generalizing left right with
  | zero => rwa [pow_zero, mul_one] at h
  | succ fuel ih =>
    rw [refineWithin_succ]
    split
    · simp only [Query.value]
      split
      · exact ih (half_le h).1
      · exact ih (half_le h).2
    · next hshort => exact not_lt.mp hshort

/-- With enough halvings the loop ends by itself: more of them change nothing. -/
theorem refineWithin_eq_of_le (h : right - left ≤ epsilon * 2 ^ fuel) (hle : fuel ≤ fuel') :
    refineWithin goal epsilon along fuel' left right = refineWithin goal epsilon along fuel left right := by
  induction fuel generalizing fuel' left right with
  | zero =>
    have hshort : ¬ epsilon < right - left := not_lt.mpr (by rwa [pow_zero, mul_one] at h)
    cases fuel' with
    | zero => rfl
    | succ fuel' => rw [refineWithin_succ, if_neg hshort, refineWithin]
  | succ fuel ih =>
    obtain ⟨fuel', rfl⟩ : ∃ k, fuel' = k + 1 := ⟨fuel' - 1, by omega⟩
    have hle' : fuel ≤ fuel' := Nat.le_of_succ_le_succ hle
    rw [refineWithin_succ, refineWithin_succ, ih (half_le h).1 hle', ih (half_le h).2 hle']

theorem value_refine (h : left ≤ right) : (refine goal epsilon along left right).value g ∈ Set.Icc left right := by
  obtain ⟨h₁, h₂, h₃⟩ := @value_refineWithin K _ goal epsilon left right along g (halvings (right - left) epsilon) h
  rw [refine, value_bind]
  change (_ + _) / 2 ∈ Set.Icc left right
  constructor <;> linarith

theorem requests_refine (he : 0 < epsilon) {q : K × K} (hq : q ∈ (refine goal epsilon along left right).requests g) :
    ∃ t ∈ Set.Icc left right, q = along t := by
  simp only [refine, requests_bind, pure_def, requests, List.append_nil] at hq
  exact requests_refineWithin he hq

end Refine

/-! ### The stretch to search -/

section Stretch

variable {settings : Settings K} {axis : Axis} {position : K}

/-- The stretch lies in the range of the axis and reaches no further than the longest move. -/
theorem stretch_spec (back forward : K) (hs : settings.IsValid)
    (hposition : position ∈ Set.Icc (axis.range settings).1 (axis.range settings).2) :
    (stretch settings axis position back forward).1 ≤ (stretch settings axis position back forward).2 ∧
      ∀ t ∈ Set.Icc (stretch settings axis position back forward).1 (stretch settings axis position back forward).2,
        t ∈ Set.Icc (axis.range settings).1 (axis.range settings).2 ∧ |t - position| ≤ settings.lambda := by
  obtain ⟨hlower, hupper⟩ := hposition
  have hlambda := hs.lambda
  unfold stretch
  simp only [Exact.least_eq, Exact.greatest_eq]
  split
  · refine ⟨le_min (by linarith) hupper, fun t ht => ?_⟩
    obtain ⟨htl, htu⟩ := le_min_iff.mp ht.2
    exact ⟨⟨hlower.trans ht.1, htu⟩, abs_le.mpr ⟨by linarith [ht.1], by linarith⟩⟩
  · refine ⟨max_le (by linarith) hlower, fun t ht => ?_⟩
    obtain ⟨htl, htu⟩ := max_le_iff.mp ht.1
    exact ⟨⟨htu, ht.2.trans hupper⟩, abs_le.mpr ⟨by linarith, by linarith [ht.2]⟩⟩

end Stretch

/-! ### One iteration -/

section Step

variable {settings : Settings K} {axis : Axis} {g : K × K → K} {p q : K × K} {value : K}

/-- The point `q` after an iteration along the axis from `p`: the same point, or one of the box that differs on the axis, by
no more than the longest move, and has a strictly better value. -/
def IsMove (settings : Settings K) (g : K × K → K) (axis : Axis) (p q : K × K) : Prop :=
  q = p ∨ ∃ t, q = axis.move p t ∧ q ∈ settings.box ∧ |t - axis.coordinate p| ≤ settings.lambda ∧
    settings.goal.improves (g q) (g p) = true

/-- The places at which an iteration looks on which side of a point the function improves. -/
theorem probes_mem (axis : Axis) (hs : settings.IsValid) (hp : p ∈ settings.box) :
    axis.move p (greatest (axis.coordinate p - settings.epsilon) (axis.range settings).1) ∈ settings.box ∧
      axis.move p (least (axis.coordinate p + settings.epsilon) (axis.range settings).2) ∈ settings.box := by
  obtain ⟨hlower, hupper⟩ := coordinate_mem axis hp
  have he := hs.epsilon
  rw [Exact.greatest_eq, Exact.least_eq]
  constructor
  · exact move_mem hp ⟨le_max_right _ _, max_le (by linarith) (hlower.trans hupper)⟩
  · exact move_mem hp ⟨le_min (by linarith) (hlower.trans hupper), min_le_right _ _⟩

/-- A search along an axis finds nothing, or a point to move to with its value. -/
theorem value_axisStep (g : K × K → K) (axis : Axis) (hs : settings.IsValid) (hp : p ∈ settings.box) :
    (axisStep settings axis p (g p)).value g = none ∨
      ∃ t, (axisStep settings axis p (g p)).value g = some (t, g (axis.move p t)) ∧
        IsMove settings g axis p (axis.move p t) := by
  unfold axisStep
  simp only [request, ask_bind, done_bind, Query.value]
  generalize g (axis.move p (greatest (axis.coordinate p - settings.epsilon) (axis.range settings).1)) = back
  generalize g (axis.move p (least (axis.coordinate p + settings.epsilon) (axis.range settings).2)) = forward
  obtain ⟨hle, hstretch⟩ := stretch_spec back forward hs (coordinate_mem axis hp)
  split
  · exact .inl rfl
  · simp only [value_bind, Query.value, pure_def]
    have ht := @value_refine K _ settings.goal settings.epsilon _ _ (axis.move p) g hle
    generalize (refine _ _ _ _ _).value g = t at ht ⊢
    obtain ⟨hrange, hlambda⟩ := hstretch t ht
    cases hbetter : settings.goal.improves (g (axis.move p t)) (g p) with
    | false => exact .inl rfl
    | true => exact .inr ⟨t, rfl, .inr ⟨t, rfl, move_mem hp hrange, hlambda, hbetter⟩⟩

/-- A search along an axis asks for values in the box only. -/
theorem requests_axisStep (hs : settings.IsValid) (hp : p ∈ settings.box)
    (hq : q ∈ (axisStep settings axis p value).requests g) : q ∈ settings.box := by
  obtain ⟨hback, hforward⟩ := probes_mem axis hs hp
  unfold axisStep at hq
  simp only [request, ask_bind, done_bind, requests, List.mem_cons] at hq
  rcases hq with rfl | rfl | hq
  · exact hback
  · exact hforward
  · generalize g (axis.move p (greatest (axis.coordinate p - settings.epsilon) (axis.range settings).1)) = back at hq
    generalize g (axis.move p (least (axis.coordinate p + settings.epsilon) (axis.range settings).2)) = forward at hq
    obtain ⟨hle, hstretch⟩ := stretch_spec back forward hs (coordinate_mem axis hp)
    split at hq
    · cases hq
    · simp only [requests_bind, requests, pure_def, List.mem_append, List.mem_singleton] at hq
      rcases hq with hq | rfl
      · obtain ⟨t, ht, rfl⟩ := requests_refine hs.epsilon hq
        exact move_mem hp (hstretch t ht).1
      · exact move_mem hp (hstretch _ (value_refine hle)).1

variable {s : State K}

/-- **One iteration.** It leaves the point or moves it. -/
theorem value_step (hs : settings.IsValid) (hp : s.point ∈ settings.box) (hvalue : s.value = g s.point) :
    ∃ q, IsMove settings g (Axis.ofIteration (s.iterations + 1)) s.point q ∧
      (step settings s).value g = s.advance settings.goal (Axis.ofIteration (s.iterations + 1)) q (g q) := by
  unfold step
  rw [hvalue, value_bind]
  rcases value_axisStep g (Axis.ofIteration (s.iterations + 1)) hs hp with hnone | ⟨t, hsome, hmove⟩
  · exact ⟨s.point, .inl rfl, by rw [hnone]; rfl⟩
  · exact ⟨_, hmove, by rw [hsome]; rfl⟩

theorem requests_step (hs : settings.IsValid) (hp : s.point ∈ settings.box) (hq : q ∈ (step settings s).requests g) :
    q ∈ settings.box := by
  unfold step at hq
  rw [requests_bind, List.mem_append] at hq
  rcases hq with hq | hq
  · exact requests_axisStep hs hp hq
  · split at hq <;> cases hq

end Step

end Numerics.AxisSearch
