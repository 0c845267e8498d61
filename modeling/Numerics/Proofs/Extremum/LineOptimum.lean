import Mathlib.Tactic.Linarith
import Mathlib.Tactic.Positivity
import Numerics.Proofs.Extremum.AxisStep
import Numerics.Proofs.Extremum.Sections

/-!
# The optimum on a line

A search along an axis halves a stretch by the slope at its middle: it looks a tenth of the tolerance ahead.  Where the function
has one optimum only, a halving never drops it by more than that tenth (`IsAround.halve`), and only at the upper end of what is
left.  So the middle of the first stretch that is no longer than the tolerance is near the optimum (`refine_near_optimum`).
-/

namespace Numerics.AxisSearch

open Query Scalar
open GoldenSection (IsUnimodal improves_asymm)

variable {K : Type} [ExactArithmetic K] {goal : Goal} {a b m epsilon : K} {v : K → K} {along : K → K × K} {g : K × K → K}
  {s : K × K}

/-! ### Halvings -/

/-- The half of a stretch that is kept: the upper one if the function gets better ahead of the middle. -/
def halve (goal : Goal) (epsilon : K) (v : K → K) (s : K × K) : K × K :=
  let mid := (s.1 + s.2) / 2
  if goal.improves (v (mid + epsilon / 10)) (v mid) then (mid, s.2) else (s.1, mid)

/-- What is left of `[a, b]` after `k` halvings. -/
def stretchAfter (goal : Goal) (epsilon : K) (v : K → K) (a b : K) (k : ℕ) : K × K := (halve goal epsilon v)^[k] (a, b)

/-- The stretch after `n` halvings of `[a, b]` is the first one that is no longer than the tolerance. -/
def EndsAfter (goal : Goal) (epsilon : K) (v : K → K) (a b : K) (n : ℕ) : Prop :=
  IsLeast {k | (stretchAfter goal epsilon v a b k).2 - (stretchAfter goal epsilon v a b k).1 ≤ epsilon} n

theorem stretchAfter_succ (k : ℕ) :
    stretchAfter goal epsilon v a b (k + 1) = halve goal epsilon v (stretchAfter goal epsilon v a b k) :=
  Function.iterate_succ_apply' ..

theorem value_refineWithin_succ (fuel : ℕ) (s : K × K) : (refineWithin goal epsilon along (fuel + 1) s.1 s.2).value g =
    if epsilon < s.2 - s.1 then
      (refineWithin goal epsilon along fuel (halve goal epsilon (g ∘ along) s).1 (halve goal epsilon (g ∘ along) s).2).value g
    else s := by
  rw [refineWithin_succ]
  split
  · simp only [Query.value, halve, Function.comp_apply]
    split <;> rfl
  · rfl

/-- Halving ends with the first stretch that is no longer than the tolerance. -/
theorem exists_endsAfter (he : 0 < epsilon) : ∃ n, EndsAfter goal epsilon (g ∘ along) a b n ∧
    (refineWithin goal epsilon along (halvings (b - a) epsilon) a b).value g = stretchAfter goal epsilon (g ∘ along) a b n := by
  obtain ⟨n, hend, hbefore, -⟩ := exists_iterate_of_loop (fun s : K × K => epsilon < s.2 - s.1)
    (fun fuel s => (refineWithin goal epsilon along fuel s.1 s.2).value g) (fun _ => rfl) value_refineWithin_succ
    (halvings (b - a) epsilon) (a, b)
  have hshort := @width_refineWithin K _ goal epsilon a b along g _ (Exact.halvings_spec he)
  dsimp only at hend
  rw [hend] at hshort
  exact ⟨n, ⟨hshort, fun k hk => Nat.le_of_not_lt fun hlt => not_lt.mpr hk (hbefore k hlt)⟩, hend⟩

/-! ### The optimum -/

/-- The stretch is a part of `[a, b]`, and has `m` in it, or not further above it than a tenth of the tolerance. -/
structure IsAround (a b m epsilon : K) (s : K × K) : Prop where
  lower : a ≤ s.1
  upper : s.2 ≤ b
  le : s.1 ≤ m
  le_add : m ≤ s.2 + epsilon / 10

/-- **One halving.** If the optimum is not in the half that is kept, it is between the two places that were looked at. -/
theorem IsAround.halve (h : IsAround a b m epsilon s) (he : 0 < epsilon) (hwide : epsilon < s.2 - s.1)
    (hm : IsUnimodal goal v a b m) (hdefined : ∀ t, a ≤ t → t ≤ b → isDefined (v t) = true) :
    IsAround a b m epsilon (halve goal epsilon v s) := by
  obtain ⟨hmid, hahead⟩ := middle_mem he hwide
  have hlt : (s.1 + s.2) / 2 < (s.1 + s.2) / 2 + epsilon / 10 := lt_add_of_pos_right _ (by positivity)
  have hmidLower := h.lower.trans hmid.1
  have haheadUpper := hahead.2.trans h.upper
  unfold AxisSearch.halve
  dsimp only
  split
  · next hbetter =>
    -- below the middle, the optimum would make the place ahead the worse one
    have hle : (s.1 + s.2) / 2 ≤ m := by
      refine le_of_not_gt fun hbelow => ?_
      have hworse := hm.improves_after hdefined hbelow.le hlt haheadUpper
      have hmidDefined := hdefined _ hmidLower (hlt.le.trans haheadUpper)
      have haheadDefined := hdefined _ (hmidLower.trans hlt.le) haheadUpper
      rw [improves_asymm hmidDefined haheadDefined hworse] at hbetter
      exact Bool.false_ne_true hbetter
    exact ⟨hmidLower, h.upper, hle, h.le_add⟩
  · next hworse =>
    -- above the place ahead, it would make this the better one
    have hle : m ≤ (s.1 + s.2) / 2 + epsilon / 10 := by
      refine le_of_not_gt fun habove => hworse ?_
      exact hm.improves_before hdefined hmidLower hlt habove.le
    exact ⟨h.lower, hmid.2.trans h.upper, h.le, hle⟩

/-- **All halvings.** As long as the stretch is wide, the next one is around the optimum as well. -/
theorem isAround_stretchAfter (he : 0 < epsilon) (hm : IsUnimodal goal v a b m)
    (hdefined : ∀ t, a ≤ t → t ≤ b → isDefined (v t) = true) {k : ℕ}
    (hwide : ∀ i < k, epsilon < (stretchAfter goal epsilon v a b i).2 - (stretchAfter goal epsilon v a b i).1) :
    IsAround a b m epsilon (stretchAfter goal epsilon v a b k) := by
  induction k with
  | zero => exact ⟨le_rfl, le_rfl, hm.mem.1, hm.mem.2.trans (le_add_of_nonneg_right (by positivity))⟩
  | succ k ih =>
    have hk : IsAround a b m epsilon (stretchAfter goal epsilon v a b k) := ih fun i hi => hwide i (Nat.lt_succ_of_lt hi)
    rw [stretchAfter_succ]
    exact hk.halve he (hwide k (Nat.lt_succ_self k)) hm hdefined

/-- The middle of a short stretch is near what the stretch is around. -/
theorem IsAround.middle_near (h : IsAround a b m epsilon s) (hshort : s.2 - s.1 ≤ epsilon) :
    (s.1 + s.2) / 2 - m ≤ epsilon / 2 ∧ m - (s.1 + s.2) / 2 ≤ epsilon / 2 + epsilon / 10 := by
  have hle := h.le
  have hleAdd := h.le_add
  constructor <;> linarith

/-- **The optimum on a line.** The halving of a stretch ends with the first part of it that is no longer than the tolerance.
Where the function has one optimum only, all these parts are around it, and the middle of the last one, which the halving gives,
is at most half the tolerance above it, and at most a tenth of the tolerance more than that below it. -/
theorem refine_near_optimum (he : 0 < epsilon) (hdefined : ∀ t ∈ Set.Icc a b, isDefined (g (along t)) = true)
    (hm : IsUnimodal goal (g ∘ along) a b m) :
    ∃ n t, EndsAfter goal epsilon (g ∘ along) a b n ∧
      (∀ k ≤ n, IsAround a b m epsilon (stretchAfter goal epsilon (g ∘ along) a b k)) ∧
      (refine goal epsilon along a b).value g = t ∧ t ∈ Set.Icc a b ∧
      t - m ≤ epsilon / 2 ∧ m - t ≤ epsilon / 2 + epsilon / 10 := by
  obtain ⟨n, hleast, hend⟩ := @exists_endsAfter K _ goal a b epsilon along g he
  have haround : ∀ k ≤ n, IsAround a b m epsilon (stretchAfter goal epsilon (g ∘ along) a b k) := by
    intro k hk
    refine isAround_stretchAfter he hm (fun t ha hb => hdefined t ⟨ha, hb⟩) fun i hi => ?_
    exact not_le.mp fun hshort => (hleast.2 hshort).not_gt (hi.trans_le hk)
  have hvalue : (refine goal epsilon along a b).value g =
      ((stretchAfter goal epsilon (g ∘ along) a b n).1 + (stretchAfter goal epsilon (g ∘ along) a b n).2) / 2 := by
    rw [refine, value_bind, hend]
    rfl
  obtain ⟨habove, hbelow⟩ := (haround n le_rfl).middle_near hleast.1
  refine ⟨n, _, hleast, haround, hvalue, ?_, habove, hbelow⟩
  rw [← hvalue]
  exact value_refine (hm.mem.1.trans hm.mem.2)

/-- On the line where the second coordinate is five, for the maximum of a parabola at a third of the stretch. -/
theorem refine_near_optimum_parabola :
    let g := (Objective.plane fun x y : ℚ => y - (x - 1 / 3) ^ 2).guarded
    (0 : ℚ) < 1 / 10 ∧ (∀ t ∈ Set.Icc (0 : ℚ) 1, isDefined (g (Axis.x.move (0, 5) t)) = true) ∧
      IsUnimodal .maximize (g ∘ Axis.x.move (0, 5)) 0 1 (1 / 3) ∧
      ∃ n t, EndsAfter .maximize (1 / 10) (g ∘ Axis.x.move (0, 5)) 0 1 n ∧
        (∀ k ≤ n, IsAround 0 1 (1 / 3) (1 / 10) (stretchAfter .maximize (1 / 10) (g ∘ Axis.x.move (0, 5)) 0 1 k)) ∧
        (refine .maximize (1 / 10) (Axis.x.move (0, 5)) 0 1).value g = t ∧ t ∈ Set.Icc (0 : ℚ) 1 ∧
        t - 1 / 3 ≤ 1 / 10 / 2 ∧ 1 / 3 - t ≤ 1 / 10 / 2 + 1 / 10 / 10 := by
  intro g
  have hvalue : ∀ t ∈ Set.Icc (0 : ℚ) 1, isDefined (5 - (t - 1 / 3) ^ 2) = true ∧
      g (Axis.x.move (0, 5) t) = 5 - (t - 1 / 3) ^ 2 := by
    rintro t ⟨h0, h1⟩
    have hdefined : isDefined (5 - (t - 1 / 3) ^ 2) = true := by
      have hsentinel : (5 : ℚ) < ExactArithmetic.sentinel := by decide +kernel
      rw [Exact.isDefined_iff, abs_of_nonneg (by nlinarith)]
      linarith [sq_nonneg (t - 1 / 3)]
    have hlimit : withinLimit t = true := by
      rw [Exact.withinLimit_iff, abs_of_nonneg h0]
      linarith
    have hlimit' : withinLimit (5 : ℚ) = true := by decide +kernel
    refine ⟨hdefined, guarded_eq_value ?_ hdefined⟩
    exact Bool.and_eq_true_iff.mpr ⟨hlimit, hlimit'⟩
  have hdefined : ∀ t ∈ Set.Icc (0 : ℚ) 1, isDefined (g (Axis.x.move (0, 5) t)) = true := by
    intro t ht
    rw [(hvalue t ht).2]
    exact (hvalue t ht).1
  have hm : IsUnimodal .maximize (g ∘ Axis.x.move (0, 5)) 0 1 (1 / 3) := by
    refine ⟨by constructor <;> norm_num, nofun, fun _ => ⟨fun x hx y hy hxy => ?_, fun x hx y hy hxy => ?_⟩⟩
    · rw [Function.comp_apply, Function.comp_apply, (hvalue x ⟨hx.1, by linarith [hx.2]⟩).2,
        (hvalue y ⟨hy.1, by linarith [hy.2]⟩).2]
      nlinarith [hy.2]
    · rw [Function.comp_apply, Function.comp_apply, (hvalue x ⟨by linarith [hx.1], hx.2⟩).2,
        (hvalue y ⟨by linarith [hy.1], hy.2⟩).2]
      nlinarith [hx.1]
  have he : (0 : ℚ) < 1 / 10 := by norm_num
  exact ⟨he, hdefined, hm, refine_near_optimum he hdefined hm⟩

end Numerics.AxisSearch
