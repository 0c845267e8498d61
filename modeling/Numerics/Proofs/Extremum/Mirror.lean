import Numerics.Proofs.Exact
import Numerics.Extremum.AxisSearch
import Numerics.Extremum.GoldenSection
import Numerics.Proofs.Interruption
import Numerics.Proofs.LockStep

/-!
# Minima of a function and maxima of its opposite

In exact arithmetic a search for a minimum of a function and one for a maximum of the opposite function are the same run.
On both sides the sentinel stands for what has no value, so it keeps its sign (`opposite`).  No comparison of a search takes it
for a value (`Goal.improves_other`); so the searches go in lock step, and their reports are mirror images of one another
(`findExtremum_opposite`).
-/

namespace Numerics

open Query Scalar

variable {K : Type} [ExactArithmetic K]

/-- The value of the opposite function: a defined value with its sign changed, and still none where there is none. -/
def opposite (v : K) : K := if isDefined v then -v else Scalar.undefined

/-- The other goal. -/
def Goal.other : Goal → Goal
  | minimize => maximize
  | maximize => minimize

/-- The record of the same iteration for the opposite function. -/
def Record.mirror (r : Record K) : Record K := { r with value := opposite r.value, deltaValue := -r.deltaValue }

/-- The history of the same run for the opposite function. -/
def Trace.mirror (t : Trace K) : Trace K := t.map Record.mirror

/-- The report of the same run for the opposite function. -/
def Report.mirror (r : Report K) : Report K :=
  { r with value := opposite r.value, values := r.values.map opposite, history := r.history.map Record.mirror }

/-- The report but for the number of its requests. -/
def Report.uncounted {α : Type} (r : Report α) : Report α := { r with evaluations := 0 }

theorem Search.uncounted_counted {ι α : Type} (s : Query ι α (Outcome α (Report α))) (g : ι → α) :
    ((counted s).value g).map Report.uncounted = (s.value g).map Report.uncounted := by
  rw [value_counted]
  cases s.value g <;> rfl

/-! ### Values -/

section Values

variable {v candidate reference : K} {goal : Goal}

@[simp] theorem isDefined_neg : isDefined (-v) = isDefined v := by
  rw [Bool.eq_iff_iff, Exact.isDefined_iff, Exact.isDefined_iff]
  rw [abs_neg]

@[simp] theorem isDefined_opposite : isDefined (opposite v) = isDefined v := by
  unfold opposite
  cases h : isDefined v with
  | true => exact isDefined_neg.trans h
  | false => exact Exact.isDefined_undefined

theorem opposite_of_isDefined (h : isDefined v = true) : opposite v = -v := if_pos h

@[simp] theorem opposite_undefined : opposite (Scalar.undefined : K) = Scalar.undefined :=
  if_neg (Bool.eq_false_iff.mp Exact.isDefined_undefined)

theorem sanitize_neg : sanitize (-v) = opposite (sanitize v) := by
  unfold sanitize
  rw [isDefined_neg]
  split
  · next h => exact (opposite_of_isDefined h).symm
  · exact opposite_undefined.symm

/-- The opposite of an objective has the opposite of each of its values. -/
theorem isImage_opposite {ι : Type} (admits : ι → Bool) (value : ι → K) :
    Objective.IsImage opposite ⟨admits, value⟩ ⟨admits, fun x => -value x⟩ where
  admits _ := rfl
  sanitize _ := sanitize_neg
  undefined := opposite_undefined

/-- **Comparisons.** What is better for one goal is better for the other one when both values are turned over; where one of
them is undefined no value is compared. -/
@[simp] theorem Goal.improves_other :
    goal.other.improves (opposite candidate) (opposite reference) = goal.improves candidate reference := by
  unfold improves
  rw [isDefined_opposite, isDefined_opposite]
  cases hcandidate : isDefined candidate with
  | false => rfl
  | true =>
    cases hreference : isDefined reference with
    | false => rfl
    | true =>
      rw [opposite_of_isDefined hcandidate, opposite_of_isDefined hreference]
      cases goal with
      | minimize => exact decide_eq_decide.mpr neg_lt_neg_iff
      | maximize => exact decide_eq_decide.mpr neg_lt_neg_iff

end Values

/-! ### Histories -/

section Histories

variable {t : Trace K}

theorem Record.mirror_first (index : ℕ) (point : List K) (value : K) (direction : Direction) :
    (Record.first index point value direction).mirror = .first index point (opposite value) direction := by
  have hzero : -@OfNat.ofNat K 0 (Scalar.instOfNat 0) = @OfNat.ofNat K 0 (Scalar.instOfNat 0) := by
    rw [Exact.zero_eq]
    exact neg_zero
  exact congrArg (fun change => { Record.first index point (opposite value) direction with deltaValue := change }) hzero

theorem Record.mirror_since (r previous : Record K) : (r.since previous).mirror = r.mirror.since previous.mirror := by
  unfold mirror since
  dsimp only
  rw [Record.mk.injEq, isDefined_opposite, isDefined_opposite]
  refine ⟨rfl, rfl, rfl, rfl, ?_, rfl, rfl, rfl⟩
  split
  · next h =>
    rw [Bool.and_eq_true] at h
    rw [opposite_of_isDefined h.1, opposite_of_isDefined h.2]
    ring
  · rw [Exact.zero_eq]
    exact neg_zero

theorem Trace.mirror_add (index : ℕ) (point : List K) (value : K) (direction : Direction) :
    (t.add index point value direction).mirror = t.mirror.add index point (opposite value) direction := by
  cases t with
  | nil => exact congrArg ([·]) (Record.mirror_first index point value direction)
  | cons previous t =>
    change Record.mirror _ :: _ = Record.since _ _ :: _
    rw [Record.mirror_since, Record.mirror_first]
    rfl

theorem Trace.reverse_mirror : t.mirror.reverse = t.reverse.map Record.mirror := List.map_reverse.symm

theorem Trace.values_mirror : t.mirror.reverse.map (·.value) = (t.reverse.map (·.value)).map opposite := by
  rw [reverse_mirror, List.map_map, List.map_map]
  rfl

theorem Report.uncounted_mirror (outcome : Outcome K (Report K)) :
    (outcome.map Report.mirror).map Report.uncounted = (outcome.map Report.uncounted).map Report.mirror := by
  cases outcome <;> rfl

end Histories

/-! ### Golden sections -/

namespace GoldenSection

variable {a b epsilon : K} {goal : Goal} {s : State K} {f : K → K}

/-- The state of the same run for the opposite function. -/
def State.mirror (s : State K) : State K :=
  { s with atLeft := opposite s.atLeft, atRight := opposite s.atRight, trace := s.trace.mirror }

theorem lockStep_shrink : LockStep opposite State.mirror (shrink goal s) (shrink goal.other s.mirror) := by
  unfold shrink
  change LockStep _ _ _ (if goal.other.improves (opposite s.atLeft) (opposite s.atRight) = true then _ else _)
  rw [Goal.improves_other]
  split
  · refine .ask _ fun v => ?_
    have hkeep : (s.keepLeft s.bracket.dropRight v).mirror = s.mirror.keepLeft s.bracket.dropRight (opposite v) := by
      unfold State.keepLeft State.mirror
      rw [Trace.mirror_add]
    exact .to_done hkeep
  · refine .ask _ fun v => ?_
    have hkeep : (s.keepRight s.bracket.dropLeft v).mirror = s.mirror.keepRight s.bracket.dropLeft (opposite v) := by
      unfold State.keepRight State.mirror
      rw [Trace.mirror_add]
    exact .to_done hkeep

theorem lockStep_shrinkings (fuel : ℕ) :
    LockStep opposite State.mirror (shrinkings goal epsilon fuel s) (shrinkings goal.other epsilon fuel s.mirror) := by
  induction fuel generalizing s with
  | zero => exact .done s
  | succ fuel ih =>
    rw [shrinkings, shrinkings]
    change LockStep _ _ _ (if epsilon ≤ s.bracket.width then _ else _)
    split
    · exact lockStep_shrink.bind fun s => ih
    · exact .done s

theorem lockStep_definedOnMost : LockStep opposite id (Probe.definedOnMost a b) (Probe.definedOnMost a b) := by
  refine (lockStep_collect _).bind fun values => ?_
  have hcount : (values.map opposite).countP isDefined = values.countP isDefined := by
    rw [List.countP_map]
    exact List.countP_congr fun v _ => by rw [Function.comp_apply, isDefined_opposite]
  rw [hcount]
  exact .done _

/-- The two runs ask for the same inputs but for those of `Probe.looksConstant`, which may tell earlier on one side that the
function is not constant; nothing depends on what it tells. -/
theorem value_search (g : K → K) : (search a b epsilon goal.other).value (fun x => opposite (g x)) =
    ((search a b epsilon goal).value g).map Report.mirror := by
  unfold search
  rw [value_bind, value_bind, lockStep_definedOnMost.value, id]
  split
  · rfl
  rw [value_bind _ (Probe.looksConstant a b), value_bind _ (Probe.looksConstant a b)]
  refine LockStep.value (m := opposite) (k := Except.map Report.mirror) ?_ g
  refine .request _ fun atLeft => ?_
  refine .request _ fun atRight => ?_
  refine (lockStep_shrinkings _).bind fun s => .request _ fun fx => Search.lockStep_report ?_
  unfold Report.mirror Report.traced
  rw [← Trace.values_mirror, ← Trace.reverse_mirror]
  rfl

theorem run_other : (Search.run (Search.counted (search a b epsilon goal.other)) (.line fun x => -f x)).map Report.uncounted =
    ((Search.run (Search.counted (search a b epsilon goal)) (.line f)).map Report.mirror).map Report.uncounted := by
  have himage : Objective.IsImage opposite (.line f) (.line fun x => -f x) := isImage_opposite _ _
  rw [Search.run, Search.run, Search.uncounted_counted, himage.guarded, value_search, Report.uncounted_mirror,
    Report.uncounted_mirror, Search.uncounted_counted]

theorem findExtremum_other : (findExtremum (fun x => -f x) a b epsilon goal.other).map Report.uncounted =
    ((findExtremum f a b epsilon goal).map Report.mirror).map Report.uncounted := by
  unfold findExtremum
  cases checked (checkInterval a b) with
  | error e => rfl
  | ok u =>
    cases checked (checkEpsilon epsilon) with
    | error e => rfl
    | ok u => exact run_other

end GoldenSection

/-! ### Searches along the axes -/

namespace AxisSearch

variable {settings : Settings K} {s : State K} {axis : Axis} {p : K × K} {v : K} {along : K → K × K} {left right epsilon : K}
  {goal : Goal}

/-- The settings with the other goal. -/
def Settings.other (s : Settings K) : Settings K := { s with goal := s.goal.other }

/-- The state of the same run for the opposite function. -/
def State.mirror (s : State K) : State K :=
  { s with value := opposite s.value, bestValue := opposite s.bestValue, trace := s.trace.mirror }

theorem State.mirror_advance :
    (s.advance goal axis p v).mirror = s.mirror.advance goal.other axis p (opposite v) := by
  unfold advance mirror
  dsimp only
  rw [Goal.improves_other, Trace.mirror_add, apply_ite opposite]

theorem lockStep_refineWithin (fuel : ℕ) : LockStep opposite id (refineWithin goal epsilon along fuel left right)
    (refineWithin goal.other epsilon along fuel left right) := by
  induction fuel generalizing left right with
  | zero => exact .done _
  | succ fuel ih =>
    rw [refineWithin, refineWithin]
    split
    · refine .ask _ fun ahead => .ask _ fun here => ?_
      rw [Goal.improves_other]
      split
      · exact ih
      · exact ih
    · exact .done _

theorem lockStep_refine :
    LockStep opposite id (refine goal epsilon along left right) (refine goal.other epsilon along left right) :=
  (lockStep_refineWithin _).bind fun _ => .done _

theorem lockStep_axisStep : LockStep opposite (Option.map (Prod.map id opposite)) (axisStep settings axis p v)
    (axisStep settings.other axis p (opposite v)) := by
  refine .request _ fun back => .request _ fun forward => ?_
  have hstretch : stretch settings.other axis (axis.coordinate p) (opposite back) (opposite forward) =
      stretch settings axis (axis.coordinate p) back forward := by
    unfold stretch Settings.other
    dsimp only
    rw [Goal.improves_other]
    cases axis <;> rfl
  rw [hstretch]
  dsimp only
  change LockStep _ _ _ (if _ ≤ settings.epsilon then _ else _)
  split
  · exact .done none
  · refine lockStep_refine.bind fun t => .request _ fun candidate => ?_
    change LockStep _ _ _ (.done (if settings.goal.other.improves (opposite candidate) (opposite v) = true then _ else _))
    rw [Goal.improves_other]
    split
    · exact .done (some (t, candidate))
    · exact .done none

theorem lockStep_step : LockStep opposite State.mirror (step settings s) (step settings.other s.mirror) := by
  refine lockStep_axisStep.bind fun move => ?_
  cases move with
  | none => exact .to_done State.mirror_advance
  | some move => exact .to_done State.mirror_advance

theorem lockStep_iterate (fuel : ℕ) : LockStep opposite (Prod.map State.mirror id) (iterate settings fuel s)
    (iterate settings.other fuel s.mirror) := by
  induction fuel generalizing s with
  | zero => exact .done (s, Status.iterationLimit)
  | succ fuel ih =>
    rw [iterate, iterate]
    refine .checkpoint (lockStep_step.bind fun next => ?_)
    change LockStep _ _ _ (if (!isDefined (opposite next.value)) = true then _ else
      if next.settled settings.epsilon s.lastMove = true then _ else _)
    rw [isDefined_opposite]
    split
    · exact .done (next, Status.interrupted)
    split
    · exact .done (next, Status.converged)
    · exact ih

theorem lockStep_search :
    LockStep opposite (Except.map Report.mirror) (search settings) (search settings.other) := by
  refine .request _ fun v => ?_
  have hinitial : (State.initial settings.startPoint v).mirror = .initial settings.startPoint (opposite v) := by
    unfold State.initial State.mirror
    rw [Trace.mirror_add]
    rfl
  change LockStep _ _ _ (iterate settings.other settings.maxIterations (.initial settings.startPoint (opposite v)) >>= _)
  rw [← hinitial]
  refine (lockStep_iterate _).bind fun ⟨s, status⟩ => Search.lockStep_report ?_
  unfold Report.mirror Report.traced
  rw [← Trace.values_mirror, ← Trace.reverse_mirror]
  rfl

theorem findExtremum_other (f : K → K → K) (stop : StopSignal) :
    findExtremum (fun x y => -f x y) settings.other stop = (findExtremum f settings stop).map Report.mirror := by
  have himage : Objective.IsImage opposite (.plane f) (.plane fun x y => -f x y) := isImage_opposite _ _
  have hsearch : LockStep opposite (Except.map Report.mirror) (search settings) (search settings.other) := lockStep_search
  have hrun := Search.lockStep_runUnder (Search.lockStep_counted hsearch fun _ _ => rfl) himage stop
  unfold findExtremum
  rw [hrun]
  change (checked settings.validate >>= fun _ => _) = _
  cases checked settings.validate <;> rfl

end AxisSearch

/-- **Minima and maxima.** A search for one goal and a search on the opposite function for the other one fail alike, or report
the same but for values of opposite sign, and for what changes they tell of in them; those along the axes even ask for the same
number of values. -/
theorem findExtremum_opposite :
    (∀ (f : K → K) (a b epsilon : K) (goal : Goal),
      (GoldenSection.findExtremum (fun x => -f x) a b epsilon goal.other).map Report.uncounted =
        ((GoldenSection.findExtremum f a b epsilon goal).map Report.mirror).map Report.uncounted) ∧
    (∀ (f : K → K → K) (settings : AxisSearch.Settings K) (stop : StopSignal),
      AxisSearch.findExtremum (fun x y => -f x y) settings.other stop =
        (AxisSearch.findExtremum f settings stop).map Report.mirror) :=
  ⟨fun _ _ _ _ _ => GoldenSection.findExtremum_other, fun f _ stop => AxisSearch.findExtremum_other f stop⟩

end Numerics
