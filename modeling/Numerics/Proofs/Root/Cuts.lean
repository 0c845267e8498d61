import Mathlib
import Numerics.Proofs.Narrowing
import Numerics.Proofs.Root.Residual
import Numerics.Root.GoldenCut

/-!
# The bracket of golden cuts

A search by golden cuts keeps the value at the lower end of its bracket only.  The checks before the first cut see to it that
the value at the upper end has the other sign (`hasSignChange_of_checks`), and each cut keeps a part whose ends differ in sign,
or hits a zero and keeps a bracket without width there (`State.IsBracketed.next`).  So each cut of a run leaves a part of the
bracket before, no wider than the cut tells (`IsCut`), and the search reports the middle of the last one (`findRoot_cuts`).
-/

namespace Numerics.GoldenCut

open Query Scalar
open Bisection (HasSignChange value_sameSignAtEnds isFinite_guarded hasSignChange_of_checks midpoint_eq)

section Runs

variable {α : Type} [Scalar α] {f g : α → α} {a b epsilon : α} {r : Report α} {s : State α} {k : ℕ}

/-! ### Runs of cuts -/

/-- The state before the first cut. -/
def State.initial (g : α → α) (a b : α) : State α := { lo := a, hi := b, atLo := g a, steps := 0, trace := [] }

/-- The state after the next cut. -/
def State.next (g : α → α) (s : State α) : State α := s.keep s.cut (g s.cut)

/-- The state after `k` cuts of `[a, b]`. -/
def stateAfter (g : α → α) (a b : α) (k : ℕ) : State α := (State.next g)^[k] (State.initial g a b)

theorem stateAfter_succ : stateAfter g a b (k + 1) = (stateAfter g a b k).next g := Function.iterate_succ_apply' ..

/-- A cut adds a record of its point, and of the value there. -/
theorem exists_trace_next (g : α → α) (s : State α) :
    ∃ record, (s.next g).trace = record :: s.trace ∧ record.point = [s.cut] ∧ record.value = g s.cut := by
  have hadd : ∀ direction, ∃ record, s.trace.add (s.steps + 1) [s.cut] (g s.cut) direction = record :: s.trace ∧
      record.point = [s.cut] ∧ record.value = g s.cut := by
    intro direction
    obtain ⟨record, hrecord, hpoint, hvalue, -⟩ := s.trace.exists_add (s.steps + 1) [s.cut] (g s.cut) direction
    exact ⟨record, hrecord, hpoint, hvalue⟩
  unfold State.next State.keep
  split
  · exact hadd _
  split
  · exact hadd _
  · exact hadd _

theorem next_steps (g : α → α) (s : State α) : (s.next g).steps = s.steps + 1 := by
  unfold State.next State.keep
  split
  · rfl
  split <;> rfl

theorem stateAfter_steps : (stateAfter g a b k).steps = k := by
  induction k with
  | zero => rfl
  | succ k ih => rw [stateAfter_succ, next_steps, ih]

/-- The cuts of a run end with the first bracket that is narrower than the tolerance, or after as many as may be made. -/
theorem value_cuts (g : α → α) (a b epsilon : α) : ∃ n,
    (cuts epsilon maxCuts (State.initial g a b)).value g = stateAfter g a b n ∧
      (∀ k < n, epsilon ≤ (stateAfter g a b k).hi - (stateAfter g a b k).lo) ∧
      (n = maxCuts ∨ n < maxCuts ∧ ¬ epsilon ≤ (stateAfter g a b n).hi - (stateAfter g a b n).lo) := by
  refine exists_iterate_of_loop (fun s : State α => epsilon ≤ s.hi - s.lo) (fun fuel s => (cuts epsilon fuel s).value g)
    (fun s => rfl) (fun fuel s => ?_) maxCuts (State.initial g a b)
  rw [cuts, apply_ite (Query.value g)]
  rfl

/-! ### Searches -/

/-- The report after the cuts. -/
def cutReport (g : α → α) (a b epsilon : α) : Report α :=
  let s := (cuts epsilon maxCuts (State.initial g a b)).value g
  let x := midpoint s.lo s.hi
  { (Report.new [x] (g x) epsilon (if s.hi - s.lo < epsilon then .converged else .iterationLimit)).traced s.trace with
    iterations := s.steps
    finalInterval := some (s.lo, s.hi) }

/-- The checks before the first cut, in their order, and the cuts. -/
theorem value_search : (search a b epsilon).value g =
    if !(Probe.definedOnMost a b).value g then .error (.undefinedOnInterval a b)
    else if (Probe.sameSignAtEnds a b).value g then .error (.noSignChange a b)
    else if isRoot epsilon (g a) then .ok (endReport a b epsilon a (g a))
    else if isRoot epsilon (g b) then .ok (endReport a b epsilon b (g b))
    else .ok (cutReport g a b epsilon) := by
  unfold search
  simp only [value_bind, pure_def]
  split
  · rfl
  simp only [value_bind]
  split
  · rfl
  simp only [value_bind]
  change Query.value g (if isRoot epsilon (g a) = true then _ else _) = _
  split
  · rfl
  change Query.value g (if isRoot epsilon (g b) = true then _ else _) = _
  split
  · rfl
  simp only [value_bind]
  rfl

/-- The report is that of the search on the guarded values, with the number of its requests. -/
theorem findRoot_eq_ok_iff : findRoot f a b epsilon = .ok r ↔ checkInterval a b = .ok () ∧ checkEpsilon epsilon = .ok () ∧
    ∃ r', (search a b epsilon).value (Objective.line f).guarded = .ok r' ∧
      { r' with evaluations := ((search a b epsilon).requests (Objective.line f).guarded).length } = r :=
  Search.checked_run_eq_ok_iff

end Runs

/-! ### Cuts in exact arithmetic -/

variable {K : Type} [ExactArithmetic K] {f g : K → K} {a b epsilon x : K} {s : State K} {r : Report K} {k n : ℕ}

/-- The bracket has a sign change of which the value at the lower end is known, or no width around a zero. -/
inductive State.IsBracketed (g : K → K) (s : State K) : Prop where
  | change (lt : s.lo < s.hi) (atLo : s.atLo = g s.lo) (hasSignChange : HasSignChange g (s.lo, s.hi))
  | zero (eq : s.lo = s.hi) (isZero : g s.lo = 0)

theorem State.IsBracketed.le (h : s.IsBracketed g) : s.lo ≤ s.hi := by
  cases h with
  | change lt atLo hasSignChange => exact lt.le
  | zero eq isZero => exact eq.le

/-- A cut leaves a part of a bracket from `lo` to `hi`, no wider than its longer part. -/
structure IsPart (lo hi lo' hi' : K) : Prop where
  le_lo : lo ≤ lo'
  hi_le : hi' ≤ hi
  width : hi' - lo' ≤ goldenCut * (hi - lo)

theorem cut_eq (s : State K) : s.cut = s.lo + goldenCut * (s.hi - s.lo) := rfl

theorem cut_mem (h : s.lo < s.hi) : s.lo < s.cut ∧ s.cut < s.hi := by
  have hwidth := sub_pos.mpr h
  have hpos : 0 < goldenCut * (s.hi - s.lo) := mul_pos ExactArithmetic.cut_pos hwidth
  have hlt : goldenCut * (s.hi - s.lo) < s.hi - s.lo := mul_lt_of_lt_one_left hwidth ExactArithmetic.cut_lt_one
  rw [cut_eq]
  constructor <;> linarith

/-- A cut at a zero leaves a bracket without width. -/
theorem next_of_eq_zero (h : g s.cut = 0) : (s.next g).lo = s.cut ∧ (s.next g).hi = s.cut := by
  unfold State.next State.keep
  rw [h, Exact.zero_eq, if_pos (Bool.and_eq_true_iff.mpr ⟨decide_eq_true le_rfl, decide_eq_true le_rfl⟩)]
  exact ⟨rfl, rfl⟩

/-- A cut elsewhere leaves one of the parts, with the value at its lower end. -/
theorem next_of_ne_zero (h : g s.cut ≠ 0) (hatLo : s.atLo = g s.lo) :
    (s.next g).atLo = g (s.next g).lo ∧
      ((s.next g).lo, (s.next g).hi) = if oppositeSigns (g s.lo) (g s.cut) then (s.lo, s.cut) else (s.cut, s.hi) := by
  have hnot : ¬ (decide (g s.cut ≤ 0) && decide (0 ≤ g s.cut)) = true := by
    rw [Bool.and_eq_true, decide_eq_true_iff, decide_eq_true_iff]
    exact fun hzero => h (le_antisymm hzero.1 hzero.2)
  unfold State.next State.keep
  rw [Exact.zero_eq, if_neg hnot, ← hatLo]
  split
  · exact ⟨hatLo, rfl⟩
  · exact ⟨rfl, rfl⟩

/-- Each part of a cut bracket is no wider than the lower one. -/
theorem isPart_of_eq (hcut : 1 / 2 ≤ (goldenCut : K)) (hlt : s.lo < s.hi) {lo hi : K}
    (h : (lo, hi) = (s.lo, s.cut) ∨ (lo, hi) = (s.cut, s.hi)) : lo < hi ∧ IsPart s.lo s.hi lo hi := by
  obtain ⟨hlo, hhi⟩ := cut_mem hlt
  rcases h with h | h
  · obtain ⟨rfl, rfl⟩ := Prod.mk.inj h
    refine ⟨hlo, le_rfl, hhi.le, ?_⟩
    rw [cut_eq, add_sub_cancel_left]
  · obtain ⟨rfl, rfl⟩ := Prod.mk.inj h
    refine ⟨hhi, hlo.le, le_rfl, ?_⟩
    have hhalf : 1 / 2 * (s.hi - s.lo) ≤ goldenCut * (s.hi - s.lo) := mul_le_mul_of_nonneg_right hcut (sub_pos.mpr hlt).le
    rw [cut_eq]
    linarith

/-- **Cuts.** A cut leaves a part of the bracket, with a sign change or around a zero. -/
theorem State.IsBracketed.next (hcut : 1 / 2 ≤ (goldenCut : K)) (h : s.IsBracketed g) :
    (s.next g).IsBracketed g ∧ IsPart s.lo s.hi (s.next g).lo (s.next g).hi := by
  have hwidth : 0 ≤ goldenCut * (s.hi - s.lo) := mul_nonneg ExactArithmetic.cut_pos.le (sub_nonneg.mpr h.le)
  cases h with
  | change lt atLo hasSignChange =>
    obtain ⟨hlo, hhi⟩ := cut_mem lt
    by_cases hzero : g s.cut = 0
    · obtain ⟨hnextLo, hnextHi⟩ := next_of_eq_zero hzero
      refine ⟨.zero (hnextLo.trans hnextHi.symm) (by rwa [hnextLo]), ?_⟩
      rw [hnextLo, hnextHi]
      exact ⟨hlo.le, hhi.le, by rwa [sub_self]⟩
    · obtain ⟨hatLo, hbracket⟩ := next_of_ne_zero hzero atLo
      have hsign := hasSignChange.part (m := s.cut) (by rw [Exact.zero_eq]; exact lt_or_gt_of_ne hzero)
      rw [← hbracket] at hsign
      obtain ⟨hlt, hpart⟩ := isPart_of_eq hcut lt (by rw [hbracket]; exact ite_eq_or_eq ..)
      exact ⟨.change hlt hatLo hsign, hpart⟩
  | zero eq isZero =>
    -- the bracket has no width, so it is cut at the zero again
    have hsame : s.cut = s.lo := by rw [cut_eq, ← eq, sub_self, mul_zero, add_zero]
    obtain ⟨hnextLo, hnextHi⟩ := next_of_eq_zero (s := s) (hsame ▸ isZero)
    refine ⟨.zero (hnextLo.trans hnextHi.symm) (by rwa [hnextLo, hsame]), ?_⟩
    rw [hnextLo, hnextHi, hsame]
    exact ⟨le_rfl, eq.le, by rwa [sub_self]⟩

theorem isBracketed_stateAfter (hcut : 1 / 2 ≤ (goldenCut : K)) (hab : a < b) (h : HasSignChange g (a, b)) (k : ℕ) :
    (stateAfter g a b k).IsBracketed g ∧ a ≤ (stateAfter g a b k).lo ∧ (stateAfter g a b k).hi ≤ b := by
  induction k with
  | zero => exact ⟨.change hab rfl h, le_rfl, le_rfl⟩
  | succ k ih =>
    obtain ⟨hbracketed, hlo, hhi⟩ := ih
    obtain ⟨hnext, hpart⟩ := hbracketed.next hcut
    rw [stateAfter_succ]
    exact ⟨hnext, hlo.trans hpart.le_lo, hpart.hi_le.trans hhi⟩

/-! ### Searches in exact arithmetic -/

/-- The search reports the end `x` of the interval at once. -/
structure EndsAt (g : K → K) (epsilon : K) (r : Report K) (x : K) : Prop where
  point : r.point = [x]
  value : r.value = g x
  iterations : r.iterations = 0
  isRoot : |g x| < epsilon ∨ |g x| ≤ 1 / 10 ^ 15

/-- The record tells of a cut of the bracket of `s` that leaves that of `t`. -/
structure IsCut (f : K → K) (s t : State K) (record : Record K) : Prop where
  point : record.point = [s.cut]
  value : record.value = (Objective.line f).guarded s.cut
  isPart : IsPart s.lo s.hi t.lo t.hi
  signs : HasSignChange (Objective.line f).guarded (t.lo, t.hi) ∨ t.lo = t.hi ∧ f t.lo = 0

/-- The search makes cuts from a sign change at the ends of the interval, and reports the middle of the last bracket. -/
structure ReportsCuts (f : K → K) (a b epsilon : K) (r : Report K) : Prop where
  hasSignChange : HasSignChange (Objective.line f).guarded (a, b)
  length : r.history.length = r.iterations
  isCut : ∀ k < r.iterations, ∃ record, r.history[k]? = some record ∧
    IsCut f (stateAfter (Objective.line f).guarded a b k) (stateAfter (Objective.line f).guarded a b (k + 1)) record
  isWide : ∀ k < r.iterations, epsilon ≤
    (stateAfter (Objective.line f).guarded a b k).hi - (stateAfter (Objective.line f).guarded a b k).lo
  stops : r.iterations = maxCuts ∨ r.converged = true
  middle : ∃ lo hi x, lo = (stateAfter (Objective.line f).guarded a b r.iterations).lo ∧
    hi = (stateAfter (Objective.line f).guarded a b r.iterations).hi ∧ r.finalInterval = some (lo, hi) ∧
    r.point = [x] ∧ x = (lo + hi) / 2 ∧ a ≤ x ∧ x ≤ b ∧ (r.converged = true ↔ hi - lo < epsilon)

/-- What is seen of a function vanishes only where the function does. -/
theorem eq_zero_of_guarded_eq_zero (h : (Objective.line f).guarded x = 0) : f x = 0 := by
  unfold Objective.guarded sanitize at h
  split at h
  · split at h
    · exact h
    · exact absurd h ExactArithmetic.sentinel_pos.ne'
  · exact absurd h ExactArithmetic.sentinel_pos.ne'

theorem isRoot_iff {v : K} : isRoot epsilon v = true ↔ |v| < epsilon ∨ |v| ≤ 1 / 10 ^ 15 := by
  unfold isRoot Probe.zeroThreshold
  rw [Exact.place_eq, Bool.or_eq_true, decide_eq_true_iff, decide_eq_true_iff]
  rfl

theorem isCut_stateAfter (hcut : 1 / 2 ≤ (goldenCut : K)) (hab : a < b)
    (h : HasSignChange (Objective.line f).guarded (a, b)) (k : ℕ) :
    ∃ record, (stateAfter (Objective.line f).guarded a b (k + 1)).trace =
      record :: (stateAfter (Objective.line f).guarded a b k).trace ∧
      IsCut f (stateAfter (Objective.line f).guarded a b k) (stateAfter (Objective.line f).guarded a b (k + 1)) record := by
  rw [stateAfter_succ]
  obtain ⟨record, htrace, hpoint, hvalue⟩ :=
    exists_trace_next (Objective.line f).guarded (stateAfter (Objective.line f).guarded a b k)
  obtain ⟨hnext, hpart⟩ := (isBracketed_stateAfter hcut hab h k).1.next hcut
  refine ⟨record, htrace, hpoint, hvalue, hpart, ?_⟩
  cases hnext with
  | change lt atLo hasSignChange => exact .inl hasSignChange
  | zero eq isZero => exact .inr ⟨eq, eq_zero_of_guarded_eq_zero isZero⟩

/-- The report after the cuts of a sign change. -/
theorem reportsCuts_cutReport (hcut : 1 / 2 ≤ (goldenCut : K)) (hab : a < b)
    (h : HasSignChange (Objective.line f).guarded (a, b)) (n : ℕ) :
    ReportsCuts f a b epsilon { cutReport (Objective.line f).guarded a b epsilon with evaluations := n } := by
  obtain ⟨k, hend, hwide, hlast⟩ := value_cuts (Objective.line f).guarded a b epsilon
  obtain ⟨hlength, hrecords⟩ := Trace.getElem?_reverse_of_steps
    (fun k => (stateAfter (Objective.line f).guarded a b k).trace) rfl (isCut_stateAfter hcut hab h) k
  obtain ⟨hbracketed, hlo, hhi⟩ := isBracketed_stateAfter hcut hab h k
  have hle := hbracketed.le
  unfold cutReport
  rw [hend]
  dsimp only
  rw [stateAfter_steps]
  exact {
    hasSignChange := h
    length := hlength
    isCut := hrecords
    isWide := hwide
    stops := hlast.imp_right fun h => Status.isSettled_iff.mpr (not_le.mp h.2)
    middle := ⟨_, _, _, rfl, rfl, rfl, rfl, midpoint_eq, by rw [midpoint_eq]; linarith, by rw [midpoint_eq]; linarith,
      Status.isSettled_iff⟩ }

/-- Brackets of rational numbers are cut in the upper half. -/
theorem half_le_goldenCut : 1 / 2 ≤ (goldenCut : ℚ) := by
  change (1 / 2 : ℚ) ≤ 618033988749895 / 10 ^ 15
  norm_num

/-- **Golden cuts.** A search reports one of the ends, whose value is below the tolerance or close to zero, or it cuts a bracket
with a sign change until it is narrower than the tolerance. -/
theorem findRoot_cuts {f : ℚ → ℚ} {a b epsilon : ℚ} {r : Report ℚ} (h : findRoot f a b epsilon = .ok r) :
    (∃ x, (x = a ∨ x = b) ∧ EndsAt (Objective.line f).guarded epsilon r x) ∨ ReportsCuts f a b epsilon r := by
  obtain ⟨hinterval, hepsilon, r', hr', rfl⟩ := findRoot_eq_ok_iff.mp h
  rw [value_search] at hr'
  split_ifs at hr' with hdefined hsame ha hb
  · obtain rfl := Except.ok.inj hr'
    exact .inl ⟨a, .inl rfl, rfl, rfl, rfl, isRoot_iff.mp ha⟩
  · obtain rfl := Except.ok.inj hr'
    exact .inl ⟨b, .inr rfl, rfl, rfl, rfl, isRoot_iff.mp hb⟩
  · obtain rfl := Except.ok.inj hr'
    have hfinite := isFinite_guarded (Objective.line f)
    rw [isRoot_iff, not_or, not_lt, not_le] at ha hb
    have hchange := hasSignChange_of_checks hfinite (Bisection.checkEpsilon_eq_ok hepsilon) (by simpa using hsame)
      (not_lt.mpr ha.1) (not_lt.mpr hb.1) (lt_of_eq_of_lt (Exact.place_eq 15) ha.2) (lt_of_eq_of_lt (Exact.place_eq 15) hb.2)
    exact .inr (reportsCuts_cutReport half_le_goldenCut (Exact.checkInterval_eq_ok_iff.mp hinterval) hchange _)

/-- The search for the root of two. -/
theorem findRoot_cuts_square : ∃ r : Report ℚ, findRoot (fun x : ℚ => x * x - 2) 0 2 (1 / 1000) = .ok r ∧
    1 ≤ r.iterations ∧ ReportsCuts (fun x : ℚ => x * x - 2) 0 2 (1 / 1000) r := by
  obtain ⟨r, hr, hiterations⟩ := exists_of_toOption_any
    (by decide +kernel : (findRoot (fun x : ℚ => x * x - 2) 0 2 (1 / 1000)).toOption.any (1 ≤ ·.iterations) = true)
  rw [decide_eq_true_iff] at hiterations
  rcases findRoot_cuts hr with ⟨x, -, hend⟩ | hcuts
  · exact absurd hend.iterations (Nat.ne_of_gt hiterations)
  · exact ⟨r, hr, hiterations, hcuts⟩

end Numerics.GoldenCut
