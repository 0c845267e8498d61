import Mathlib.Data.Nat.Count
import Numerics.Proofs.Root.Residual

/-!
# How long a bisection takes

In exact arithmetic each halving leaves one half of the bracket, with the recorded point for its new end (`IsWide.leavesHalf`).
The interval that the halvings start from is not wide: the first check finds defined samples far apart, and no function is
asked for values beyond the limit of inputs (`width_le_of_definedOnMost`).  So the halvings end by themselves, long before
there are no more of them (`findRoot_stops`).
-/

namespace Numerics.Bisection

open Query Scalar

variable {K : Type} [ExactArithmetic K] {f g : K → K} {a b epsilon : K} {s t : State K} {r : Report K} {k n : ℕ}

/-! ### One halving -/

/-- The record tells of the end that one bracket has in place of an end of the other. -/
def Replaces (s t : State K) (record : Record K) : Prop :=
  record.direction = .keepLeft ∧ t.lo = s.lo ∧ record.point = [t.hi] ∨
    record.direction = .keepRight ∧ t.hi = s.hi ∧ record.point = [t.lo]

/-- The record tells of a halving that leaves the bracket of `t` of that of `s`, the `k`-th halving of `[a, b]`. -/
structure LeavesHalf (a b : K) (k : ℕ) (s t : State K) (record : Record K) : Prop where
  replaces : Replaces s t record
  nested : s.lo ≤ t.lo ∧ t.hi ≤ s.hi
  inside : a ≤ t.lo ∧ t.lo < t.hi ∧ t.hi ≤ b
  width : t.hi - t.lo = (b - a) / 2 ^ k

theorem exists_replaces (s : State K) :
    ∃ record, s.halve.trace = record :: s.trace ∧ record.point = [s.mid] ∧ Replaces s s.halve record := by
  unfold State.halve
  split
  · obtain ⟨record, hadd, hpoint, -, hdirection⟩ := s.trace.exists_add (s.steps + 1) [s.mid] s.atMid .keepLeft
    exact ⟨record, hadd, hpoint, .inl ⟨hdirection, rfl, hpoint⟩⟩
  · obtain ⟨record, hadd, hpoint, -, hdirection⟩ := s.trace.exists_add (s.steps + 1) [s.mid] s.atMid .keepRight
    exact ⟨record, hadd, hpoint, .inr ⟨hdirection, rfl, hpoint⟩⟩

theorem halve_nested (hmid : s.lo < s.mid ∧ s.mid < s.hi) : s.lo ≤ s.halve.lo ∧ s.halve.hi ≤ s.hi := by
  unfold State.halve
  split
  · exact ⟨le_rfl, hmid.2.le⟩
  · exact ⟨hmid.1.le, le_rfl⟩

/-- **Halvings.** A halving leaves one half of the bracket. -/
theorem IsWide.leavesHalf (h : IsWide a b s) (hmid : s.mid = midpoint s.lo s.hi) (g : K → K) :
    ∃ record, (s.next g).trace = record :: s.trace ∧ record.point = [s.mid] ∧
      LeavesHalf a b (s.steps + 1) s (s.next g) record := by
  obtain ⟨record, htrace, hpoint, hreplaces⟩ := exists_replaces s
  obtain ⟨hlo, hlt, hhi, hwidth⟩ := h.halve hmid
  rw [halve_steps] at hwidth
  exact ⟨record, htrace, hpoint, {
    replaces := hreplaces
    nested := halve_nested (mid_mem h hmid)
    inside := ⟨hlo, hlt, hhi⟩
    width := eq_div_of_mul_eq (pow_ne_zero _ two_ne_zero) hwidth }⟩

/-! ### Runs of halvings -/

/-- The state after `k` halvings of `[a, b]`, with the middle of what they leave. -/
def stateAfter (g : K → K) (a b : K) (k : ℕ) : State K := (State.next g)^[k] (State.initial g a b)

theorem stateAfter_succ : stateAfter g a b (k + 1) = (stateAfter g a b k).next g := Function.iterate_succ_apply' ..

theorem stateAfter_mid : (stateAfter g a b k).mid = midpoint (stateAfter g a b k).lo (stateAfter g a b k).hi := by
  cases k with
  | zero => rfl
  | succ k =>
    rw [stateAfter_succ]
    rfl

/-- The history has a record of each halving. -/
structure IsHistoryOf (g : K → K) (a b : K) (n : ℕ) (history : List (Record K)) : Prop where
  length : history.length = n
  leavesHalf : ∀ k < n, ∃ record, history[k]? = some record ∧
    LeavesHalf a b (k + 1) (stateAfter g a b k) (stateAfter g a b (k + 1)) record

theorem isHistoryOf_zero : IsHistoryOf g a b 0 [] where
  length := rfl
  leavesHalf _ hk := absurd hk (Nat.not_lt_zero _)

theorem IsHistoryOf.concat {history : List (Record K)} (h : IsHistoryOf g a b n history) {record : Record K}
    (hrecord : LeavesHalf a b (n + 1) (stateAfter g a b n) (stateAfter g a b (n + 1)) record) :
    IsHistoryOf g a b (n + 1) (history ++ [record]) where
  length := by rw [List.length_append, h.length, List.length_singleton]
  leavesHalf k hk := by
    rcases Nat.lt_succ_iff_lt_or_eq.mp hk with hlt | rfl
    · rw [List.getElem?_append_left (hlt.trans_eq h.length.symm)]
      exact h.leavesHalf k hlt
    · exact ⟨record, by rw [← h.length, List.getElem?_concat_length], hrecord⟩

/-- The state is that after its halvings, none of which has left a bracket as narrow as machine numbers resolve. -/
structure IsRun (g : K → K) (a b : K) (s : State K) : Prop where
  eq : s = stateAfter g a b s.steps
  isWide : IsWide a b s
  history : IsHistoryOf g a b s.steps s.trace.reverse

theorem isRun_initial (hab : a < b) : IsRun g a b (State.initial g a b) where
  eq := rfl
  isWide := isWide_initial hab
  history := isHistoryOf_zero

theorem IsRun.mid (h : IsRun g a b s) : s.mid = midpoint s.lo s.hi := by
  rw [h.eq]
  exact stateAfter_mid

theorem IsRun.next_eq (h : IsRun g a b s) : s.next g = stateAfter g a b (s.steps + 1) := by
  rw [stateAfter_succ, ← h.eq]

/-- The record of the next halving. -/
theorem IsRun.history_next (h : IsRun g a b s) :
    IsHistoryOf g a b (s.steps + 1) (s.next g).trace.reverse ∧
      ∃ record, (s.next g).trace.reverse.getLast? = some record ∧ record.point = [s.mid] := by
  obtain ⟨record, htrace, hpoint, hleaves⟩ := h.isWide.leavesHalf h.mid g
  have hrecord : LeavesHalf a b (s.steps + 1) (stateAfter g a b s.steps) (stateAfter g a b (s.steps + 1)) record := by
    rwa [← h.next_eq, ← h.eq]
  rw [htrace, List.reverse_cons]
  exact ⟨h.history.concat hrecord, record, List.getLast?_concat, hpoint⟩

theorem IsRun.next (h : IsRun g a b s) (hsettled : s.halve.settled epsilon = false) : IsRun g a b (s.next g) := by
  have hsteps : (s.next g).steps = s.steps + 1 := halve_steps s
  constructor
  · rw [hsteps]
    exact h.next_eq
  · exact h.isWide.next h.mid hsettled
  · rw [hsteps]
    exact h.history_next.1

/-! ### The interval -/

/-- Of more than `n` numbers two are as far apart as `n`. -/
theorem exists_add_le_of_lt_countP {q : ℕ → Bool} {m : ℕ} (h : n < (List.range m).countP q) :
    ∃ i j, i + n ≤ j ∧ q i = true ∧ q j = true := by
  have hcount : Nat.count (q · = true) m = (List.range m).countP q := List.countP_congr fun _ _ => decide_eq_true_iff
  rw [← hcount, Nat.count_eq_card_filter_range] at h
  have hne := Finset.card_pos.mp (Nat.zero_lt_of_lt h)
  have hsubset : (Finset.range m).filter (q · = true) ⊆ Finset.Icc (Finset.min' _ hne) (Finset.max' _ hne) :=
    fun k hk => Finset.mem_Icc.mpr ⟨Finset.min'_le _ k hk, Finset.le_max' _ k hk⟩
  have hcard := Finset.card_le_card hsubset
  rw [Nat.card_Icc] at hcard
  exact ⟨_, _, Nat.le_of_lt_succ (by omega), (Finset.mem_filter.mp (Finset.min'_mem _ hne)).2,
    (Finset.mem_filter.mp (Finset.max'_mem _ hne)).2⟩

/-- A function has values only within the limit of inputs. -/
theorem abs_le_of_isDefined_guarded {x : K} (h : isDefined ((Objective.line f).guarded x) = true) : |x| ≤ 10 ^ 10 := by
  unfold Objective.guarded at h
  split at h
  · next hadmits => exact Exact.withinLimit_iff.mp hadmits
  · rw [Exact.isDefined_undefined] at h
    cases h

/-- An interval that passes the first check is not much wider than the limit of inputs. -/
theorem width_le_of_definedOnMost (hab : a < b) (h : (Probe.definedOnMost a b).value (Objective.line f).guarded = true) :
    (b - a) * 6 ≤ 2 * 10 ^ 11 := by
  unfold Probe.definedOnMost at h
  rw [value_bind, value_collect, pure_def, value, decide_eq_true_iff, Probe.stepsFrom, List.map_map, List.countP_map] at h
  obtain ⟨i, j, hij, hi, hj⟩ := exists_add_le_of_lt_countP (n := 6) h
  have hfirst := (abs_le.mp (abs_le_of_isDefined_guarded hi)).1
  have hlast := (abs_le.mp (abs_le_of_isDefined_guarded hj)).2
  -- two defined samples with six of the ten steps between them
  have hapart : ((i : K) + 6) * (b - a) ≤ j * (b - a) := by
    have := sub_pos.mpr hab
    gcongr
    exact_mod_cast hij
  linarith

/-- The halvings of an interval that passes the first check are few. -/
theorem IsWide.steps_lt_of_definedOnMost (h : IsWide a b s) (hab : a < b)
    (hdefined : (Probe.definedOnMost a b).value (Objective.line f).guarded = true) : s.steps < 87 := by
  refine h.steps_lt (by decide) ?_
  have hwidth := width_le_of_definedOnMost hab hdefined
  calc (b - a) * 2 ^ 52 = (b - a) * 6 * (2 ^ 52 / 6) := by ring
    _ ≤ 2 * 10 ^ 11 * (2 ^ 52 / 6) := mul_le_mul_of_nonneg_right hwidth (by positivity)
    _ ≤ 2 ^ 87 := by norm_num

/-! ### Searches -/

/-- What a run of halvings reports: a record of each halving, and the bracket after the last one. -/
structure ReportsRun (g : K → K) (a b : K) (r : Report K) : Prop where
  history : IsHistoryOf g a b r.iterations r.history
  finalInterval : r.finalInterval = some ((stateAfter g a b r.iterations).lo, (stateAfter g a b r.iterations).hi)

/-- The halvings of an interval that passes the first check settle. -/
theorem stops_halvedReport (epsilon : K) (hab : a < b)
    (hdefined : (Probe.definedOnMost a b).value (Objective.line f).guarded = true)
    (hr : r = { halvedReport (Objective.line f).guarded a b epsilon with evaluations := n }) :
    r.status = .converged ∧ r.iterations ≤ 87 ∧ (∃ record, r.history.getLast? = some record ∧ r.point = record.point) ∧
      ReportsRun (Objective.line f).guarded a b r := by
  unfold halvedReport at hr
  rcases value_halvings (fun s (hs : IsRun (Objective.line f).guarded a b s) => hs.next) maxHalvings (isRun_initial hab) with
    ⟨t, ht, -, hend⟩ | ⟨t, ht, hsteps, -⟩
  · rw [hend] at hr
    obtain ⟨hhistory, record, hlast, hpoint⟩ := ht.history_next
    have hiterations : r.iterations = t.steps + 1 := by
      rw [hr]
      exact halve_steps t
    refine ⟨by rw [hr]; rfl, ?_, ⟨record, ?_, ?_⟩, ?_, ?_⟩
    · rw [hiterations]
      exact ht.isWide.steps_lt_of_definedOnMost hab hdefined
    · rw [hr]
      exact hlast
    · rw [hr, hpoint, ← halve_mid]
      rfl
    · rw [hiterations, hr]
      exact hhistory
    · rw [hiterations, ← ht.next_eq, hr]
      rfl
  · -- a run as long as that would have left a bracket too narrow to go on with
    have hlt := ht.isWide.steps_lt_of_definedOnMost hab hdefined
    rw [hsteps] at hlt
    have hmost : 87 ≤ maxHalvings := by decide
    omega

/-- **Bisection stops by itself.** It does for each function for which it reports at all, after 87 halvings at most. -/
theorem findRoot_stops (h : findRoot f a b epsilon = .ok r) :
    r.status = .converged ∧ r.iterations ≤ 87 ∧ (∃ record, r.history.getLast? = some record ∧ r.point = record.point) ∧
      (1 ≤ r.iterations → ReportsRun (Objective.line f).guarded a b r) := by
  obtain ⟨hinterval, -, r', hr', rfl⟩ := findRoot_eq_ok_iff.mp h
  rw [value_search] at hr'
  split_ifs at hr' with hdefined hsame ha hb
  · cases hr'
    exact ⟨rfl, Nat.zero_le _, ⟨_, rfl, rfl⟩, nofun⟩
  · cases hr'
    exact ⟨rfl, Nat.zero_le _, ⟨_, rfl, rfl⟩, nofun⟩
  · cases hr'
    have hab := Exact.checkInterval_eq_ok_iff.mp hinterval
    obtain ⟨hstatus, hiterations, hlast, hrun⟩ := stops_halvedReport epsilon hab (by simpa using hdefined) rfl
    exact ⟨hstatus, hiterations, hlast, fun _ => hrun⟩

/-- The search for the root of two. -/
theorem findRoot_stops_square : ∃ r : Report ℚ, findRoot (fun x : ℚ => x * x - 2) 0 2 (1 / 1000) = .ok r ∧
    r.status = .converged ∧ r.iterations ≤ 87 ∧ (∃ record, r.history.getLast? = some record ∧ r.point = record.point) ∧
    ReportsRun (Objective.line fun x : ℚ => x * x - 2).guarded 0 2 r := by
  obtain ⟨r, hr, hiterations⟩ := exists_of_toOption_any
    (by decide +kernel : (findRoot (fun x : ℚ => x * x - 2) 0 2 (1 / 1000)).toOption.any (1 ≤ ·.iterations) = true)
  obtain ⟨hstatus, hmost, hlast, hrun⟩ := findRoot_stops hr
  exact ⟨r, hr, hstatus, hmost, hlast, hrun (of_decide_eq_true hiterations)⟩

end Numerics.Bisection
