import Mathlib.Data.List.Range
import Numerics.Extremum.AxisSearch
import Numerics.Proofs.Integral.Schedule
import Numerics.Proofs.Interruption
import Numerics.Proofs.Outcome

/-!
# What a signal can do to a method

A search along the axes looks at its signal before each iteration, and an adaptive integration before each round of each of
its rules (`AxisSearch.checks_search`, `Integral.mem_checks_adaptiveEstimates`).  How often the objective has been called
there is told by the runs that are limited to the iterations or rounds before.  So a signal replaces a result or leaves it
as it is, and it depends on these numbers alone which of both (`cancellation_only_replaces`).
-/

namespace Numerics

open Query Scalar

variable {α : Type} [Scalar α]

section Requests

variable {ι β : Type} {o : Objective ι α} {before : ℕ}

@[simp] theorem Objective.checks_request (x : ι) : o.checks before (request x) = [] := by
  rw [request, checks_ask, checks_done]

/-- Requests that are computations without checkpoints add none. -/
theorem Objective.checks_ite {p : Prop} [Decidable p] {q r : Query ι α β} (hq : o.checks before q = [])
    (hr : o.checks before r = []) : o.checks before (if p then q else r) = [] := by
  split
  · exact hq
  · exact hr

end Requests

/-! ### Searches along the axes -/

namespace AxisSearch

section Checks

variable {settings : Settings α} {o : Objective (α × α) α} {s : State α} {before : ℕ}

theorem checks_refineWithin {goal : Goal} {epsilon left right : α} {along : α → α × α} {fuel : ℕ} :
    o.checks before (refineWithin goal epsilon along fuel left right) = [] := by
  induction fuel generalizing before left right with
  | zero => rfl
  | succ fuel ih =>
    rw [refineWithin]
    refine Objective.checks_ite ?_ rfl
    rw [Objective.checks_ask, Objective.checks_ask]
    exact Objective.checks_ite ih ih

theorem checks_refine {goal : Goal} {epsilon left right : α} {along : α → α × α} :
    o.checks before (refine goal epsilon along left right) = [] := by
  rw [refine, Objective.checks_bind, checks_refineWithin]
  rfl

theorem checks_axisStep {axis : Axis} {p : α × α} {value : α} :
    o.checks before (axisStep settings axis p value) = [] := by
  unfold axisStep
  simp only [Objective.checks_bind, Objective.checks_request, List.nil_append]
  refine Objective.checks_ite rfl ?_
  simp only [Objective.checks_bind, checks_refine, Objective.checks_request, List.nil_append]
  rfl

/-- An iteration has no checkpoint of its own. -/
theorem checks_step : o.checks before (step settings s) = [] := by
  unfold step
  rw [Objective.checks_bind, checks_axisStep, List.nil_append]
  split <;> rfl

/-- One iteration, and whether the search ends with it. -/
def stepOrEnd (settings : Settings α) (s : State α) : Query (α × α) α ((State α × Status) ⊕ State α) := do
  let next ← step settings s
  if !isDefined next.value then return .inl (next, .interrupted)
  else if next.settled settings.epsilon s.lastMove then return .inl (next, .converged)
  else return .inr next

theorem isCheckedLoop_iterate : Objective.IsCheckedLoop o (iterate settings) (stepOrEnd settings) State.iterations
    fun end_ => end_.1.iterations where
  exhausted s := ⟨_, rfl, rfl⟩
  unfolds fuel s := by
    unfold stepOrEnd
    rw [bind_assoc]
    refine congrArg (fun next => checkpoint (step settings s >>= next)) (funext fun next => ?_)
    split_ifs <;> rfl
  checks_step before s := by
    unfold stepOrEnd
    rw [Objective.checks_bind, checks_step, List.nil_append]
    split_ifs <;> rfl
  counts s := by
    have hstep : ((step settings s).value o.guarded).iterations = s.iterations + 1 := by
      unfold step
      rw [value_bind]
      split <;> rfl
    unfold stepOrEnd
    rw [value_bind]
    split_ifs <;> exact hstep

end Checks

section Reports

variable {f : α → α → α} {settings : Settings α} {r : Report α}

/-- How often the objective has been called before the iteration `i + 1` of a search: as often as by the search that may make
`i` iterations only. -/
def callsBefore (f : α → α → α) (settings : Settings α) (i : ℕ) : ℕ :=
  (Objective.plane f).calls (search { settings with maxIterations := i })

/-- All that a signal can do to a search with the report `r`: it leaves the report as it is, or replaces it if it is set
before one of the iterations. -/
structure IsOnlyReplaced (f : α → α → α) (settings : Settings α) (r : Report α) : Prop where
  unchanged_or_cancelled : ∀ stop, findExtremum f settings stop = .ok r ∨ findExtremum f settings stop = .error .cancelled
  cancelled_iff : ∀ stop, findExtremum f settings stop = .error .cancelled ↔
    ∃ i < r.iterations, stop.isSet (callsBefore f settings i) = true
  /-- A call in the last iteration comes too late. -/
  last_iteration : ∀ n, callsBefore f settings (r.iterations - 1) < n → findExtremum f settings (.afterCalls n) = .ok r

/-- The most iterations matter to no iteration. -/
theorem iterate_limited (i fuel : ℕ) (s : State α) :
    iterate { settings with maxIterations := i } fuel s = iterate settings fuel s := by
  induction fuel generalizing s with
  | zero => rfl
  | succ fuel ih =>
    rw [iterate, iterate]
    refine congrArg (fun next => checkpoint (step settings s >>= next)) (funext fun next => ?_)
    rw [ih]

theorem checks_search {g : α × α → α} (hg : g = (Objective.plane f).guarded) (hr : (search settings).value g = .ok r) :
    (Objective.plane f).checks 0 (search settings) = (List.range r.iterations).map (callsBefore f settings) := by
  subst hg
  unfold search at hr ⊢
  simp only [request, ask_bind, done_bind, Query.value, value_bind, pure_def, Except.ok.injEq] at hr
  subst hr
  simp only [request, ask_bind, done_bind, Objective.checks_ask, Objective.checks_bind, isCheckedLoop_iterate.checks_eq, pure_def,
    Objective.checks_done, List.append_nil, Nat.sub_zero, State.initial]
  refine List.map_congr_left fun i _ => ?_
  unfold callsBefore search
  simp only [request, ask_bind, done_bind, Objective.calls_ask, Objective.calls_bind, pure_def, Objective.calls_done,
    iterate_limited, Nat.add_zero, Nat.zero_add]
  exact Nat.add_comm _ _

theorem findExtremum_eq (h : settings.validate = .ok ()) (stop : StopSignal) :
    findExtremum f settings stop = Search.runUnder (Search.counted (search settings)) (.plane f) stop := by
  rw [findExtremum, h, checked_ok, ok_bind]

theorem exists_value_search (g : α × α → α) : ∃ r, (search settings).value g = .ok r := by
  unfold search
  simp only [value_bind]
  exact ⟨_, rfl⟩

/-- **Signals and searches along the axes.** -/
theorem isOnlyReplaced (f : α → α → α) (h : settings.validate = .ok ()) :
    ∃ r, findExtremum f settings .never = .ok r ∧ IsOnlyReplaced f settings r := by
  obtain ⟨report, hreport⟩ : ∃ report, (search settings).value (Objective.plane f).guarded = .ok report :=
    exists_value_search _
  obtain ⟨r, hr⟩ : ∃ r, r = { report with
    evaluations := ((search settings).requests (Objective.plane f).guarded).length } := ⟨_, rfl⟩
  have hvalue : (Search.counted (search settings)).value (Objective.plane f).guarded = .ok r := by
    rw [Search.value_counted, hreport, map_ok, hr]
  have hchecks : (Objective.plane f).checks 0 (Search.counted (search settings)) =
      (List.range r.iterations).map (callsBefore f settings) := by
    rw [Search.checks_counted, checks_search rfl hreport, hr]
  refine ⟨r, ?_, fun stop => ?_, fun stop => ?_, fun n hn => ?_⟩
  · rw [findExtremum_eq h, Search.runUnder_never, hvalue]
  · rw [findExtremum_eq h, ← hvalue]
    exact Search.runUnder_eq_or
  · rw [findExtremum_eq h, Search.runUnder_eq_cancelled_iff (by rw [hvalue]; exact nofun), hchecks]
    simp only [List.mem_map, List.mem_range, exists_exists_and_eq_and]
  · rw [findExtremum_eq h, Search.runUnder_of_not_set ?_, hvalue]
    rw [hchecks]
    intro c hc
    obtain ⟨i, hi, rfl⟩ := List.mem_map.mp hc
    have hi := List.mem_range.mp hi
    have hle := Objective.mono_of_checks_eq hchecks (Nat.le_sub_one_of_lt hi) (by omega)
    exact decide_eq_false (Nat.not_le.mpr (hle.trans_lt hn))

end Reports

end AxisSearch

/-! ### Adaptive integration -/

namespace Integral

section Checks

variable {o : Objective α α} {a b : α} {s : Settings α} {rule : Rule} {epsilon : α} {n : UInt64} {before : ℕ}

theorem checks_sumFrom {node : ℕ → α} {i count : ℕ} {acc : α} : o.checks before (sumFrom node i acc count) = [] := by
  induction count generalizing before i acc with
  | zero => rfl
  | succ count ih => rw [sumFrom, Objective.checks_ask, ih]

/-- A sum is computed without a look at the signal. -/
theorem checks_compositeSum : o.checks before (compositeSum rule a b n) = [] := by
  have hsum : ∀ {node : ℕ → α} {count before : ℕ}, o.checks before (sumOver node count) = [] := checks_sumFrom
  unfold compositeSum weightedSum
  cases rule <;> simp only [Objective.checks_bind, hsum, Objective.checks_request, pure_def, Objective.checks_done,
    List.append_nil]

/-- The rounds with the sums in place of the requests for them. -/
def summedRounds (a b : α) (rule : Rule) (epsilon : α) (fuel : ℕ) (n : UInt64) (history : List (UInt64 × α)) :
    Query α α (List (UInt64 × α) × Bool) :=
  (rounds rule epsilon fuel n history).expand (compositeSum rule a b)

/-- Whether a value is accepted is found out without a look at the signal. -/
theorem checks_accepts {value : α} {change : Option α} :
    o.checks before ((accepts rule epsilon n value change).expand (compositeSum rule a b)) = [] := by
  unfold accepts
  split
  · cases rule with
    | simpson =>
      rw [expand_bind, Objective.checks_bind, request, expand_ask, Objective.checks_bind, checks_compositeSum]
      rfl
    | _ => rfl
  · rfl

/-- One round, and whether the rule ends with it. -/
def roundOrEnd (a b : α) (rule : Rule) (epsilon : α) (r : UInt64 × List (UInt64 × α)) :
    Query α α ((List (UInt64 × α) × Bool) ⊕ (UInt64 × List (UInt64 × α))) := do
  let value ← compositeSum rule a b r.1
  let accepted ← (accepts rule epsilon r.1 value (change? r.2 value)).expand (compositeSum rule a b)
  if accepted then return .inl ((r.1, value) :: r.2, true)
  else if rule.cap < rule.grow r.1 then return .inl ((r.1, value) :: r.2, false)
  else return .inr (rule.grow r.1, (r.1, value) :: r.2)

theorem isCheckedLoop_summedRounds : Objective.IsCheckedLoop o (fun fuel r => summedRounds a b rule epsilon fuel r.1 r.2)
    (roundOrEnd a b rule epsilon) (fun r => r.2.length) fun end_ => end_.1.length where
  exhausted r := ⟨_, rfl, rfl⟩
  unfolds fuel r := by
    unfold roundOrEnd summedRounds
    rw [rounds]
    simp only [check, request, checkpoint_bind, ask_bind, done_bind, expand, expand_bind, bind_assoc]
    refine congrArg (fun next => checkpoint (compositeSum rule a b r.1 >>= next)) (funext fun value => ?_)
    refine congrArg (_ >>= ·) (funext fun accepted => ?_)
    split_ifs <;> rfl
  checks_step before r := by
    unfold roundOrEnd
    rw [Objective.checks_bind, checks_compositeSum, List.nil_append, Objective.checks_bind, checks_accepts,
      List.nil_append]
    split_ifs <;> rfl
  counts r := by
    unfold roundOrEnd
    rw [value_bind, value_bind]
    split_ifs <;> rfl

end Checks

section Estimates

variable {f : α → α} {a b : α} {s : Settings α} {rule : Rule} {rules earlier later : List Rule} {es : List (Estimate α)}
variable {o : Objective α α} {before : ℕ}

theorem checks_adaptiveEstimate : o.checks before (adaptiveEstimate a b s rule) =
    (List.range ((adaptiveEstimate a b s rule).value o.guarded).history.length).map fun k =>
      before + o.calls (summedRounds a b rule s.epsilon k (rule.startingCount s.initialCount) []) := by
  have hloop : Objective.IsCheckedLoop o (fun fuel r => summedRounds a b rule s.epsilon fuel r.1 r.2)
      (roundOrEnd a b rule s.epsilon) (fun r => r.2.length) fun end_ => end_.1.length := isCheckedLoop_summedRounds
  unfold adaptiveEstimate
  rw [value_bind, value_counted, Objective.checks_bind, Objective.checks_counted]
  change o.checks before (summedRounds a b rule s.epsilon rule.maxRounds (rule.startingCount s.initialCount) []) ++ [] =
    (List.range (((summedRounds a b rule s.epsilon rule.maxRounds (rule.startingCount s.initialCount) []).value
      o.guarded).1.reverse.length)).map _
  rw [List.append_nil, List.length_reverse]
  exact hloop.checks_eq rule.maxRounds (rule.startingCount s.initialCount, [])

/-- A rule makes a round at least. -/
theorem length_history_adaptiveEstimate_pos : 0 < ((adaptiveEstimate a b s rule).value o.guarded).history.length := by
  have hloop : Objective.IsCheckedLoop o (fun fuel r => summedRounds a b rule s.epsilon fuel r.1 r.2)
      (roundOrEnd a b rule s.epsilon) (fun r => r.2.length) fun end_ => end_.1.length := isCheckedLoop_summedRounds
  obtain ⟨fuel, hfuel⟩ : ∃ fuel, rule.maxRounds = fuel + 1 := by cases rule <;> exact ⟨_, rfl⟩
  unfold adaptiveEstimate
  rw [value_bind, value_counted]
  change 0 < ((summedRounds a b rule s.epsilon rule.maxRounds (rule.startingCount s.initialCount) []).value
    o.guarded).1.reverse.length
  rw [List.length_reverse, hfuel]
  exact hloop.made_lt fuel (rule.startingCount s.initialCount, [])

/-- The calls of a run are those of its rules. -/
theorem calls_adaptiveEstimates : o.calls (adaptiveEstimates a b s es rules) =
    (rules.map fun rule => o.calls (adaptiveEstimate a b s rule)).sum := by
  induction rules generalizing es with
  | nil => rfl
  | cons rule rules ih => rw [adaptiveEstimates, Objective.calls_bind, ih, List.map_cons, List.sum_cons]

theorem calls_adaptiveEstimates_cons : o.calls (adaptiveEstimates a b s [] (rule :: rules)) =
    o.calls (adaptiveEstimate a b s rule) + o.calls (adaptiveEstimates a b s [] rules) := by
  rw [calls_adaptiveEstimates, List.map_cons, List.sum_cons, calls_adaptiveEstimates]

/-- **Checkpoints of a run.** They are those of its rules, each after the calls of the rules before it. -/
theorem mem_checks_adaptiveEstimates {c : ℕ} : c ∈ o.checks before (adaptiveEstimates a b s es rules) ↔
    ∃ earlier rule later, rules = earlier ++ rule :: later ∧
      c ∈ o.checks (before + o.calls (adaptiveEstimates a b s [] earlier)) (adaptiveEstimate a b s rule) := by
  induction rules generalizing before es with
  | nil => simp [adaptiveEstimates]
  | cons first rules ih =>
    rw [adaptiveEstimates, Objective.checks_bind, List.mem_append, ih]
    constructor
    · rintro (hc | ⟨earlier, rule, later, rfl, hc⟩)
      · exact ⟨[], first, rules, rfl, hc⟩
      · refine ⟨first :: earlier, rule, later, rfl, ?_⟩
        rwa [calls_adaptiveEstimates_cons, ← Nat.add_assoc]
    · rintro ⟨earlier, rule, later, hrules, hc⟩
      cases earlier with
      | nil =>
        obtain ⟨rfl, rfl⟩ := List.cons.inj hrules
        exact .inl hc
      | cons head earlier =>
        obtain ⟨rfl, rfl⟩ := List.cons.inj hrules
        refine .inr ⟨earlier, rule, later, rfl, ?_⟩
        rwa [calls_adaptiveEstimates_cons, ← Nat.add_assoc] at hc

/-- How often the objective has been called before the round `k + 1` of a rule that comes after other ones: as often as by the
other ones and `k` rounds of the rule. -/
def callsBefore (f : α → α) (a b : α) (s : Settings α) (earlier : List Rule) (rule : Rule) (k : ℕ) : ℕ :=
  (Objective.line f).calls (adaptiveEstimates a b s [] earlier) +
    (Objective.line f).calls (summedRounds a b rule s.epsilon k (rule.startingCount s.initialCount) [])

/-- A run with the estimates `es` makes the round `k + 1` of the rule that comes after `earlier` ones. -/
def MakesRound (rules : List Rule) (es : List (Estimate α)) (earlier : List Rule) (rule : Rule) (k : ℕ) : Prop :=
  ∃ later e, rules = earlier ++ rule :: later ∧ es[earlier.length]? = some e ∧ k < e.history.length

/-- All that a signal can do to an adaptive integration with the estimates `es`: it leaves them as they are, or replaces all
of them if it is set before one of the rounds. -/
structure IsOnlyReplaced (f : α → α) (a b : α) (s : Settings α) (rules : List Rule) (es : List (Estimate α)) : Prop where
  unchanged_or_cancelled : ∀ stop, integrateAdaptive f a b s rules stop = .ok es ∨
    integrateAdaptive f a b s rules stop = .error .cancelled
  cancelled_iff : ∀ stop, integrateAdaptive f a b s rules stop = .error .cancelled ↔
    ∃ earlier rule k, MakesRound rules es earlier rule k ∧ stop.isSet (callsBefore f a b s earlier rule k) = true
  /-- A call in the last round of the last rule comes too late. -/
  last_round : ∀ n earlier rule e, rules = earlier ++ [rule] → es.getLast? = some e →
    callsBefore f a b s earlier rule (e.history.length - 1) < n → integrateAdaptive f a b s rules (.afterCalls n) = .ok es
  /-- A call before the last rule ends the run, and no estimate is left. -/
  earlier_rule : ∀ n earlier rule later, rules = earlier ++ rule :: later →
    n ≤ (Objective.line f).calls (adaptiveEstimates a b s [] earlier) →
    integrateAdaptive f a b s rules (.afterCalls n) = .error .cancelled

/-- The rounds of a run are the checkpoints of its computation. -/
theorem mem_checks_iff {c : ℕ} (hes : es = rules.map fun rule => (adaptiveEstimate a b s rule).value (Objective.line f).guarded) :
    c ∈ (Objective.line f).checks 0 (adaptiveEstimates a b s [] rules) ↔
      ∃ earlier rule k, MakesRound rules es earlier rule k ∧ c = callsBefore f a b s earlier rule k := by
  subst hes
  rw [mem_checks_adaptiveEstimates]
  constructor
  · rintro ⟨earlier, rule, later, rfl, hc⟩
    rw [checks_adaptiveEstimate, Nat.zero_add] at hc
    obtain ⟨k, hk, rfl⟩ := List.mem_map.mp hc
    exact ⟨earlier, rule, k, ⟨later, _, rfl, by simp, List.mem_range.mp hk⟩, rfl⟩
  · rintro ⟨earlier, rule, k, ⟨later, e, rfl, he, hk⟩, rfl⟩
    obtain rfl : (adaptiveEstimate a b s rule).value (Objective.line f).guarded = e := by simpa using he
    refine ⟨earlier, rule, later, rfl, ?_⟩
    rw [checks_adaptiveEstimate, Nat.zero_add]
    exact List.mem_map.mpr ⟨k, List.mem_range.mpr hk, rfl⟩

/-- No checkpoint comes after the one before the last round of the last rule. -/
theorem le_last_of_mem_checks {c : ℕ} (h : c ∈ (Objective.line f).checks 0 (adaptiveEstimates a b s [] (earlier ++ [rule]))) :
    c ≤ callsBefore f a b s earlier rule
      (((adaptiveEstimate a b s rule).value (Objective.line f).guarded).history.length - 1) := by
  have hpos : 0 < ((adaptiveEstimate a b s rule).value (Objective.line f).guarded).history.length :=
    length_history_adaptiveEstimate_pos
  obtain ⟨before, rule', later, hrules, hc⟩ := mem_checks_adaptiveEstimates.mp h
  rcases List.eq_nil_or_concat' later with rfl | ⟨between, last, rfl⟩
  · obtain ⟨rfl, hlast⟩ := List.append_inj' hrules rfl
    obtain rfl := List.singleton_inj.mp hlast
    rw [checks_adaptiveEstimate] at hc
    obtain ⟨k, hk, rfl⟩ := List.mem_map.mp hc
    have hchecks : (Objective.line f).checks 0 (adaptiveEstimate a b s rule) = _ := checks_adaptiveEstimate
    have hle := Objective.mono_of_checks_eq hchecks (Nat.le_sub_one_of_lt (List.mem_range.mp hk)) (Nat.sub_lt hpos Nat.one_pos)
    unfold callsBefore
    omega
  · -- the calls of the rule are calls before the last rule
    rw [← List.cons_append, ← List.append_assoc] at hrules
    obtain ⟨rfl, -⟩ := List.append_inj' hrules rfl
    have hle := (Objective.le_of_mem_checks hc).2
    rw [calls_adaptiveEstimates] at hle
    rw [callsBefore, calls_adaptiveEstimates, List.map_append, List.map_cons, List.sum_append, List.sum_cons]
    omega

/-- **Signals and adaptive integration.** -/
theorem isOnlyReplaced (f : α → α) (rules : List Rule) (hab : checkInterval a b = .ok ()) (hs : s.validate = .ok ()) :
    ∃ es, integrateAdaptive f a b s rules .never = .ok es ∧ IsOnlyReplaced f a b s rules es := by
  have hvalue : (adaptiveEstimates a b s [] rules).value (Objective.line f).guarded =
      .ok (rules.map fun rule => (adaptiveEstimate a b s rule).value (Objective.line f).guarded) :=
    value_adaptiveEstimates [] rules
  have hcancelled : ∀ stop, integrateAdaptive f a b s rules stop = .error .cancelled ↔
      ∃ c ∈ (Objective.line f).checks 0 (adaptiveEstimates a b s [] rules), stop.isSet c = true := fun stop => by
    rw [integrateAdaptive_eq hab hs]
    exact Search.runUnder_eq_cancelled_iff (by rw [hvalue]; exact nofun)
  refine ⟨rules.map fun rule => (adaptiveEstimate a b s rule).value (Objective.line f).guarded, ?_, fun stop => ?_,
    fun stop => ?_, fun n earlier rule e hrules he hn => ?_, fun n earlier rule later hrules hn => ?_⟩
  · rw [integrateAdaptive_eq hab hs, Search.runUnder_never, hvalue]
  · rw [integrateAdaptive_eq hab hs, ← hvalue]
    exact Search.runUnder_eq_or
  · rw [hcancelled]
    simp only [mem_checks_iff rfl]
    constructor
    · rintro ⟨c, ⟨earlier, rule, k, hround, rfl⟩, hset⟩
      exact ⟨earlier, rule, k, hround, hset⟩
    · rintro ⟨earlier, rule, k, hround, hset⟩
      exact ⟨_, ⟨earlier, rule, k, hround, rfl⟩, hset⟩
  · -- the checkpoint before the last round of the last rule comes after all other ones
    subst hrules
    obtain rfl : (adaptiveEstimate a b s rule).value (Objective.line f).guarded = e := by simpa using he
    rw [integrateAdaptive_eq hab hs, Search.runUnder_of_not_set ?_, hvalue]
    exact fun c hc => decide_eq_false (Nat.not_le.mpr ((le_last_of_mem_checks hc).trans_lt hn))
  · -- the signal is set before the first round of the rule
    subst hrules
    refine (hcancelled _).mpr ⟨callsBefore f a b s earlier rule 0, (mem_checks_iff rfl).mpr ⟨earlier, rule, 0, ?_, rfl⟩,
      decide_eq_true (hn.trans (Nat.le_add_right _ _))⟩
    exact ⟨later, _, rfl, by simp; rfl, length_history_adaptiveEstimate_pos⟩

end Estimates

end Integral

/-- **A signal only replaces results.** A search along the axes and an adaptive integration end under any signal as they do
without one or with the failure of a cancelled run; with that failure exactly if the signal is set before one of the
iterations, or of the rounds of the rules, that the free run makes. -/
theorem cancellation_only_replaces :
    (∀ (f : α → α → α) (settings : AxisSearch.Settings α), match AxisSearch.findExtremum f settings .never with
      | .ok r => AxisSearch.IsOnlyReplaced f settings r
      | .error e => e ≠ .cancelled ∧ ∀ stop, AxisSearch.findExtremum f settings stop = .error e) ∧
    ∀ (f : α → α) (a b : α) (s : Integral.Settings α) (rules : List Rule),
      match Integral.integrateAdaptive f a b s rules .never with
      | .ok es => Integral.IsOnlyReplaced f a b s rules es
      | .error e => e ≠ .cancelled ∧ ∀ stop, Integral.integrateAdaptive f a b s rules stop = .error e := by
  refine ⟨fun f settings => ?_, fun f a b s rules => ?_⟩
  · cases h : settings.validate with
    | ok _ =>
      obtain ⟨r, hr, hreplaced⟩ := AxisSearch.isOnlyReplaced f h
      rw [hr]
      exact hreplaced
    | error e =>
      have hrun : ∀ stop, AxisSearch.findExtremum f settings stop = .error (.input e) := fun stop => by
        rw [AxisSearch.findExtremum, h]
        rfl
      rw [hrun]
      exact ⟨nofun, hrun⟩
  · cases hab : checkInterval a b with
    | ok _ =>
      cases hs : s.validate with
      | ok _ =>
        obtain ⟨es, hes, hreplaced⟩ := Integral.isOnlyReplaced f rules hab hs
        rw [hes]
        exact hreplaced
      | error e =>
        have hrun : ∀ stop, Integral.integrateAdaptive f a b s rules stop = .error (.input e) := fun stop => by
          rw [Integral.integrateAdaptive, hab, hs]
          rfl
        rw [hrun]
        exact ⟨nofun, hrun⟩
    | error e =>
      have hrun : ∀ stop, Integral.integrateAdaptive f a b s rules stop = .error (.input e) := fun stop => by
        rw [Integral.integrateAdaptive, hab]
        rfl
      rw [hrun]
      exact ⟨nofun, hrun⟩

end Numerics
