import Numerics.Proofs.Integral.Samples
import Numerics.Proofs.Answers
import Numerics.Proofs.Integral.Schedule

/-!
# The size of sums

An adaptive run looks at the cap of its rule only before it goes on to the next count.  So the cap bounds no sum of the count
to start with, and not the one that confirms a sum of Simpson's rule at the cap; but it bounds all others
(`isCapped_of_mem_rounds`, `integrateAdaptive_sums`).
-/

namespace Numerics

open Query Scalar

/-! ### Requests under a signal -/

namespace Objective

variable {ι α β : Type} [Scalar α] {o : Objective ι α} {stop : StopSignal} {calls : ℕ} {q : Query ι α β}

/-- The inputs that a run under a signal asks for, after `calls` calls of the objective. -/
def asked (o : Objective ι α) (stop : StopSignal) (calls : ℕ) : Query ι α β → List ι
  | .done _ => []
  | .ask x next => x :: o.asked stop (if o.admits x then calls + 1 else calls) (next (o.guarded x))
  | .checkpoint next => if stop.isSet calls then [] else o.asked stop calls next

/-- A run under a signal asks for the first inputs that the free run asks for. -/
theorem asked_isPrefix : o.asked stop calls q <+: q.requests o.guarded := by
  induction q generalizing calls with
  | done b => exact List.prefix_rfl
  | ask x next ih => exact (List.prefix_cons_inj x).mpr (ih _)
  | checkpoint next ih =>
    unfold asked
    split
    · exact List.nil_prefix
    · exact ih

end Objective

namespace Integral

variable {α : Type} [Scalar α] {f : α → α} {a b epsilon value : α} {s : Settings α} {rule : Rule} {rules : List Rule}
  {answer : UInt64 → α} {history : List (UInt64 × α)} {change : Option α} {n m : UInt64} {fuel : ℕ}

/-! ### Rounds -/

/-- The count is within the cap of the rule, or confirms the sum of Simpson's rule at the cap. -/
def IsCapped (rule : Rule) (n : UInt64) : Prop := n ≤ rule.cap ∨ (rule = .simpson ∧ n = rule.cap + 2)

/-- The counts of the sums that are to confirm a value. -/
def confirmations (rule : Rule) (epsilon : α) (n : UInt64) (change : Option α) : List UInt64 :=
  if rule = .simpson ∧ change.any (· ≤ epsilon) then [n + 2] else []

theorem requests_accepts :
    (accepts rule epsilon n value change).requests answer = confirmations rule epsilon n change := by
  unfold accepts confirmations
  cases change.any (· ≤ epsilon) <;> cases rule <;> rfl

/-- A value is confirmed by Simpson's rule only, with two subintervals more. -/
theorem mem_requests_accepts (h : m ∈ (accepts rule epsilon n value change).requests answer) :
    rule = .simpson ∧ m = n + 2 := by
  rw [requests_accepts, confirmations] at h
  split at h
  · next hconfirm => exact ⟨hconfirm.1, List.mem_singleton.mp h⟩
  · cases h

theorem requests_rounds_succ : (rounds rule epsilon (fuel + 1) n history).requests answer =
    n :: (accepts rule epsilon n (answer n) (change? history (answer n))).requests answer ++
      if (accepts rule epsilon n (answer n) (change? history (answer n))).value answer then []
      else if rule.cap < rule.grow n then []
      else (rounds rule epsilon fuel (rule.grow n) ((n, answer n) :: history)).requests answer := by
  rw [rounds]
  simp only [check, request, checkpoint_bind, ask_bind, done_bind, Query.requests, requests_bind, List.cons_append]
  split_ifs <;> rfl

/-- The first value has not changed, so that nothing confirms it. -/
theorem requests_rounds_first : (rounds rule epsilon (fuel + 1) n []).requests answer =
    n :: if rule.cap < rule.grow n then [] else (rounds rule epsilon fuel (rule.grow n) [(n, answer n)]).requests answer := by
  rw [requests_rounds_succ]
  rfl

/-- Two subintervals more than an even count within the cap. -/
theorem isCapped_add_two (hcap : n ≤ Rule.simpson.cap) (heven : Even n.toNat) : IsCapped .simpson (n + 2) := by
  rw [UInt64.le_iff_toNat_le] at hcap
  change n.toNat ≤ 50000 at hcap
  rcases Nat.eq_or_lt_of_le hcap with hlast | hlt
  · exact .inr ⟨rfl, congrArg (· + 2) (UInt64.toNat_inj.mp hlast)⟩
  · have hadd : (n + 2).toNat = n.toNat + 2 := Rule.toNat_add_of_lt (by change n.toNat + 2 < 2 ^ 64; omega)
    refine .inl (UInt64.le_iff_toNat_le.mpr ?_)
    rw [hadd]
    change n.toNat + 2 ≤ 50000
    rw [Nat.even_iff] at heven
    omega

/-- A round of Simpson's rule at its cap, with the sum that confirms it if the change is within the tolerance. -/
theorem requests_rounds_cap : (rounds .simpson epsilon (fuel + 1) 50000 history).requests answer =
    if (change? history (answer 50000)).any (· ≤ epsilon) then [50000, 50002] else [50000] := by
  have hlast : Rule.simpson.cap < Rule.simpson.grow 50000 := by decide
  rw [requests_rounds_succ, if_pos hlast, ite_self, List.append_nil, accepts]
  split <;> rfl

/-- **Rounds.** From a count within the cap on all sums are capped. -/
theorem isCapped_of_mem_rounds (hcap : n ≤ rule.cap) (heven : rule = .simpson → Even n.toNat)
    (h : m ∈ (rounds rule epsilon fuel n history).requests answer) : IsCapped rule m := by
  induction fuel generalizing n history with
  | zero => cases h
  | succ fuel ih =>
    rw [requests_rounds_succ, List.cons_append, List.mem_cons, List.mem_append] at h
    -- the sum of the round, the one that confirms it, and those of the rounds that follow
    rcases h with rfl | h | h
    · exact .inl hcap
    · obtain ⟨rfl, rfl⟩ := mem_requests_accepts h
      exact isCapped_add_two hcap (heven rfl)
    · split at h
      · cases h
      split at h
      · cases h
      · next hgrow =>
        refine ih (UInt64.not_lt.mp hgrow) ?_ h
        rintro rfl
        exact Rule.even_grow_simpson (heven rfl)

/-- **Schedules.** The first sum is that of the count to start with, and all later ones are capped. -/
theorem requests_schedule (answer : UInt64 → α) (s : Settings α) (rule : Rule) :
    ∃ later, (schedule s rule).requests answer = rule.startingCount s.initialCount :: later ∧
      ∀ n ∈ later, IsCapped rule n := by
  -- only the count to start with is not compared with the cap before its round
  obtain ⟨fuel, hfuel⟩ : ∃ fuel, rule.maxRounds = fuel + 1 := by cases rule <;> exact ⟨_, rfl⟩
  refine ⟨_, by rw [schedule, hfuel, requests_rounds_first], fun n hn => ?_⟩
  split at hn
  · cases hn
  · next hgrow =>
    refine isCapped_of_mem_rounds (UInt64.not_lt.mp hgrow) ?_ hn
    rintro rfl
    exact Rule.even_grow_simpson Rule.even_startingCount_simpson

/-! ### Runs -/

/-- The counts of the sums that an adaptive run of a rule computes, in order. -/
def sumCounts (f : α → α) (a b : α) (s : Settings α) (rule : Rule) : List UInt64 :=
  (schedule s rule).requests (sumAt f a b rule)

/-- The inputs of the sums of a rule with these counts. -/
def sumInputs (a b : α) (rule : Rule) (counts : List UInt64) : List α :=
  counts.flatMap fun n => (samples rule a b n.toNat).map (·.2)

theorem requests_adaptiveEstimate : (adaptiveEstimate a b s rule).requests (Objective.line f).guarded =
    sumInputs a b rule (sumCounts f a b s rule) := by
  unfold adaptiveEstimate sumInputs
  rw [requests_bind, requests_counted, requests_expand]
  simp only [requests_compositeSum]
  exact List.append_nil _

theorem requests_adaptiveEstimates (estimates : List (Estimate α)) :
    (adaptiveEstimates a b s estimates rules).requests (Objective.line f).guarded =
      rules.flatMap fun rule => sumInputs a b rule (sumCounts f a b s rule) := by
  induction rules generalizing estimates with
  | nil => rfl
  | cons rule rules ih => rw [adaptiveEstimates, requests_bind, requests_adaptiveEstimate, ih, List.flatMap_cons]

/-- **The size of sums.** Adaptive runs ask for the inputs of the sums with their counts, and under a signal for the first ones
of them.  For each rule the first sum has the count to start with, whatever the cap, and all later ones are capped. -/
theorem integrateAdaptive_sums (f : α → α) (a b : α) (s : Settings α) (rules : List Rule) (stop : StopSignal) :
    (adaptiveEstimates a b s [] rules).requests (Objective.line f).guarded =
        (rules.flatMap fun rule => sumInputs a b rule (sumCounts f a b s rule)) ∧
      (Objective.line f).asked stop 0 (adaptiveEstimates a b s [] rules) <+:
        (rules.flatMap fun rule => sumInputs a b rule (sumCounts f a b s rule)) ∧
      ∀ rule ∈ rules, ∃ later, sumCounts f a b s rule = rule.startingCount s.initialCount :: later ∧
        ∀ n ∈ later, IsCapped rule n := by
  refine ⟨requests_adaptiveEstimates [], ?_, fun rule _ => requests_schedule _ s rule⟩
  rw [← requests_adaptiveEstimates []]
  exact Objective.asked_isPrefix

/-- The sums of Simpson's rule for the squares from 0 to 3, the last of which confirms the one before. -/
theorem integrateAdaptive_sums_squares :
    let s : Settings ℚ := { epsilon := 1 / 100, initialCount := 1 }
    let counts := sumCounts (fun x : ℚ => x * x) 0 3 s .simpson
    .simpson ∈ Rule.all ∧ counts = [2, 4, 6] ∧
      ∃ later, counts = Rule.simpson.startingCount 1 :: later ∧ ∀ n ∈ later, IsCapped .simpson n := by
  intro s counts
  have hmem : .simpson ∈ Rule.all := by decide
  obtain ⟨-, -, hsums⟩ := integrateAdaptive_sums (fun x : ℚ => x * x) 0 3 s Rule.all .never
  exact ⟨hmem, by decide +kernel, hsums .simpson hmem⟩

section Exact

variable {K : Type} [ExactArithmetic K] {t : Settings K}

/-- In exact arithmetic no two sums differ by more than twice the sentinel. -/
theorem abs_sumAt_sub_le (f : K → K) (a b : K) (rule : Rule) (m n : UInt64) :
    |sumAt f a b rule m - sumAt f a b rule n| ≤ 2 * ExactArithmetic.sentinel := by
  have hle : ∀ n, |sumAt f a b rule n| ≤ ExactArithmetic.sentinel := by
    intro n
    have hanswer : IsAnswer (sumAt f a b rule n) := by
      rw [sumAt, compositeSum, value_bind]
      exact isAnswer_sanitize _
    rcases hanswer with hdefined | hundefined
    · exact (Exact.isDefined_iff.mp hdefined).le
    · rw [hundefined]
      exact (abs_of_pos ExactArithmetic.sentinel_pos).le
  calc |sumAt f a b rule m - sumAt f a b rule n| ≤ |sumAt f a b rule m| + |sumAt f a b rule n| := abs_sub _ _
    _ ≤ 2 * ExactArithmetic.sentinel := by linarith [hle m, hle n]

theorem any_change? {before now epsilon : K} (h : |now - before| ≤ epsilon) :
    (change? [(n, before)] now).any (· ≤ epsilon) = true := decide_eq_true h

/-- A run of Simpson's rule from 41666 on confirms its sum at the cap, if the tolerance is so large that any change is within it. -/
theorem sumCounts_of_loose (f : K → K) (a b : K) (hn : t.initialCount = 41666)
    (hloose : 2 * ExactArithmetic.sentinel ≤ t.epsilon) : sumCounts f a b t .simpson = [41666, 50000, 50002] := by
  have hstart : Rule.simpson.startingCount t.initialCount = 41666 := by
    rw [hn]
    decide
  have hgrow : Rule.simpson.grow 41666 = 50000 := by decide
  have hfits : ¬ Rule.simpson.cap < 50000 := by decide
  have hchange := any_change? (n := 41666) ((abs_sumAt_sub_le f a b .simpson 50000 41666).trans hloose)
  change (rounds .simpson t.epsilon (28 + 1 + 1) (Rule.simpson.startingCount t.initialCount) []).requests _ = _
  rw [hstart, requests_rounds_first, hgrow, if_neg hfits, requests_rounds_cap, if_pos hchange]

end Exact

/-- Runs of Simpson's rule that compute sums beyond its cap: one starts with 60000 subintervals, and one that starts with 41666
confirms its sum at the cap. -/
theorem integrateAdaptive_exceeds_cap :
    (¬ ∀ (f : Float → Float) (a b : Float) (s : Settings Float) (rules : List Rule), checkInterval a b = .ok () →
      s.validate = .ok () → ∀ rule ∈ rules, ∀ n ∈ sumCounts f a b s rule, n ≤ rule.cap) ∧
    ∀ f : ℚ → ℚ, sumCounts f 0 1 { epsilon := 10 ^ 306, initialCount := 41666 } .simpson = [41666, 50000, 50002] := by
  constructor
  · intro hclaim
    let s : Settings Float := { Settings.default with initialCount := 60000 }
    obtain ⟨later, hsums, -⟩ := requests_schedule (sumAt (fun x => 0 * x) 0 1 .simpson) s .simpson
    have hstart : Rule.simpson.startingCount 60000 = 60000 := by decide
    have hmem : 60000 ∈ sumCounts (fun x => 0 * x) 0 1 s .simpson := by
      rw [sumCounts, hsums]
      exact List.mem_cons.mpr (.inl hstart.symm)
    have hle := hclaim _ 0 1 s [.simpson] (by decide +kernel) (by decide +kernel) .simpson List.mem_cons_self 60000 hmem
    exact absurd hle (by decide)
  · intro f
    exact sumCounts_of_loose f 0 1 rfl (by decide +kernel)

end Integral

end Numerics
