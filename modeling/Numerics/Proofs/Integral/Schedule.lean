import Mathlib.Data.List.Forall2
import Mathlib.Logic.Function.Iterate
import Mathlib.Order.Bounds.Basic
import Numerics.Integral.Adaptive
import Numerics.Proofs.Exact
import Numerics.Proofs.Execution
import Numerics.Proofs.Integral.Counts
import Numerics.Proofs.Outcome

/-!
# Where adaptive integration ends

The counts of an adaptive run are known beforehand (`roundCount`), and so are its last permitted round (`IsLastRound`) and
the rounds whose value would be accepted (`IsAcceptedRound`).  The run makes all rounds up to the first accepted one if that
is permitted, and else up to the last permitted one (`integrateAdaptive_earliest`).
-/

namespace Numerics.Integral

open Query Scalar

variable {α : Type} [Scalar α]

/-- The count of the round `k` of an adaptive run that is to start with `n`. -/
def roundCount (rule : Rule) (n : UInt64) (k : ℕ) : UInt64 := rule.grow^[k] (rule.startingCount n)

/-- No round may follow the round `k`: all rounds are made, or the next count is beyond the cap. -/
def IsLastRound (rule : Rule) (n : UInt64) (k : ℕ) : Prop :=
  rule.maxRounds ≤ k + 1 ∨ rule.cap < rule.grow (roundCount rule n k)

/-- The value of the round `k` is accepted: it differs from the one before by no more than the tolerance, and for Simpson's
rule two more subintervals change it by no more than a hundredth of the tolerance. -/
def IsAcceptedRound (f : α → α) (a b : α) (s : Settings α) (rule : Rule) (k : ℕ) : Prop :=
  let count := roundCount rule s.initialCount
  1 ≤ k ∧ ∃ before value, integrate f a b (count (k - 1)) rule = .ok before ∧ integrate f a b (count k) rule = .ok value ∧
    Scalar.abs (value - before) ≤ s.epsilon ∧
    (rule = .simpson → ∃ confirmation, integrate f a b (count k + 2) rule = .ok confirmation ∧
      Scalar.abs (confirmation - value) ≤ s.epsilon * place 2)

/-- The estimate of a rule whose rounds ended with the round `k`, the values being those of the integral at the counts. -/
structure EndsWith (f : α → α) (a b : α) (s : Settings α) (rule : Rule) (k : ℕ) (values : ℕ → α) (e : Estimate α) :
    Prop where
  values_eq : ∀ i ≤ k, integrate f a b (roundCount rule s.initialCount i) rule = .ok (values i)
  rule_eq : e.rule = rule
  history_eq : e.history = (List.range (k + 1)).map fun i => (roundCount rule s.initialCount i, values i)
  n_eq : e.n = roundCount rule s.initialCount k
  value_eq : e.value = values k
  error_eq : e.error? = if k = 0 then none else some (Scalar.abs (values k - values (k - 1)))
  increasing : ∀ i < k, roundCount rule s.initialCount i < roundCount rule s.initialCount (i + 1)
  even : rule = .simpson → ∀ i ≤ k, Even (roundCount rule s.initialCount i).toNat

/-- The rounds of a rule ended with the first accepted one, if no round before it was the last one, and else with the last
one. -/
def EndsEarliest (f : α → α) (a b : α) (s : Settings α) (rule : Rule) (e : Estimate α) : Prop :=
  ∃ last values, IsLeast {k | IsLastRound rule s.initialCount k} last ∧
    ((∃ first ≤ last, IsLeast {k | IsAcceptedRound f a b s rule k} first ∧ e.converged = true ∧
        EndsWith f a b s rule first values e) ∨
      ((∀ first, IsLeast {k | IsAcceptedRound f a b s rule k} first → last < first) ∧ e.converged = false ∧
        EndsWith f a b s rule last values e))

/-! ### Counts -/

section Counts

variable {rule : Rule} {n : UInt64} {k last : ℕ}

theorem roundCount_succ : roundCount rule n (k + 1) = rule.grow (roundCount rule n k) :=
  Function.iterate_succ_apply' _ _ _

/-- Up to the last round no count wraps around, nor the one that would follow the round before it. -/
theorem roundCount_spec (hfit : rule.CountsFit n) (hlast : ∀ i < k, ¬ IsLastRound rule n i) :
    0 < (roundCount rule n k).toNat ∧ (rule = .simpson → Even (roundCount rule n k).toNat) ∧
      rule.growNat (roundCount rule n k).toNat < 2 ^ 64 := by
  induction k with
  | zero =>
    have hstart : (roundCount rule n 0).toNat = rule.startingNat n.toNat :=
      Rule.toNat_startingCount (Rule.lt_growNat.trans hfit)
    rw [hstart]
    refine ⟨Rule.startingNat_pos, ?_, hfit⟩
    rintro rfl
    exact Rule.even_startingNat_simpson
  | succ k ih =>
    obtain ⟨hpos, heven, hgrow⟩ := ih fun i hi => hlast i (Nat.lt_succ_of_lt hi)
    have hnext : (roundCount rule n (k + 1)).toNat = rule.growNat (roundCount rule n k).toNat := by
      rw [roundCount_succ, Rule.toNat_grow hgrow]
    have hcap : (roundCount rule n (k + 1)).toNat ≤ rule.cap.toNat := by
      have := hlast k (Nat.lt_succ_self k)
      rw [IsLastRound, not_or, UInt64.lt_iff_toNat_lt, ← roundCount_succ] at this
      omega
    refine ⟨?_, ?_, Rule.growNat_lt_word hcap⟩
    · rw [hnext]
      exact hpos.trans Rule.lt_growNat
    · rintro rfl
      rw [hnext]
      exact Rule.even_growNat_simpson (heven rfl)

theorem roundCount_lt_succ (hfit : rule.CountsFit n) (hlast : ∀ i < k, ¬ IsLastRound rule n i) :
    roundCount rule n k < roundCount rule n (k + 1) := by
  rw [UInt64.lt_iff_toNat_lt, roundCount_succ, Rule.toNat_grow (roundCount_spec hfit hlast).2.2]
  exact Rule.lt_growNat

end Counts

/-! ### Rounds -/

section Rounds

variable {rule : Rule} {epsilon : α} {answer : UInt64 → α} {n : UInt64}

/-- The value of the round `k` is accepted, given the answers for all counts. -/
def AcceptsAnswers (rule : Rule) (epsilon : α) (answer : UInt64 → α) (n : UInt64) (k : ℕ) : Prop :=
  1 ≤ k ∧ Scalar.abs (answer (roundCount rule n k) - answer (roundCount rule n (k - 1))) ≤ epsilon ∧
    (rule = .simpson →
      Scalar.abs (answer (roundCount rule n k + 2) - answer (roundCount rule n k)) ≤ epsilon * place 2)

instance (k : ℕ) : Decidable (AcceptsAnswers rule epsilon answer n k) := inferInstanceAs (Decidable (_ ∧ _ ∧ _))

/-- The entries of the first `k` rounds. -/
def entries (rule : Rule) (answer : UInt64 → α) (n : UInt64) (k : ℕ) : List (UInt64 × α) :=
  (List.range k).map fun i => (roundCount rule n i, answer (roundCount rule n i))

omit [Scalar α] in
theorem entries_succ (k : ℕ) : entries rule answer n (k + 1) =
    entries rule answer n k ++ [(roundCount rule n k, answer (roundCount rule n k))] := by
  simp [entries, List.range_succ]

theorem value_accepts {count : UInt64} {value : α} {change : Option α} :
    (accepts rule epsilon count value change).value answer = true ↔
      change.any (· ≤ epsilon) = true ∧
        (rule = .simpson → Scalar.abs (answer (count + 2) - value) ≤ epsilon * place 2) := by
  unfold accepts
  split
  · next h =>
    cases rule <;> simp [h, request, Query.value]
  · next h => simp [h, Query.value]

theorem value_accepts_entries (k : ℕ) :
    (accepts rule epsilon (roundCount rule n k) (answer (roundCount rule n k))
      (change? (entries rule answer n k).reverse (answer (roundCount rule n k)))).value answer =
      decide (AcceptsAnswers rule epsilon answer n k) := by
  rw [Bool.eq_iff_iff, value_accepts, decide_eq_true_iff]
  cases k with
  | zero => simp [AcceptsAnswers, entries, change?]
  | succ k => simp [AcceptsAnswers, entries_succ, change?]

/-- One round: it ends the run if its value is accepted or the next count is beyond the cap. -/
theorem value_rounds_succ (fuel : ℕ) (count : UInt64) (history : List (UInt64 × α)) :
    (rounds rule epsilon (fuel + 1) count history).value answer =
      if (accepts rule epsilon count (answer count) (change? history (answer count))).value answer then
        ((count, answer count) :: history, true)
      else if rule.cap < rule.grow count then ((count, answer count) :: history, false)
      else (rounds rule epsilon fuel (rule.grow count) ((count, answer count) :: history)).value answer := by
  rw [rounds]
  simp only [check, request, checkpoint_bind, ask_bind, done_bind, Query.value, value_bind]
  split_ifs <;> rfl

/-- One round after the first `k` ones. -/
theorem value_rounds_entries (fuel k : ℕ) :
    (rounds rule epsilon (fuel + 1) (roundCount rule n k) (entries rule answer n k).reverse).value answer =
      if AcceptsAnswers rule epsilon answer n k then ((entries rule answer n (k + 1)).reverse, true)
      else if rule.cap < rule.grow (roundCount rule n k) then ((entries rule answer n (k + 1)).reverse, false)
      else (rounds rule epsilon fuel (roundCount rule n (k + 1)) (entries rule answer n (k + 1)).reverse).value answer := by
  rw [value_rounds_succ]
  simp only [value_accepts_entries, decide_eq_true_iff, entries_succ k, List.reverse_append, List.reverse_singleton,
    List.singleton_append, roundCount_succ]

/-- A run ends with its first round that is accepted or the last one. -/
theorem value_rounds (fuel k : ℕ) (hfuel : k + (fuel + 1) = rule.maxRounds) :
    ∃ j, k ≤ j ∧ (∀ i, k ≤ i → i < j → ¬ AcceptsAnswers rule epsilon answer n i ∧ ¬ IsLastRound rule n i) ∧
      (AcceptsAnswers rule epsilon answer n j ∨ IsLastRound rule n j) ∧
      (rounds rule epsilon (fuel + 1) (roundCount rule n k) (entries rule answer n k).reverse).value answer =
        ((entries rule answer n (j + 1)).reverse, decide (AcceptsAnswers rule epsilon answer n j)) := by
  induction fuel generalizing k with
  | zero =>
    refine ⟨k, le_rfl, fun i hi hj => absurd hj (Nat.not_lt.mpr hi), .inr (.inl (by omega)), ?_⟩
    rw [value_rounds_entries]
    split_ifs with haccept
    · simp [haccept]
    · simp [haccept]
    · simp [haccept, rounds, Query.value]
  | succ fuel ih =>
    rw [value_rounds_entries]
    by_cases haccept : AcceptsAnswers rule epsilon answer n k
    · exact ⟨k, le_rfl, fun i hi hj => absurd hj (Nat.not_lt.mpr hi), .inl haccept, by simp [haccept]⟩
    · by_cases hcap : rule.cap < rule.grow (roundCount rule n k)
      · exact ⟨k, le_rfl, fun i hi hj => absurd hj (Nat.not_lt.mpr hi), .inr (.inr hcap), by simp [haccept, hcap]⟩
      · obtain ⟨j, hkj, hbefore, hstop, hvalue⟩ := ih (k + 1) (by omega)
        refine ⟨j, by omega, fun i hki hij => ?_, hstop, ?_⟩
        · rcases Nat.eq_or_lt_of_le hki with rfl | hki
          · refine ⟨haccept, ?_⟩
            rw [IsLastRound, not_or]
            exact ⟨by omega, hcap⟩
          · exact hbefore i hki hij
        · rw [if_neg haccept, if_neg hcap, hvalue]

end Rounds

/-! ### Estimates -/

section Estimates

variable {f : α → α} {a b : α} {s : Settings α} {rule : Rule}

/-- The value of a rule with a count, as the rounds see it. -/
def sumAt (f : α → α) (a b : α) (rule : Rule) (n : UInt64) : α :=
  (compositeSum rule a b n).value (Objective.line f).guarded

theorem checkPartition_eq_ok {n : UInt64} (hab : checkInterval a b = .ok ()) (hpos : 0 < n.toNat) :
    checkPartition a b n = .ok () := by
  rw [checkPartition, hab, ok_bind, checkSubintervals, if_neg hpos.ne']

/-- The integral is the sum with the count that the rule uses. -/
theorem integrate_eq_sumAt_fixedCount {n : UInt64} (hab : checkInterval a b = .ok ()) (hpos : 0 < n.toNat) :
    integrate f a b n rule = .ok (sumAt f a b rule (rule.fixedCount n)) := by
  rw [integrate, checkPartition_eq_ok hab hpos, checked_ok]
  rfl

theorem integrateFixed_eq {n : UInt64} {rules : List Rule} (hab : checkInterval a b = .ok ()) (hpos : 0 < n.toNat) :
    integrateFixed f a b n rules =
      .ok (rules.map fun rule => (fixedEstimate a b n rule).value (Objective.line f).guarded) := by
  rw [integrateFixed, checkPartition_eq_ok hab hpos, checked_ok]
  rfl

/-- A count that a rule does not change gives the integral that the rounds see. -/
theorem integrate_eq_sumAt {n : UInt64} (hab : checkInterval a b = .ok ()) (hpos : 0 < n.toNat)
    (heven : rule = .simpson → Even n.toNat) : integrate f a b n rule = .ok (sumAt f a b rule n) := by
  rw [integrate_eq_sumAt_fixedCount hab hpos, Rule.fixedCount_of_even hpos heven]

theorem value_adaptiveEstimate :
    (adaptiveEstimate a b s rule).value (Objective.line f).guarded =
      let (history, converged) := (schedule s rule).value (sumAt f a b rule)
      let (n, value) := history.head?.getD (rule.startingCount s.initialCount, undefined)
      { rule, value, n, error? := lastChange? history, converged, history := history.reverse,
        evaluations := (((schedule s rule).expand (compositeSum rule a b)).requests (Objective.line f).guarded).length } := by
  unfold adaptiveEstimate
  rw [value_bind, value_counted, value_expand]
  rfl

theorem value_adaptiveEstimates (estimates : List (Estimate α)) (rules : List Rule) :
    (adaptiveEstimates a b s estimates rules).value (Objective.line f).guarded =
      .ok (estimates.reverse ++ rules.map fun rule => (adaptiveEstimate a b s rule).value (Objective.line f).guarded) := by
  induction rules generalizing estimates with
  | nil => simp [adaptiveEstimates, Query.value]
  | cons rule rules ih => simp [adaptiveEstimates, ih]

theorem integrateAdaptive_eq {rules : List Rule} (hab : checkInterval a b = .ok ()) (hs : s.validate = .ok ())
    (stop : StopSignal) :
    integrateAdaptive f a b s rules stop = Search.runUnder (adaptiveEstimates a b s [] rules) (.line f) stop := by
  rw [integrateAdaptive, hab, hs, checked_ok, ok_bind, ok_bind]

/-- The estimate of a rule ends with its first round that is accepted or the last one. -/
theorem exists_endsWith (hab : checkInterval a b = .ok ()) (hfit : rule.CountsFit s.initialCount) :
    ∃ j, (∀ i < j, ¬ AcceptsAnswers rule s.epsilon (sumAt f a b rule) s.initialCount i ∧
        ¬ IsLastRound rule s.initialCount i) ∧
      (AcceptsAnswers rule s.epsilon (sumAt f a b rule) s.initialCount j ∨ IsLastRound rule s.initialCount j) ∧
      ((adaptiveEstimate a b s rule).value (Objective.line f).guarded).converged =
        decide (AcceptsAnswers rule s.epsilon (sumAt f a b rule) s.initialCount j) ∧
      EndsWith f a b s rule j (fun i => sumAt f a b rule (roundCount rule s.initialCount i))
        ((adaptiveEstimate a b s rule).value (Objective.line f).guarded) := by
  obtain ⟨fuel, hfuel⟩ : ∃ fuel, fuel + 1 = rule.maxRounds := by cases rule <;> exact ⟨_, rfl⟩
  obtain ⟨j, -, hbefore, hstop, hvalue⟩ := @value_rounds α _ rule s.epsilon (sumAt f a b rule) s.initialCount fuel 0
    (by omega)
  have hschedule : (schedule s rule).value (sumAt f a b rule) =
      ((entries rule (sumAt f a b rule) s.initialCount (j + 1)).reverse,
        decide (AcceptsAnswers rule s.epsilon (sumAt f a b rule) s.initialCount j)) := by
    rw [schedule, ← hfuel]
    exact hvalue
  have hbefore' := fun i hi => hbefore i (Nat.zero_le i) hi
  have hspec : ∀ i ≤ j, _ := fun i hi => roundCount_spec hfit fun l hl => (hbefore' l (hl.trans_le hi)).2
  refine ⟨j, hbefore', hstop, ?_, ?_⟩
  · rw [value_adaptiveEstimate, hschedule]
  · rw [value_adaptiveEstimate, hschedule]
    constructor
    · exact fun i hi => integrate_eq_sumAt hab (hspec i hi).1 (hspec i hi).2.1
    · rfl
    · exact List.reverse_reverse _
    · simp [entries_succ]
    · simp [entries_succ]
    · cases j with
      | zero => rfl
      | succ j => simp [entries_succ, lastChange?]
    · exact fun i hi => roundCount_lt_succ hfit fun l hl => (hbefore' l (hl.trans hi)).2
    · exact fun hrule i hi => (hspec i hi).2.1 hrule

/-- Up to the last round the values that the rounds see decide what is accepted. -/
theorem isAcceptedRound_iff {k : ℕ} (hab : checkInterval a b = .ok ()) (hfit : rule.CountsFit s.initialCount)
    (hlast : ∀ i < k, ¬ IsLastRound rule s.initialCount i) :
    IsAcceptedRound f a b s rule k ↔ AcceptsAnswers rule s.epsilon (sumAt f a b rule) s.initialCount k := by
  have hvalue : ∀ i ≤ k, integrate f a b (roundCount rule s.initialCount i) rule =
      .ok (sumAt f a b rule (roundCount rule s.initialCount i)) := fun i hi => by
    obtain ⟨hpos, heven, -⟩ := roundCount_spec hfit fun l hl => hlast l (hl.trans_le hi)
    exact integrate_eq_sumAt hab hpos heven
  have hconfirmation : rule = .simpson → integrate f a b (roundCount rule s.initialCount k + 2) rule =
      .ok (sumAt f a b rule (roundCount rule s.initialCount k + 2)) := by
    rintro rfl
    obtain ⟨-, heven, hgrow⟩ := roundCount_spec hfit hlast
    have hadd : (roundCount .simpson s.initialCount k + 2).toNat = (roundCount .simpson s.initialCount k).toNat + 2 :=
      Rule.toNat_add_of_lt ((Rule.add_two_le_growNat_simpson (heven rfl)).trans_lt hgrow)
    refine integrate_eq_sumAt hab ?_ fun _ => ?_
    · rw [hadd]
      exact Nat.succ_pos _
    · rw [hadd]
      exact (heven rfl).add even_two
  constructor
  · rintro ⟨hk, before, value, hbefore, hnow, hchange, hconfirm⟩
    obtain rfl := Except.ok.inj ((hvalue (k - 1) (Nat.sub_le k 1)).symm.trans hbefore)
    obtain rfl := Except.ok.inj ((hvalue k le_rfl).symm.trans hnow)
    refine ⟨hk, hchange, fun hrule => ?_⟩
    obtain ⟨confirmation, hconfirmed, hclose⟩ := hconfirm hrule
    obtain rfl := Except.ok.inj ((hconfirmation hrule).symm.trans hconfirmed)
    exact hclose
  · rintro ⟨hk, hchange, hconfirm⟩
    exact ⟨hk, _, _, hvalue (k - 1) (Nat.sub_le k 1), hvalue k le_rfl, hchange,
      fun hrule => ⟨_, hconfirmation hrule, hconfirm hrule⟩⟩

/-- There is a last round. -/
theorem exists_isLast (rule : Rule) (n : UInt64) : ∃ last, IsLeast {k | IsLastRound rule n k} last := by
  have hexists : ∃ k, IsLastRound rule n k := ⟨rule.maxRounds, .inl (Nat.le_succ _)⟩
  classical
  exact ⟨Nat.find hexists, Nat.find_spec hexists, fun k hk => Nat.find_min' hexists hk⟩

/-- **One rule.** Its estimate ends with the first accepted round or the last round, whichever comes first. -/
theorem endsEarliest_adaptiveEstimate (hab : checkInterval a b = .ok ()) (hfit : rule.CountsFit s.initialCount) :
    EndsEarliest f a b s rule ((adaptiveEstimate a b s rule).value (Objective.line f).guarded) := by
  obtain ⟨j, hbefore, hstop, hconverged, hends⟩ := exists_endsWith (f := f) hab hfit
  obtain ⟨last, hlast⟩ := exists_isLast rule s.initialCount
  have hjlast : j ≤ last := Nat.le_of_not_lt fun hlt => (hbefore last hlt).2 hlast.1
  have haccepted : ∀ k ≤ last, IsAcceptedRound f a b s rule k ↔
      AcceptsAnswers rule s.epsilon (sumAt f a b rule) s.initialCount k := fun k hk =>
    isAcceptedRound_iff hab hfit fun i hi hilast => absurd (hlast.2 hilast) (by omega)
  refine ⟨last, fun i => sumAt f a b rule (roundCount rule s.initialCount i), hlast, ?_⟩
  by_cases haccept : AcceptsAnswers rule s.epsilon (sumAt f a b rule) s.initialCount j
  · refine .inl ⟨j, hjlast, ⟨(haccepted j hjlast).mpr haccept, fun k hk => ?_⟩, ?_, hends⟩
    · exact Nat.le_of_not_lt fun hlt => (hbefore k hlt).1 ((haccepted k (hlt.le.trans hjlast)).mp hk)
    · rw [hconverged, decide_eq_true haccept]
  · obtain rfl : j = last := le_antisymm hjlast (hlast.2 (hstop.resolve_left haccept))
    refine .inr ⟨fun first hfirst => Nat.lt_of_not_le fun hle => ?_, ?_, hends⟩
    · have hfirst' := (haccepted first hle).mp hfirst.1
      rcases Nat.eq_or_lt_of_le hle with rfl | hlt
      · exact haccept hfirst'
      · exact (hbefore first hlt).1 hfirst'
    · rw [hconverged, decide_eq_false haccept]

end Estimates

/-- **Where adaptive integration ends.** The estimate of each rule ends with its first accepted round, if no round before it
was the last one, and else with the last round. -/
theorem integrateAdaptive_earliest (f : α → α) (a b : α) (s : Settings α) (rules : List Rule)
    (hab : checkInterval a b = .ok ()) (hs : s.validate = .ok ()) (hfit : ∀ rule ∈ rules, rule.CountsFit s.initialCount) :
    ∃ es, integrateAdaptive f a b s rules .never = .ok es ∧ List.Forall₂ (EndsEarliest f a b s) rules es := by
  refine ⟨rules.map fun rule => (adaptiveEstimate a b s rule).value (Objective.line f).guarded, ?_, ?_⟩
  · rw [integrateAdaptive_eq hab hs, Search.runUnder_never, value_adaptiveEstimates]
    rfl
  · rw [List.forall₂_map_right_iff, List.forall₂_same]
    exact fun rule hrule => endsEarliest_adaptiveEstimate hab (hfit rule hrule)

/-- All rules end so on the squares from 0 to 3, with a tolerance of a hundredth and one subinterval to start with. -/
theorem integrateAdaptive_earliest_squares :
    let s : Settings ℚ := { epsilon := 1 / 100, initialCount := 1 }
    checkInterval (0 : ℚ) 3 = .ok () ∧ s.validate = .ok () ∧ (∀ rule ∈ Rule.all, rule.CountsFit s.initialCount) ∧
      ∃ es, integrateAdaptive (fun x => x * x) 0 3 s Rule.all .never = .ok es ∧
        List.Forall₂ (EndsEarliest (fun x => x * x) 0 3 s) Rule.all es := by
  intro s
  have hab : checkInterval (0 : ℚ) 3 = .ok () := by decide +kernel
  have hs : s.validate = .ok () := by decide +kernel
  have hfit : ∀ rule ∈ Rule.all, rule.CountsFit s.initialCount := by decide
  exact ⟨hab, hs, hfit, integrateAdaptive_earliest _ _ _ s _ hab hs hfit⟩

end Numerics.Integral
