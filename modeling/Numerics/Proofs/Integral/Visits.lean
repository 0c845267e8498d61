import Mathlib.Data.List.Forall2
import Numerics.Proofs.Integral.Panels
import Numerics.Proofs.Integral.SizeCap
import Numerics.Proofs.Interruption

/-!
# Visits to nodes

A rule visits each of its nodes once, in an order of its own (`Rule.visits_perm`), so that the counts of its sums tell how many
values were asked for.  In exact arithmetic the nodes are different ones (`pairwise_nodes`).  The history of an adaptive run has
the counts of all sums but those that were to confirm a value of Simpson's rule; and these were computed for the entries that are
within the tolerance of the one before (`evaluations_rounds`).
-/

namespace Numerics

open Query Scalar

/-! ### Nodes -/

namespace Rule

variable {α : Type} [Scalar α] {rule : Rule} {n : ℕ}

/-- The number of nodes of a rule over `n` subintervals. -/
def nodeCount (rule : Rule) (n : ℕ) : ℕ :=
  match rule with
  | trapezoids | simpson => n + 1
  | _ => n

/-- The indices of the nodes, from that of the left end on or, for right rectangles, from the next one on. -/
def nodeIndices (rule : Rule) (n : ℕ) : List ℕ :=
  match rule with
  | rightRectangles => List.range' 1 (rule.nodeCount n)
  | _ => List.range (rule.nodeCount n)

/-- The node with the index `i`.  A rule that has both ends of the interval for nodes takes them as they are. -/
def nodeAt (rule : Rule) (a b : α) (n i : ℕ) : α :=
  let h := (b - a) / (n : α)
  match rule with
  | midpoints => a + ((i : α) + half) * h
  | trapezoids | simpson => if i = 0 then a else if i = n then b else a + (i : α) * h
  | _ => a + (i : α) * h

/-- The indices of the nodes in the order in which the rule visits them. -/
def visits (rule : Rule) (n : ℕ) : List ℕ :=
  match rule with
  | leftRectangles | midpoints => List.range n
  | rightRectangles => (List.range n).map (· + 1)
  | trapezoids => [0, n] ++ (List.range (n - 1)).map (· + 1)
  | simpson => (List.range (n / 2)).map (2 * · + 1) ++ (List.range ((n - 1) / 2)).map (2 * · + 2) ++ [0, n]

theorem length_nodeIndices : (rule.nodeIndices n).length = rule.nodeCount n := by
  cases rule with
  | rightRectangles => exact List.length_range'
  | _ => exact List.length_range

theorem pairwise_nodeIndices : (rule.nodeIndices n).Pairwise (· < ·) := by
  cases rule with
  | rightRectangles => exact List.pairwise_lt_range'
  | _ => exact List.pairwise_lt_range

/-- Both ends, and the nodes between them. -/
theorem ends_append_perm (m : ℕ) : ([0, m + 1] ++ (List.range m).map (· + 1)).Perm (List.range (m + 2)) := by
  have hrange : List.range (m + 2) = 0 :: ((List.range m).map (· + 1) ++ [m + 1]) := by
    rw [List.range_succ_eq_map, List.range_succ, List.map_append]
    rfl
  rw [hrange]
  exact .cons 0 (List.perm_append_singleton _ _).symm

theorem map_range_succ (f : ℕ → ℕ) (m : ℕ) : (List.range (m + 1)).map f = (List.range m).map f ++ [f m] := by
  rw [List.range_succ, List.map_append, List.map_singleton]

/-- A pass over the odd indices and one over the even ones come to all of them. -/
theorem odds_append_evens_perm (m : ℕ) :
    ((List.range m).map (2 * · + 1) ++ (List.range m).map (2 * · + 2)).Perm ((List.range (2 * m)).map (· + 1)) := by
  induction m with
  | zero => exact .nil
  | succ m ih =>
    have hmiddle : ((List.range m).map (2 * · + 1) ++ [2 * m + 1] ++ ((List.range m).map (2 * · + 2) ++ [2 * m + 2])).Perm
        ((List.range m).map (2 * · + 1) ++ (List.range m).map (2 * · + 2) ++ [2 * m + 1, 2 * m + 2]) := by
      simp only [List.append_assoc, List.singleton_append]
      exact .append_left _ List.perm_middle.symm
    rw [Nat.mul_succ, map_range_succ, map_range_succ, map_range_succ, map_range_succ, List.append_assoc _ [_] [_]]
    exact hmiddle.trans (ih.append_right _)

/-- **Visits.** A rule visits each of its nodes once. -/
theorem visits_perm (hn : 0 < n) (heven : rule = .simpson → Even n) : (rule.visits n).Perm (rule.nodeIndices n) := by
  cases rule with
  | leftRectangles | midpoints => exact .refl _
  | rightRectangles =>
    rw [visits, nodeIndices, List.range'_eq_map_range]
    simp only [Nat.add_comm 1]
    exact .refl _
  | trapezoids =>
    obtain ⟨m, rfl⟩ := Nat.exists_eq_succ_of_ne_zero hn.ne'
    exact ends_append_perm m
  | simpson =>
    obtain ⟨k, rfl⟩ := (heven rfl).two_dvd
    obtain ⟨m, rfl⟩ := Nat.exists_eq_succ_of_ne_zero (Nat.pos_of_mul_pos_left hn).ne'
    have hodds : 2 * (m + 1) / 2 = m + 1 := by omega
    have hevens : (2 * (m + 1) - 1) / 2 = m := by omega
    have hindices : simpson.nodeIndices (2 * (m + 1)) = 0 :: (List.range (2 * (m + 1))).map (· + 1) :=
      List.range_succ_eq_map ..
    -- the pass over the even indices ends before the right end, which is visited at last
    have hinner := odds_append_evens_perm (m + 1)
    rw [map_range_succ (2 * · + 2), ← List.append_assoc] at hinner
    rw [Nat.succ_eq_add_one, hindices, visits, hodds, hevens]
    exact List.perm_middle.trans (.cons 0 hinner)

end Rule

namespace Integral

section Sums

variable {α : Type} [Scalar α] {rule : Rule} {a b : α} {n : ℕ} {g : α → α}

/-- The nodes of a sum are those with the indices that the rule visits. -/
theorem nodes_samples (hn : 0 < n) : (samples rule a b n).map (·.2) = (rule.visits n).map (rule.nodeAt a b n) := by
  have hinner : ∀ i, 0 < i → i < n → (if i = 0 then a else if i = n then b else a + (i : α) * ((b - a) / (n : α))) =
      a + (i : α) * ((b - a) / (n : α)) := by
    intro i hpos hlt
    rw [if_neg hpos.ne', if_neg hlt.ne]
  cases rule with
  | leftRectangles | midpoints | rightRectangles =>
    simp only [samples, Rule.visits, List.map_map, Function.comp_def]
    rfl
  | trapezoids =>
    simp only [samples, Rule.visits, Rule.nodeAt, List.map_append, List.map_map, List.map_cons, List.map_nil, Function.comp_def,
      if_true, hn.ne', if_false]
    refine congrArg ([a, b] ++ ·) (List.map_congr_left fun i hi => ?_)
    rw [List.mem_range] at hi
    exact (hinner (i + 1) (Nat.succ_pos i) (by omega)).symm
  | simpson =>
    simp only [samples, Rule.visits, Rule.nodeAt, List.map_append, List.map_map, List.map_cons, List.map_nil, Function.comp_def,
      if_true, hn.ne', if_false]
    congr 2
    · refine List.map_congr_left fun i hi => ?_
      rw [List.mem_range] at hi
      exact (hinner (2 * i + 1) (Nat.succ_pos _) (by omega)).symm
    · refine List.map_congr_left fun i hi => ?_
      rw [List.mem_range] at hi
      exact (hinner (2 * i + 2) (Nat.succ_pos _) (by omega)).symm

/-- **Sums.** The sum of a rule asks for the value at each of its nodes once. -/
theorem requests_compositeSum_perm {n : UInt64} (hn : 0 < n.toNat) (heven : rule = .simpson → Even n.toNat) :
    ((compositeSum rule a b n).requests g).Perm ((rule.nodeIndices n.toNat).map (rule.nodeAt a b n.toNat)) := by
  rw [requests_compositeSum, nodes_samples hn]
  exact (Rule.visits_perm hn heven).map _

theorem length_requests_compositeSum {n : UInt64} (hn : 0 < n.toNat) (heven : rule = .simpson → Even n.toNat) :
    ((compositeSum rule a b n).requests g).length = rule.nodeCount n.toNat := by
  rw [(requests_compositeSum_perm hn heven).length_eq, List.length_map, Rule.length_nodeIndices]

end Sums

section Exact

variable {K : Type} [ExactArithmetic K] {rule : Rule} {a b : K} {n i : ℕ}

/-- In exact arithmetic the ends of the interval are where the steps come to. -/
theorem nodeAt_eq (hn : 0 < n) :
    rule.nodeAt a b n i = a + (i + if rule = .midpoints then 1 / 2 else 0) * ((b - a) / n) := by
  cases rule with
  | midpoints => exact congrArg (fun offset => a + (i + offset) * ((b - a) / n)) Exact.half_eq
  | leftRectangles | rightRectangles =>
    rw [if_neg nofun, add_zero]
    rfl
  | trapezoids | simpson =>
    rw [if_neg nofun, add_zero, Rule.nodeAt]
    split_ifs with hfirst hlast
    · rw [hfirst, start_zero]
    · rw [hlast, start_last hn]
    · rfl

/-- In exact arithmetic a rule has its nodes from left to right, so that they are different ones. -/
theorem pairwise_nodes (hab : a < b) (hn : 0 < n) :
    ((rule.nodeIndices n).map (rule.nodeAt a b n)).Pairwise (· < ·) := by
  have hwidth : 0 < (b - a) / (n : K) := div_pos (sub_pos.mpr hab) (Nat.cast_pos.mpr hn)
  have hnode : ∀ {offset : K} {i j : ℕ}, i < j → a + (i + offset) * ((b - a) / n) < a + (j + offset) * ((b - a) / n) := by
    intro offset i j hij
    have hcast : (i : K) < j := Nat.cast_lt.mpr hij
    gcongr
  rw [List.pairwise_map]
  refine Rule.pairwise_nodeIndices.imp fun {i j} hij => ?_
  rw [nodeAt_eq hn, nodeAt_eq hn]
  exact hnode hij

end Exact

/-! ### Histories -/

section Histories

variable {α : Type} [Scalar α] {rule : Rule} {a b epsilon value : α} {g : α → α} {answer : UInt64 → α} {n : UInt64}
  {history : List (UInt64 × α)} {fuel : ℕ}

/-- The counts of the entries after the first one whose values are within the tolerance of the ones before. -/
def settledCounts (epsilon : α) (history : List (UInt64 × α)) : List UInt64 :=
  ((history.zip history.tail).filter fun pair => Scalar.abs (pair.2.2 - pair.1.2) ≤ epsilon).map fun pair => pair.2.1

/-- The values that a rule asks for on the way to a history: those at the nodes of its sums, and for Simpson's rule those at the
nodes of the sums with two subintervals more that are to confirm a value. -/
def evaluationsOf (rule : Rule) (epsilon : α) (history : List (UInt64 × α)) : ℕ :=
  (history.map fun entry => rule.nodeCount entry.1.toNat).sum +
    if rule = .simpson then ((settledCounts epsilon history).map fun n => n.toNat + 3).sum else 0

theorem evaluationsOf_nil : evaluationsOf rule epsilon [] = 0 := by cases rule <;> rfl

omit [Scalar α] in
theorem zip_tail_concat {β : Type} (xs : List β) (x y : β) :
    (xs ++ [x] ++ [y]).zip (xs ++ [x] ++ [y]).tail = (xs ++ [x]).zip (xs ++ [x]).tail ++ [(x, y)] := by
  have hlength : xs.length = (xs ++ [x]).tail.length := by simp
  have htail : (xs ++ [x] ++ [y]).tail = (xs ++ [x]).tail ++ [y] := List.tail_append_of_ne_nil (by simp)
  have hzip : (xs ++ [x]).zip ((xs ++ [x]).tail ++ []) = xs.zip (xs ++ [x]).tail := by
    rw [List.zip_append hlength, List.zip_nil_right, List.append_nil]
  rw [List.append_nil] at hzip
  rw [htail, List.append_assoc, List.zip_append hlength, hzip]
  rfl

/-- An entry more counts if its value has hardly changed. -/
theorem settledCounts_cons :
    settledCounts epsilon ((n, value) :: history).reverse = settledCounts epsilon history.reverse ++
      if (change? history value).any (· ≤ epsilon) then [n] else [] := by
  cases history with
  | nil => rfl
  | cons entry history =>
    simp only [settledCounts, List.reverse_cons, zip_tail_concat, List.filter_append, List.map_append]
    refine congrArg (_ ++ ·) ?_
    rw [List.filter_cons, List.filter_nil]
    change (if decide (Scalar.abs (value - entry.2) ≤ epsilon) = true then _ else _ : List _).map _ =
      if decide (Scalar.abs (value - entry.2) ≤ epsilon) = true then _ else _
    split <;> rfl

theorem length_sumInputs {counts : List UInt64} :
    (sumInputs a b rule counts).length = (counts.map fun n => ((compositeSum rule a b n).requests g).length).sum := by
  rw [sumInputs, List.length_flatMap]
  simp only [requests_compositeSum]

/-- An entry more: the rule has asked for the values at the nodes of its sum, and of the one that was to confirm its value. -/
theorem evaluationsOf_cons (hpos : 0 < n.toNat) (heven : rule = .simpson → Even n.toNat)
    (hfit : rule.growNat n.toNat < 2 ^ 64) :
    evaluationsOf rule epsilon ((n, value) :: history).reverse = evaluationsOf rule epsilon history.reverse +
      (sumInputs a b rule (n :: confirmations rule epsilon n (change? history value))).length := by
  have hsum : ((compositeSum rule a b n).requests id).length = rule.nodeCount n.toNat :=
    length_requests_compositeSum hpos heven
  rw [length_sumInputs (g := id), List.map_cons, List.sum_cons, hsum, evaluationsOf, evaluationsOf, settledCounts_cons]
  simp only [List.reverse_cons, List.map_append, List.sum_append, List.map_cons, List.map_nil, List.sum_cons, List.sum_nil]
  unfold confirmations
  by_cases hrule : rule = .simpson
  · subst hrule
    have hadd : (n + 2).toNat = n.toNat + 2 :=
      Rule.toNat_add_of_lt ((Rule.add_two_le_growNat_simpson (heven rfl)).trans_lt hfit)
    have hconfirmation : ((compositeSum .simpson a b (n + 2)).requests id).length = n.toNat + 3 := by
      rw [length_requests_compositeSum (by omega) fun _ => hadd ▸ (heven rfl).add even_two, hadd]
      rfl
    cases (change? history value).any (· ≤ epsilon) with
    | true =>
      simp only [if_true, true_and, List.map_cons, List.map_nil, List.sum_cons, List.sum_nil, hconfirmation]
      omega
    | false =>
      simp only [if_true, true_and, Bool.false_eq_true, if_false, List.map_nil, List.sum_nil]
      omega
  · simp only [hrule, if_false, false_and, List.map_nil, List.sum_nil]
    omega

/-- **Rounds.** The values that the rounds ask for are those on the way to the history that they leave, less those on the way to
the one that they start with. -/
theorem evaluations_rounds (hpos : 0 < n.toNat) (heven : rule = .simpson → Even n.toNat)
    (hfit : rule.growNat n.toNat < 2 ^ 64) :
    evaluationsOf rule epsilon ((rounds rule epsilon fuel n history).value answer).1.reverse =
      evaluationsOf rule epsilon history.reverse +
        (sumInputs a b rule ((rounds rule epsilon fuel n history).requests answer)).length := by
  induction fuel generalizing n history with
  | zero => rfl
  | succ fuel ih =>
    have hround : evaluationsOf rule epsilon ((n, answer n) :: history).reverse = _ + (sumInputs a b rule _).length :=
      evaluationsOf_cons hpos heven hfit
    rw [requests_rounds_succ, value_rounds_succ, requests_accepts, sumInputs, List.flatMap_append, List.length_append,
      ← Nat.add_assoc]
    change _ = _ + (sumInputs a b rule _).length + (sumInputs a b rule _).length
    rw [← hround]
    split_ifs with haccepted hlast
    · rfl
    · rfl
    · -- the next count is within the cap, so that there is room for the one after it
      have hcap : (rule.grow n).toNat ≤ rule.cap.toNat := UInt64.le_iff_toNat_le.mp (UInt64.not_lt.mp hlast)
      refine ih ?_ ?_ (Rule.growNat_lt_word hcap)
      · rw [Rule.toNat_grow hfit]
        exact hpos.trans Rule.lt_growNat
      · rintro rfl
        exact Rule.even_grow_simpson (heven rfl)

end Histories

/-! ### Estimates -/

section Estimates

variable {α : Type} [Scalar α] {f : α → α} {a b : α} {s : Settings α} {rule : Rule} {rules : List Rule} {n : UInt64}

/-- The sum of a rule asks for the values at its nodes, in an order of its own, and for each of them once. -/
def VisitsNodes (f : α → α) (rule : Rule) (a b : α) (n : UInt64) : Prop :=
  ((compositeSum rule a b n).requests (Objective.line f).guarded).Perm
    ((rule.nodeIndices n.toNat).map (rule.nodeAt a b n.toNat))

/-- The estimate of a rule with a given count tells how many nodes there are. -/
theorem evaluations_fixedEstimate (hn : 0 < n.toNat) (hfit : rule.fixedNat n.toNat < 2 ^ 64) :
    let e := (fixedEstimate a b n rule).value (Objective.line f).guarded
    e.n = rule.fixedCount n ∧ VisitsNodes f rule a b e.n ∧ e.evaluations = rule.nodeCount e.n.toNat := by
  have heq : (rule.fixedCount n).toNat = rule.fixedNat n.toNat := Rule.toNat_fixedCount hfit
  have hpos : 0 < (rule.fixedCount n).toNat := heq ▸ Rule.fixedNat_pos hn
  have heven : rule = .simpson → Even (rule.fixedCount n).toNat := heq ▸ Rule.even_fixedNat
  unfold fixedEstimate
  rw [value_bind, value_counted]
  exact ⟨rfl, requests_compositeSum_perm hpos heven, length_requests_compositeSum hpos heven⟩

/-- The estimate of an adaptive run counts all values on the way to its history. -/
theorem evaluations_adaptiveEstimate (hfit : rule.CountsFit s.initialCount) :
    let e := (adaptiveEstimate a b s rule).value (Objective.line f).guarded
    e.evaluations = evaluationsOf rule s.epsilon e.history := by
  obtain ⟨hpos, heven, hgrow⟩ := roundCount_spec (k := 0) hfit nofun
  intro e
  have he : e = (adaptiveEstimate a b s rule).value (Objective.line f).guarded := rfl
  rw [value_adaptiveEstimate] at he
  have hhistory : e.history = ((schedule s rule).value (sumAt f a b rule)).1.reverse := congrArg Estimate.history he
  have hevaluations : e.evaluations = (sumInputs a b rule ((schedule s rule).requests (sumAt f a b rule))).length := by
    rw [length_sumInputs (g := (Objective.line f).guarded), ← List.length_flatMap, he, requests_expand]
    rfl
  have hrun : evaluationsOf rule s.epsilon ((schedule s rule).value (sumAt f a b rule)).1.reverse =
      evaluationsOf rule s.epsilon [] + (sumInputs a b rule ((schedule s rule).requests (sumAt f a b rule))).length :=
    evaluations_rounds hpos heven hgrow
  rw [hhistory, hevaluations, hrun, evaluationsOf_nil, Nat.zero_add]

/-- **Visits to nodes.** The sum of a rule with a given count, if that is a word, visits each node once, and the estimate tells
how many there are.  An adaptive run, if it is not stopped, tells how many values it has asked for on the way to its history. -/
theorem integrals_visit_nodes (f : α → α) (rules : List Rule) {a b : α} (hab : checkInterval a b = .ok ()) :
    (∀ n : UInt64, 0 < n.toNat → (∀ rule ∈ rules, rule.fixedNat n.toNat < 2 ^ 64) →
      (∀ rule ∈ rules, VisitsNodes f rule a b (rule.fixedCount n) ∧ integrate f a b n rule =
        .ok ((compositeSum rule a b (rule.fixedCount n)).value (Objective.line f).guarded)) ∧
      ∃ es, integrateFixed f a b n rules = .ok es ∧
        List.Forall₂ (fun rule (e : Estimate α) => e.n = rule.fixedCount n ∧ e.n.toNat = rule.fixedNat n.toNat ∧
          e.evaluations = rule.nodeCount e.n.toNat) rules es) ∧
    ∀ s : Settings α, s.validate = .ok () → (∀ rule ∈ rules, rule.CountsFit s.initialCount) →
      ∃ es, integrateAdaptive f a b s rules .never = .ok es ∧
        (∀ stop, integrateAdaptive f a b s rules stop = .ok es ∨ integrateAdaptive f a b s rules stop = .error .cancelled) ∧
        List.Forall₂ (fun rule (e : Estimate α) => e.evaluations = evaluationsOf rule s.epsilon e.history) rules es := by
  constructor
  · intro n hn hfit
    have hestimate := fun rule hrule => evaluations_fixedEstimate (f := f) (a := a) (b := b) hn (hfit rule hrule)
    refine ⟨fun rule hrule => ⟨?_, integrate_eq_sumAt_fixedCount hab hn⟩, _, integrateFixed_eq hab hn, ?_⟩
    · obtain ⟨hcount, hvisits, -⟩ := hestimate rule hrule
      exact hcount ▸ hvisits
    · rw [List.forall₂_map_right_iff, List.forall₂_same]
      intro rule hrule
      obtain ⟨hcount, -, hevaluations⟩ := hestimate rule hrule
      exact ⟨hcount, hcount ▸ Rule.toNat_fixedCount (hfit rule hrule), hevaluations⟩
  · intro s hs hfit
    have hvalue := value_adaptiveEstimates (f := f) (a := a) (b := b) (s := s) [] rules
    rw [List.reverse_nil, List.nil_append] at hvalue
    refine ⟨rules.map fun rule => (adaptiveEstimate a b s rule).value (Objective.line f).guarded, ?_, fun stop => ?_, ?_⟩
    · rw [integrateAdaptive_eq hab hs, Search.runUnder_never, hvalue]
    · rw [integrateAdaptive_eq hab hs, ← hvalue]
      exact Search.runUnder_eq_or
    · rw [List.forall₂_map_right_iff, List.forall₂_same]
      exact fun rule hrule => evaluations_adaptiveEstimate (hfit rule hrule)

/-- All rules on the squares from 0 to 3: Simpson's rule makes four of three subintervals, and asks for six more to confirm the
value with four. -/
theorem integrals_visit_nodes_squares :
    let f : ℚ → ℚ := fun x => x * x
    let s : Settings ℚ := { epsilon := 1 / 100, initialCount := 1 }
    let e := (adaptiveEstimate 0 3 s .simpson).value (Objective.line f).guarded
    checkInterval (0 : ℚ) 3 = .ok () ∧ s.validate = .ok () ∧ (∀ rule ∈ Rule.all, rule.CountsFit s.initialCount) ∧
      (∀ rule ∈ Rule.all, rule.fixedNat (3 : UInt64).toNat < 2 ^ 64) ∧ VisitsNodes f .simpson 0 3 4 ∧
      e.history = [(2, 9), (4, 9)] ∧ e.evaluations = 3 + 5 + 7 ∧
      ∃ es, integrateAdaptive f 0 3 s Rule.all .never = .ok es ∧
        List.Forall₂ (fun rule (e : Estimate ℚ) => e.evaluations = evaluationsOf rule s.epsilon e.history) Rule.all es := by
  intro f s e
  have hab : checkInterval (0 : ℚ) 3 = .ok () := by decide +kernel
  have hs : s.validate = .ok () := by decide +kernel
  have hfit : ∀ rule ∈ Rule.all, rule.CountsFit s.initialCount := by decide
  have hfixed : ∀ rule ∈ Rule.all, rule.fixedNat (3 : UInt64).toNat < 2 ^ 64 := by decide
  obtain ⟨hgiven, hadaptive⟩ := integrals_visit_nodes f Rule.all hab
  obtain ⟨es, hrun, -, hes⟩ := hadaptive s hs hfit
  have hfour : Rule.simpson.fixedCount 3 = 4 := by decide
  have hvisits := ((hgiven 3 (by decide) hfixed).1 .simpson (by decide)).1
  rw [hfour] at hvisits
  exact ⟨hab, hs, hfit, hfixed, hvisits, by decide +kernel, by decide +kernel, es, hrun, hes⟩

end Estimates

end Integral

end Numerics
