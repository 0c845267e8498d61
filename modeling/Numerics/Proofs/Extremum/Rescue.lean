import Mathlib.Order.Interval.Set.Basic
import Mathlib.Tactic.Positivity
import Numerics.Extremum.Newton
import Numerics.Proofs.Answers
import Numerics.Proofs.Exact

/-!
# The scan that ends a search without a verdict

A search that runs out of steps reports the best of the ends and of the samples of a scan (`rescuePoint`), with a verdict of
its own (`value_rescue`).  A left fold that keeps the lower of two samples ends with the first of the lowest ones
(`isFirstLowest_foldl`).  In exact arithmetic the ends, which are nodes too, are never better than that sample
(`rescuePoint_eq`), so that the point is a node of the scan, and the function has a value there unless it has none at any node
(`undefined_rescuePoint`).
-/

namespace Numerics

open Query Scalar

/-! ### The lowest sample -/

namespace Probe

variable {α : Type} [Scalar α] {p q : α × α} {samples : List (α × α)}

theorem lower_eq_or (p q : α × α) : lower p q = p ∨ lower p q = q := by
  unfold lower
  split
  · exact .inr rfl
  · exact .inl rfl

theorem foldl_lower_mem (p : α × α) (samples : List (α × α)) : samples.foldl lower p ∈ p :: samples := by
  induction samples generalizing p with
  | nil => exact List.mem_singleton.mpr rfl
  | cons q samples ih =>
    rcases List.mem_cons.mp (ih (lower p q)) with heq | hmem
    · rw [List.foldl_cons, heq]
      rcases lower_eq_or p q with hp | hq
      · rw [hp]
        exact List.mem_cons_self
      · rw [hq]
        exact List.mem_cons_of_mem _ List.mem_cons_self
    · exact List.mem_cons_of_mem _ (List.mem_cons_of_mem _ hmem)

/-- The lowest sample is one of those with a value. -/
theorem lowest?_mem (h : lowest? samples = some p) : p ∈ samples ∧ isDefined p.2 = true := by
  unfold lowest? at h
  split at h
  · cases h
  · next first rest hfilter =>
    have hmem := foldl_lower_mem first rest
    rw [← hfilter, Option.some.inj h] at hmem
    exact List.mem_filter.mp hmem

theorem lowest?_eq_none (h : lowest? samples = none) : ∀ p ∈ samples, isDefined p.2 = false := by
  unfold lowest? at h
  split at h
  · next hfilter =>
    intro p hp
    exact Bool.eq_false_iff.mpr (List.filter_eq_nil_iff.mp hfilter p hp)
  · cases h

theorem value_scanMinimum (g : α → α) (a b : α) (n : ℕ) :
    (scanMinimum a b n).value g = lowest? ((scanInputs a b (max n 1)).map fun x => (x, g x)) := by
  unfold scanMinimum
  rw [value_bind, value_collect, List.map_prod_left_eq_zip]
  rfl

end Probe

/-! ### The first of the lowest samples -/

namespace Probe

variable {K : Type} [ExactArithmetic K] {p q : K × K} {samples : List (K × K)}

/-- The sample is the first of those with the smallest value: all before it have a larger one. -/
def IsFirstLowest (samples : List (K × K)) (p : K × K) : Prop :=
  ∃ before after, samples = before ++ p :: after ∧ (∀ q ∈ before, p.2 < q.2) ∧ ∀ q ∈ after, p.2 ≤ q.2

theorem IsFirstLowest.le (h : IsFirstLowest samples p) (hq : q ∈ samples) : p.2 ≤ q.2 := by
  obtain ⟨before, after, rfl, hbefore, hafter⟩ := h
  rcases List.mem_append.mp hq with hq | hq
  · exact (hbefore q hq).le
  · rcases List.mem_cons.mp hq with rfl | hq
    · exact le_rfl
    · exact hafter q hq

/-- A higher sample in front changes nothing. -/
theorem IsFirstLowest.cons_of_lt (h : IsFirstLowest samples p) (hq : p.2 < q.2) : IsFirstLowest (q :: samples) p := by
  obtain ⟨before, after, rfl, hbefore, hafter⟩ := h
  exact ⟨q :: before, after, rfl, List.forall_mem_cons.mpr ⟨hq, hbefore⟩, hafter⟩

/-- A sample that is not lower than the one before it changes nothing. -/
theorem IsFirstLowest.insert {r : K × K} (h : IsFirstLowest (q :: samples) p) (hr : q.2 ≤ r.2) :
    IsFirstLowest (q :: r :: samples) p := by
  obtain ⟨before, after, heq, hbefore, hafter⟩ := h
  cases before with
  | nil =>
    obtain ⟨rfl, rfl⟩ := List.cons.inj heq
    exact ⟨[], r :: samples, rfl, List.forall_mem_nil _, List.forall_mem_cons.mpr ⟨hr, hafter⟩⟩
  | cons q' before =>
    obtain ⟨rfl, rfl⟩ := List.cons.inj heq
    obtain ⟨hq, hbefore⟩ := List.forall_mem_cons.mp hbefore
    refine ⟨q :: r :: before, after, rfl, ?_, hafter⟩
    exact List.forall_mem_cons.mpr ⟨hq, List.forall_mem_cons.mpr ⟨hq.trans_le hr, hbefore⟩⟩

/-- Zeros have no signs in exact arithmetic, so that only smaller numbers precede. -/
theorem lower_eq : lower p q = if q.2 < p.2 then q else p := by
  have hprecedes : precedes q.2 p.2 = decide (q.2 < p.2) := by
    by_cases hlt : q.2 < p.2
    · simp [precedes, hlt]
    · by_cases hgt : p.2 < q.2
      · simp [precedes, hlt, hgt]
      · simp [precedes, le_antisymm (not_lt.mp hlt) (not_lt.mp hgt)]
  unfold lower
  simp [hprecedes]

/-- **The lowest sample.** Keeping the lower of two samples leaves the first of the lowest ones. -/
theorem isFirstLowest_foldl (p : K × K) (samples : List (K × K)) :
    IsFirstLowest (p :: samples) (samples.foldl lower p) := by
  induction samples generalizing p with
  | nil => exact ⟨[], [], rfl, List.forall_mem_nil _, List.forall_mem_nil _⟩
  | cons q samples ih =>
    rw [List.foldl_cons, lower_eq]
    -- the lower one of the first two samples stands for both
    split_ifs with hq
    · exact (ih q).cons_of_lt (((ih q).le List.mem_cons_self).trans_lt hq)
    · exact (ih p).insert (not_lt.mp hq)

/-- The sample that a scan finds is the first of the lowest ones with a value. -/
theorem lowest?_spec (h : lowest? samples = some p) : ∃ before after, samples = before ++ p :: after ∧
    isDefined p.2 = true ∧ (∀ q ∈ before, isDefined q.2 = true → p.2 < q.2) ∧
      ∀ q ∈ after, isDefined q.2 = true → p.2 ≤ q.2 := by
  unfold lowest? at h
  split at h
  · cases h
  · next first rest hfilter =>
    obtain ⟨before, after, hsplit, hbefore, hafter⟩ := isFirstLowest_foldl first rest
    rw [Option.some.inj h] at hsplit hbefore hafter
    rw [← hfilter] at hsplit
    obtain ⟨before₁, found, rfl, rfl, hfound⟩ := List.filter_eq_append_iff.mp hsplit
    obtain ⟨before₂, after', rfl, hnone, hdefined, rfl⟩ := List.filter_eq_cons_iff.mp hfound
    refine ⟨before₁ ++ before₂, after', by rw [List.append_assoc], hdefined, ?_, ?_⟩
    · intro q hq hvalue
      rcases List.mem_append.mp hq with hq | hq
      · exact hbefore q (List.mem_filter.mpr ⟨hq, hvalue⟩)
      · exact absurd hvalue (hnone q hq)
    · exact fun q hq hvalue => hafter q (List.mem_filter.mpr ⟨hq, hvalue⟩)

theorem lowest?_le (h : lowest? samples = some p) (hq : q ∈ samples) (hdefined : isDefined q.2 = true) : p.2 ≤ q.2 := by
  obtain ⟨before, after, rfl, -, hbefore, hafter⟩ := lowest?_spec h
  rcases List.mem_append.mp hq with hq | hq
  · exact (hbefore q hq hdefined).le
  · rcases List.mem_cons.mp hq with rfl | hq
    · exact le_rfl
    · exact hafter q hq hdefined

end Probe

namespace Newton

section Rescue

variable {α : Type} [Scalar α] {s : Settings α} {g : α → α}

/-- The nodes of the scan. -/
def nodes (s : Settings α) : List α := Probe.scanInputs s.a s.b rescueSteps

/-- The lowest sample of the scan, the first end if no sample has a value. -/
def scanned (s : Settings α) (g : α → α) : α × α := (Probe.lowest? ((nodes s).map fun x => (x, g x))).getD (s.a, g s.a)

/-- The point that a search reports when it runs out of steps. -/
def rescuePoint (s : Settings α) (g : α → α) : α :=
  if g s.a < (scanned s g).2 && g s.a < g s.b then s.a
  else if g s.b < (scanned s g).2 && g s.b < g s.a then s.b
  else (scanned s g).1

/-- **The verdict of the scan.** It asks for slope and curvature, and not for the ends. -/
theorem value_rescue : (rescue s).value g = (rescuePoint s g,
    decide (Scalar.abs ((derivatives (rescuePoint s g)).value g).first < s.epsilon ∧
      0 < ((derivatives (rescuePoint s g)).value g).second)) := by
  have hscan : (Probe.scanMinimum s.a s.b rescueSteps).value g =
      Probe.lowest? ((nodes s).map fun x => (x, g x)) := Probe.value_scanMinimum g s.a s.b rescueSteps
  unfold rescue
  rw [value_bind, value_bind, value_bind, hscan]
  change (firstDerivative (rescuePoint s g) >>= fun slope => if Scalar.abs slope < s.epsilon then
    secondDerivative (rescuePoint s g) >>= fun curvature => done (rescuePoint s g, decide (0 < curvature))
    else done (rescuePoint s g, false)).value g = _
  have hfirst : (firstDerivative (rescuePoint s g)).value g = ((derivatives (rescuePoint s g)).value g).first := rfl
  rw [value_bind, hfirst]
  split
  · next hflat =>
    rw [value_bind, ← decide_eq_decide.mpr (and_iff_right hflat)]
    rfl
  · next hsteep =>
    rw [decide_eq_false fun h => hsteep h.1]
    rfl

/-- What the scan finds is a node with a value, unless there is none. -/
theorem scanned_spec (s : Settings α) (g : α → α) :
    ((scanned s g).1 ∈ nodes s ∧ (scanned s g).2 = g (scanned s g).1 ∧ isDefined (g (scanned s g).1) = true) ∨
      (scanned s g = (s.a, g s.a) ∧ ∀ x ∈ nodes s, isDefined (g x) = false) := by
  unfold scanned
  cases hlowest : Probe.lowest? ((nodes s).map fun x => (x, g x)) with
  | some p =>
    obtain ⟨hmem, hdefined⟩ := Probe.lowest?_mem hlowest
    obtain ⟨x, hx, rfl⟩ := List.mem_map.mp hmem
    exact .inl ⟨hx, rfl, hdefined⟩
  | none => exact .inr ⟨rfl, fun x hx => Probe.lowest?_eq_none hlowest _ (List.mem_map_of_mem hx)⟩

end Rescue

/-! ### Exact arithmetic -/

section Exact

variable {K : Type} [ExactArithmetic K] {s : Settings K} {g : K → K} {x : K}

theorem mem_nodes_iff : x ∈ nodes s ↔
    ∃ i ≤ rescueSteps, x = s.a + (i : K) * ((s.b - s.a) / (rescueSteps : K)) := by
  have hsteps : (rescueSteps : K) ≠ 0 := Nat.cast_ne_zero.mpr (by decide)
  have hlast : s.b = s.a + (rescueSteps : K) * ((s.b - s.a) / (rescueSteps : K)) := by
    rw [mul_div_cancel₀ _ hsteps]
    ring
  have hnode : ∀ i : ℕ, (if i = rescueSteps then s.b else s.a + (i : K) * ((s.b - s.a) / (rescueSteps : K))) =
      s.a + (i : K) * ((s.b - s.a) / (rescueSteps : K)) := by
    intro i
    split
    · next h => rw [h, ← hlast]
    · rfl
  unfold nodes Probe.scanInputs
  rw [List.mem_map]
  constructor
  · rintro ⟨i, hi, rfl⟩
    exact ⟨i, Nat.lt_succ_iff.mp (List.mem_range.mp hi), hnode i⟩
  · rintro ⟨i, hi, rfl⟩
    exact ⟨i, List.mem_range.mpr (Nat.lt_succ_of_le hi), hnode i⟩

/-- The nodes lie in the interval, and both ends are among them. -/
theorem nodes_mem (hab : s.a ≤ s.b) (hx : x ∈ nodes s) : x ∈ Set.Icc s.a s.b := by
  obtain ⟨i, hi, rfl⟩ := mem_nodes_iff.mp hx
  have hsteps : (0 : K) < (rescueSteps : K) := Nat.cast_pos.mpr (by decide)
  have hstep : 0 ≤ (s.b - s.a) / (rescueSteps : K) := div_nonneg (sub_nonneg.mpr hab) hsteps.le
  have hle : (i : K) * ((s.b - s.a) / (rescueSteps : K)) ≤ (rescueSteps : K) * ((s.b - s.a) / (rescueSteps : K)) :=
    mul_le_mul_of_nonneg_right (Nat.cast_le.mpr hi) hstep
  rw [mul_div_cancel₀ _ hsteps.ne'] at hle
  exact ⟨le_add_of_nonneg_right (mul_nonneg (Nat.cast_nonneg i) hstep), by linarith⟩

theorem a_mem_nodes : s.a ∈ nodes s := by
  refine mem_nodes_iff.mpr ⟨0, Nat.zero_le _, ?_⟩
  rw [Nat.cast_zero, zero_mul, add_zero]

theorem b_mem_nodes : s.b ∈ nodes s :=
  List.mem_map.mpr ⟨rescueSteps, List.mem_range.mpr (Nat.lt_succ_self _), if_pos rfl⟩

/-- The point that a search reports when it runs out of steps is a node of the scan. -/
theorem rescuePoint_mem_nodes (s : Settings K) (g : K → K) : rescuePoint s g ∈ nodes s := by
  unfold rescuePoint
  split
  · exact a_mem_nodes
  split
  · exact b_mem_nodes
  · rcases scanned_spec s g with ⟨hmem, -⟩ | ⟨hscanned, -⟩
    · exact hmem
    · rw [hscanned]
      exact a_mem_nodes

/-- No value is above the sentinel. -/
theorem not_undefined_lt {v : K} (h : IsAnswer v) : ¬ Scalar.undefined < v := by
  rcases h with hdefined | rfl
  · exact not_lt.mpr ((le_abs_self v).trans (Exact.isDefined_iff.mp hdefined).le)
  · exact lt_irrefl _

theorem scanned_value (s : Settings K) (g : K → K) : (scanned s g).2 = g (scanned s g).1 := by
  rcases scanned_spec s g with ⟨-, hvalue, -⟩ | ⟨hscanned, -⟩
  · exact hvalue
  · rw [hscanned]

/-- No node is better than what the scan finds, not even one whose value is the sentinel. -/
theorem scanned_le (hg : ∀ x, IsAnswer (g x)) (hx : x ∈ nodes s) : (scanned s g).2 ≤ g x := by
  rcases hg x with hdefined | hundefined
  · cases hlowest : Probe.lowest? ((nodes s).map fun x => (x, g x)) with
    | some p =>
      rw [scanned, hlowest]
      exact Probe.lowest?_le hlowest (List.mem_map_of_mem hx) hdefined
    | none =>
      have hnone := Probe.lowest?_eq_none hlowest _ (List.mem_map_of_mem hx)
      exact absurd hdefined (Bool.eq_false_iff.mp hnone)
  · rw [hundefined, scanned_value]
    exact not_lt.mp (not_undefined_lt (hg _))

/-- The ends are nodes too, so that the search reports what the scan finds. -/
theorem rescuePoint_eq (hg : ∀ x, IsAnswer (g x)) : rescuePoint s g = (scanned s g).1 := by
  unfold rescuePoint
  rw [decide_eq_false (scanned_le hg a_mem_nodes).not_gt, decide_eq_false (scanned_le hg b_mem_nodes).not_gt]
  rfl

theorem value_rescuePoint_le (hg : ∀ x, IsAnswer (g x)) (hx : x ∈ nodes s) : g (rescuePoint s g) ≤ g x := by
  rw [rescuePoint_eq hg, ← scanned_value s g]
  exact scanned_le hg hx

/-- **Scans without a value.** The function has a value at the point unless it has none at any node; then the point is the
first end. -/
theorem undefined_rescuePoint (hg : ∀ x, IsAnswer (g x)) (h : isDefined (g (rescuePoint s g)) = false) :
    rescuePoint s g = s.a ∧ ∀ x ∈ nodes s, isDefined (g x) = false := by
  rw [rescuePoint_eq hg] at h ⊢
  rcases scanned_spec s g with ⟨-, -, hdefined⟩ | ⟨hscanned, hnone⟩
  · exact absurd hdefined (Bool.eq_false_iff.mp h)
  · exact ⟨congrArg Prod.fst hscanned, hnone⟩

end Exact

end Newton

end Numerics
