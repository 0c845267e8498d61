import Numerics.Proofs.Extremum.NewtonVerdict
import Numerics.Proofs.Extremum.Rescue

/-!
# The best sample of a scan

A search that runs out of steps reports the best node of a scan.  In exact arithmetic the nodes are evenly spaced (`nodes_eq`),
so that the best of them has a number, the smallest one of a node where the function is lowest (`findMinimum_rescued`).
-/

namespace Numerics.Newton

open Query Scalar

variable {K : Type} [ExactArithmetic K] {s : Settings K} {f g : K → K} {r : Report K} {value : ℕ → K} {n i : ℕ}

/-- The node `i` of the scan. -/
def scanNode (s : Settings K) (i : ℕ) : K := s.a + i * (s.b - s.a) / 50

/-- The number is that of the first node with the smallest value, among those from 0 to `n` that have one. -/
structure IsBestNode (value : ℕ → K) (n i : ℕ) : Prop where
  le : i ≤ n
  defined : isDefined (value i) = true
  lowest : ∀ j ≤ n, isDefined (value j) = true → value i ≤ value j
  first : ∀ j < i, value j ≠ value i

/-- The last node is the end itself, whose number gives the same. -/
theorem nodes_eq (s : Settings K) : nodes s = (List.range 51).map (scanNode s) := by
  refine List.map_congr_left fun i _ => ?_
  unfold scanNode
  split
  · next hlast =>
    rw [hlast]
    norm_num [rescueSteps]
  · rw [mul_div_assoc, rescueSteps, Nat.cast_ofNat]

theorem scanNode_mem_nodes (s : Settings K) (hi : i ≤ 50) : scanNode s i ∈ nodes s := by
  rw [nodes_eq]
  exact List.mem_map_of_mem (List.mem_range.mpr (Nat.lt_succ_of_le hi))

/-- A number in the middle of a range has the smaller ones before it, and the larger ones after it. -/
theorem range_eq_append_cons {is js : List ℕ} (h : List.range n = is ++ i :: js) :
    i < n ∧ (∀ j < i, j ∈ is) ∧ ∀ j, i < j → j < n → j ∈ js := by
  rw [List.range_eq_range', List.range'_eq_append_iff] at h
  obtain ⟨k, hk, rfl, hrest⟩ := h
  obtain ⟨hi, hlt, rfl⟩ := List.range'_eq_cons_iff.mp hrest.symm
  simp only [List.mem_range'_1]
  refine ⟨by omega, fun j hj => by omega, fun j hj hlt => by omega⟩

/-- The best sample of a scan is that of the best node. -/
theorem exists_isBestNode {p : K × K} (h : Probe.lowest? ((nodes s).map fun x => (x, g x)) = some p) :
    ∃ i, p = (scanNode s i, g (scanNode s i)) ∧ IsBestNode (fun i => g (scanNode s i)) 50 i := by
  obtain ⟨before, after, hsplit, hdefined, hbefore, hafter⟩ := Probe.lowest?_spec h
  rw [nodes_eq, List.map_map] at hsplit
  obtain ⟨is, found, hrange, rfl, hfound⟩ := List.map_eq_append_iff.mp hsplit
  obtain ⟨i, js, rfl, rfl, rfl⟩ := List.map_eq_cons_iff.mp hfound
  obtain ⟨hi, hsmaller, hlarger⟩ := range_eq_append_cons hrange
  have hfirst : ∀ j < i, isDefined (g (scanNode s j)) = true → g (scanNode s i) < g (scanNode s j) := fun j hj =>
    hbefore _ (List.mem_map_of_mem (f := _ ∘ scanNode s) (hsmaller j hj))
  refine ⟨i, rfl, Nat.lt_succ_iff.mp hi, hdefined, fun j hj hvalue => ?_, fun j hj heq => ?_⟩
  · rcases lt_trichotomy j i with hlt | rfl | hgt
    · exact (hfirst j hlt hvalue).le
    · exact le_rfl
    · exact hafter _ (List.mem_map_of_mem (f := _ ∘ scanNode s) (hlarger j hgt (Nat.lt_succ_of_le hj))) hvalue
  · -- a node with the same value has one, and would not come first
    exact (hfirst j hj (heq ▸ hdefined)).ne' heq

theorem scanNode_zero (s : Settings K) : scanNode s 0 = s.a := by
  rw [scanNode, Nat.cast_zero, zero_mul, zero_div, add_zero]

/-- The node that a search reports, with the two cases of a scan that finds a value and of one that finds none. -/
theorem rescuePoint_spec (hg : ∀ x, IsAnswer (g x)) : ∃ i ≤ 50, rescuePoint s g = scanNode s i ∧
    ((∃ j ≤ 50, isDefined (g (scanNode s j)) = true) → IsBestNode (fun i => g (scanNode s i)) 50 i) ∧
    ((∀ j ≤ 50, isDefined (g (scanNode s j)) = false) → rescuePoint s g = s.a) := by
  rw [rescuePoint_eq hg, scanned]
  cases hlowest : Probe.lowest? ((nodes s).map fun x => (x, g x)) with
  | some p =>
    obtain ⟨i, rfl, hbest⟩ := exists_isBestNode hlowest
    refine ⟨i, hbest.le, rfl, fun _ => hbest, fun hnone => ?_⟩
    exact absurd hbest.defined (Bool.eq_false_iff.mp (hnone i hbest.le))
  | none =>
    refine ⟨0, Nat.zero_le _, (scanNode_zero s).symm, fun hsome => ?_, fun _ => rfl⟩
    obtain ⟨j, hj, hdefined⟩ := hsome
    have hnone := Probe.lowest?_eq_none hlowest _ (List.mem_map_of_mem (scanNode_mem_nodes s hj))
    exact absurd hdefined (Bool.eq_false_iff.mp hnone)

/-- The report of a scan whose best node has the number `i`. -/
structure IsScanReport (s : Settings K) (g : K → K) (r : Report K) (i : ℕ) : Prop where
  le : i ≤ 50
  point : r.point = [scanNode s i]
  value : r.value = g (scanNode s i)
  /-- The best node of a scan that finds a value is the first of the lowest ones, and not above the ends. -/
  best : (∃ j ≤ 50, isDefined (g (scanNode s j)) = true) →
    IsBestNode (fun i => g (scanNode s i)) 50 i ∧ r.value ≤ g s.a ∧ r.value ≤ g s.b
  /-- Without a value the point is the first end. -/
  undefined : (∀ j ≤ 50, isDefined (g (scanNode s j)) = false) → r.point = [s.a]

/-- **The best sample.** A search that runs out of steps reports the first of the nodes where the function is lowest, and the
first end if it has no value at any of them. -/
theorem findMinimum_rescued {f : K → K} (h : findMinimum f s = .ok r) (hrescued : isRescued r.status = true) :
    ∃ i, IsScanReport s (Objective.line f).guarded r i := by
  obtain ⟨n, x, status, hend, hr⟩ := findMinimum_isEnd (f := f) (checked_bind_eq_ok_iff.mp h).1
  obtain rfl := Except.ok.inj (hr.symm.trans h)
  change isRescued status = true at hrescued
  cases hend with
  | settled steps before last =>
    rw [(settled?_spec last).2.1] at hrescued
    cases hrescued
  | rescued never =>
    rw [value_rescue]
    have hg := isAnswer_guarded (Objective.line f)
    obtain ⟨i, hi, hpoint, hbest, hnone⟩ := rescuePoint_spec (s := s) hg
    exact ⟨i, {
      le := hi
      point := congrArg (fun x => [x]) hpoint
      value := congrArg (Objective.line f).guarded hpoint
      best := fun hsome => ⟨hbest hsome, value_rescuePoint_le hg a_mem_nodes, value_rescuePoint_le hg b_mem_nodes⟩
      undefined := fun hundefined => congrArg (fun x => [x]) (hnone hundefined) }⟩

/-- A function without values below 1 that is lowest at 2 and at 4. -/
def twoValleys (x : ℚ) : ℚ := if x < 1 then 10 ^ 306 else |(x - 2) * (x - 4)|

/-- The scan of a function with two lowest nodes and with nodes where it has no value. -/
theorem findMinimum_rescued_twoValleys : ∃ r, findMinimum twoValleys oneStep = .ok r ∧ isRescued r.status = true ∧
    ∃ i, IsScanReport oneStep (Objective.line twoValleys).guarded r i := by
  have hrun : (findMinimum twoValleys oneStep).toOption.any (fun r => isRescued r.status) = true := by decide +kernel
  obtain ⟨r, hr, hrescued⟩ := exists_of_toOption_any hrun
  exact ⟨r, hr, hrescued, findMinimum_rescued hr hrescued⟩

end Numerics.Newton
