import Mathlib.Algebra.BigOperators.Group.List.Basic
import Mathlib.Algebra.BigOperators.Ring.List
import Mathlib.Algebra.Order.Group.Nat
import Numerics.Integral.Sum
import Numerics.Proofs.Exact

/-!
# The samples of a rule

A composite rule asks for the values at its nodes, one after the other, and adds them up with its weights (`samples`).  Which
nodes these are holds for any numbers (`requests_compositeSum`), the sum for those in which addition is exact
(`value_weightedSum`).
-/

namespace Numerics.Integral

open Query Scalar

section Requests

variable {α : Type} [Scalar α] {rule : Rule} {a b : α} {n count i : ℕ} {node : ℕ → α} {g : α → α} {acc : α}

/-- The weights of a rule over `n` subintervals of `[a, b]` and its nodes, in the order in which the rule asks for them. -/
def samples (rule : Rule) (a b : α) (n : ℕ) : List (α × α) :=
  let h := (b - a) / (n : α)
  let node (i : ℕ) : α := a + (i : α) * h
  match rule with
  | .leftRectangles => (List.range n).map fun i => (h, node i)
  | .rightRectangles => (List.range n).map fun i => (h, node (i + 1))
  | .midpoints => (List.range n).map fun (i : ℕ) => (h, a + ((i : α) + half) * h)
  | .trapezoids => [(h * half, a), (h * half, b)] ++ (List.range (n - 1)).map fun i => (h, node (i + 1))
  | .simpson => ((List.range (n / 2)).map fun i => (h / 3 * 4, node (2 * i + 1))) ++
      ((List.range ((n - 1) / 2)).map fun i => (h / 3 * 2, node (2 * i + 2))) ++ [(h / 3, a), (h / 3, b)]

theorem requests_sumFrom : (sumFrom node i acc count).requests g = (List.range' i count).map node := by
  induction count generalizing i acc with
  | zero => rfl
  | succ count ih => exact congrArg (node i :: ·) ih

theorem requests_sumOver : (sumOver node count).requests g = (List.range count).map node := by
  rw [sumOver, requests_sumFrom, List.range_eq_range']

omit [Scalar α] in
theorem requests_request {x : α} : (request x : Query α α α).requests g = [x] := rfl

/-- **Nodes.** A rule asks for the values at its nodes. -/
theorem requests_weightedSum : (weightedSum rule a b n).requests g = (samples rule a b n).map (·.2) := by
  cases rule <;>
    simp only [weightedSum, samples, requests_bind, requests_sumOver, requests_request, pure_def, Query.requests,
      List.map_append, List.map_map, List.map_cons, List.map_nil, Function.comp_def, List.append_nil, List.append_assoc, List.cons_append,
      List.nil_append]

theorem requests_compositeSum {n : UInt64} :
    (compositeSum rule a b n).requests g = (samples rule a b n.toNat).map (·.2) := by
  rw [compositeSum, requests_bind, requests_weightedSum]
  exact List.append_nil _

end Requests

section Sums

variable {K : Type} [ExactArithmetic K] {rule : Rule} {a b : K} {n count i : ℕ} {node : ℕ → K} {g : K → K} {acc : K}

theorem value_sumFrom :
    (sumFrom node i acc count).value g = acc + ((List.range' i count).map fun i => g (node i)).sum := by
  induction count generalizing i acc with
  | zero => exact (add_zero acc).symm
  | succ count ih =>
    rw [List.range'_succ, List.map_cons, List.sum_cons, ← add_assoc]
    exact ih

theorem value_sumOver : (sumOver node count).value g = ((List.range count).map fun i => g (node i)).sum := by
  rw [sumOver, value_sumFrom, List.range_eq_range', Exact.zero_eq]
  exact (congrArg (· + _) neg_zero).trans (zero_add _)

/-- **Sums.** A rule adds up the values at its nodes, times their weights. -/
theorem value_weightedSum : (weightedSum rule a b n).value g = ((samples rule a b n).map fun s => s.1 * g s.2).sum := by
  cases rule with
  | leftRectangles | rightRectangles | midpoints =>
    simp only [weightedSum, samples, value_bind, value_sumOver, pure_def, Query.value, List.map_map, Function.comp_def,
      List.sum_map_mul_left]
  | trapezoids | simpson =>
    simp only [weightedSum, samples, value_bind, value_sumOver, request, pure_def, Query.value, List.map_append, List.map_map,
      List.map_cons, List.map_nil, List.sum_append, List.sum_cons, List.sum_nil, Function.comp_def, List.sum_map_mul_left]
    ring

/-- The nodes of a rule lie in the interval. -/
theorem mem_of_mem_samples {s : K × K} (hab : a ≤ b) (hs : s ∈ samples rule a b n) : a ≤ s.2 ∧ s.2 ≤ b := by
  have hnode : ∀ i ≤ n, a ≤ a + (i : K) * ((b - a) / n) ∧ a + (i : K) * ((b - a) / n) ≤ b :=
    fun i hi => Exact.steps_mem hab i.cast_nonneg (Nat.cast_le.mpr hi)
  cases rule <;> simp only [samples, List.mem_append, List.mem_map, List.mem_range, List.mem_cons, List.not_mem_nil, or_false] at hs
  case leftRectangles =>
    obtain ⟨i, hi, rfl⟩ := hs
    exact hnode i hi.le
  case rightRectangles =>
    obtain ⟨i, hi, rfl⟩ := hs
    exact hnode (i + 1) hi
  case midpoints =>
    obtain ⟨i, hi, rfl⟩ := hs
    have hi' : (i : K) + 1 ≤ n := by exact_mod_cast hi
    rw [Exact.half_eq]
    exact Exact.steps_mem hab (by positivity) (by linarith)
  case trapezoids =>
    rcases hs with (rfl | rfl) | ⟨i, hi, rfl⟩
    · exact ⟨le_rfl, hab⟩
    · exact ⟨hab, le_rfl⟩
    · exact hnode (i + 1) (by omega)
  case simpson =>
    rcases hs with (⟨i, hi, rfl⟩ | ⟨i, hi, rfl⟩) | rfl | rfl
    · exact hnode (2 * i + 1) (by omega)
    · exact hnode (2 * i + 2) (by omega)
    · exact ⟨le_rfl, hab⟩
    · exact ⟨hab, le_rfl⟩

end Sums

end Numerics.Integral
