import Mathlib.Logic.Function.Iterate
import Mathlib.Order.Basic
import Numerics.Report

/-!
# Searches that narrow a bracket

What the loops of these searches have in common: a loop that goes on while its bracket is wide ends after a number of steps
(`exists_iterate_of_loop`), its history has a record of each of them (`Trace.getElem?_reverse_of_steps`), and the report tells
whether the last bracket was narrow (`Status.isSettled_iff`).
-/

namespace Numerics

/-- **Loops.** A loop that makes steps while its state is wide, a number of them at most, ends with the first state that is not
wide, or with the state after all of them. -/
theorem exists_iterate_of_loop {σ : Type} (wide : σ → Prop) [DecidablePred wide] {next : σ → σ} (loop : ℕ → σ → σ)
    (hzero : ∀ s, loop 0 s = s) (hsucc : ∀ fuel s, loop (fuel + 1) s = if wide s then loop fuel (next s) else s)
    (fuel : ℕ) (s : σ) :
    ∃ n, loop fuel s = next^[n] s ∧ (∀ i < n, wide (next^[i] s)) ∧ (n = fuel ∨ n < fuel ∧ ¬ wide (next^[n] s)) := by
  induction fuel generalizing s with
  | zero => exact ⟨0, hzero s, fun i hi => absurd hi (Nat.not_lt_zero i), .inl rfl⟩
  | succ fuel ih =>
    rw [hsucc]
    split
    · next hwide =>
      obtain ⟨n, hend, hbefore, hlast⟩ := ih (next s)
      refine ⟨n + 1, hend, fun i hi => ?_, hlast.imp (congrArg (· + 1)) (And.imp_left Nat.succ_lt_succ)⟩
      cases i with
      | zero => exact hwide
      | succ i => exact hbefore i (Nat.lt_of_succ_lt_succ hi)
    · next hnarrow => exact ⟨0, rfl, fun i hi => absurd hi (Nat.not_lt_zero i), .inr ⟨Nat.succ_pos fuel, hnarrow⟩⟩

/-- **Histories.** Steps that add one record each leave a history with the record of each step. -/
theorem Trace.getElem?_reverse_of_steps {α : Type} (trace : ℕ → Trace α) {p : ℕ → Record α → Prop} (hstart : trace 0 = [])
    (hstep : ∀ k, ∃ record, trace (k + 1) = record :: trace k ∧ p k record) (n : ℕ) :
    (trace n).reverse.length = n ∧ ∀ k < n, ∃ record, (trace n).reverse[k]? = some record ∧ p k record := by
  induction n with
  | zero => exact ⟨by rw [hstart]; rfl, fun k hk => absurd hk (Nat.not_lt_zero k)⟩
  | succ n ih =>
    obtain ⟨hlength, hrecords⟩ := ih
    obtain ⟨record, htrace, hrecord⟩ := hstep n
    rw [htrace, List.reverse_cons]
    refine ⟨by rw [List.length_append, hlength, List.length_singleton], fun k hk => ?_⟩
    rcases Nat.lt_succ_iff_lt_or_eq.mp hk with hlt | rfl
    · rw [List.getElem?_append_left (hlt.trans_eq hlength.symm)]
      exact hrecords k hlt
    · exact ⟨record, by rw [List.getElem?_append_right (Nat.le_of_eq hlength), hlength, Nat.sub_self]; rfl, hrecord⟩

/-- The status that tells whether the last bracket is narrow is a settled one if it is. -/
theorem Status.isSettled_iff {narrow : Prop} [Decidable narrow] :
    ((if narrow then Status.converged else .iterationLimit) == .converged ||
      (if narrow then Status.converged else .iterationLimit) == .localMinimum) = true ↔ narrow := by
  by_cases h : narrow
  · simp [h]
  · simp [h]

end Numerics
