import Mathlib.Order.Nat
import Numerics.Proofs.Execution
import Numerics.Proofs.Outcome

/-!
# Runs that a signal stops

A run under a signal differs from one without it in the checkpoints only, and all that the signal tells there is how often
the objective has been called (`Objective.checks`).  The run ends without a result if the signal is set at one of the
checkpoints that the free run comes to, and else with the result of the free run (`Objective.execute_eq`).
-/

namespace Numerics

variable {ι α β γ : Type} [Scalar α]

namespace Query

omit [Scalar α] in
theorem bind_assoc {δ : Type} (q : Query ι α β) (k : β → Query ι α γ) (l : γ → Query ι α δ) :
    (q >>= k) >>= l = q >>= fun b => k b >>= l := by
  induction q with
  | done b => rfl
  | ask x next ih => exact congrArg (ask x) (funext ih)
  | checkpoint next ih => exact congrArg checkpoint ih

omit [Scalar α] in
theorem expand_ask {κ δ : Type} (answer : ι → Query κ δ α) (x : ι) (next : α → Query ι α β) :
    (ask x next).expand answer = answer x >>= fun v => (next v).expand answer := rfl

omit [Scalar α] in
/-- Answering requests by computations goes through the parts of a computation. -/
theorem expand_bind {κ δ : Type} (answer : ι → Query κ δ α) (q : Query ι α β) (k : β → Query ι α γ) :
    (q >>= k).expand answer = q.expand answer >>= fun b => (k b).expand answer := by
  induction q with
  | done b => rfl
  | ask x next ih =>
    rw [ask_bind, expand_ask, expand_ask, bind_assoc]
    exact congrArg (answer x >>= ·) (funext ih)
  | checkpoint next ih => exact congrArg checkpoint ih

end Query

namespace Objective

/-- How often a free run calls the objective. -/
def calls (o : Objective ι α) (q : Query ι α β) : ℕ := (q.requests o.guarded).countP o.admits

/-- How often the objective has been called when a free run comes to each of its checkpoints, after `before` calls. -/
def checks (o : Objective ι α) (before : ℕ) : Query ι α β → List ℕ
  | .done _ => []
  | .ask x next => o.checks (if o.admits x then before + 1 else before) (next (o.guarded x))
  | .checkpoint next => before :: o.checks before next

variable {o : Objective ι α} {before c : ℕ} {q : Query ι α β} {k : β → Query ι α γ}

/-! ### Calls -/

@[simp] theorem calls_done (b : β) : o.calls (.done b : Query ι α β) = 0 := rfl

theorem calls_ask (x : ι) (next : α → Query ι α β) :
    o.calls (.ask x next) = o.calls (next (o.guarded x)) + if o.admits x then 1 else 0 := List.countP_cons

@[simp] theorem calls_checkpoint (next : Query ι α β) : o.calls (.checkpoint next) = o.calls next := rfl

@[simp] theorem calls_bind : o.calls (q >>= k) = o.calls q + o.calls (k (q.value o.guarded)) := by
  simp only [calls, Query.requests_bind, List.countP_append]

/-! ### Checkpoints -/

@[simp] theorem checks_done (b : β) : o.checks before (.done b : Query ι α β) = [] := rfl

@[simp] theorem checks_checkpoint (next : Query ι α β) :
    o.checks before (.checkpoint next) = before :: o.checks before next := rfl

/-- A request that the objective answers moves the checkpoints behind it by one call. -/
theorem checks_ask (x : ι) (next : α → Query ι α β) : o.checks before (.ask x next) =
    o.checks (before + if o.admits x then 1 else 0) (next (o.guarded x)) := by
  rw [checks]
  split <;> rfl

@[simp] theorem checks_bind : o.checks before (q >>= k) =
    o.checks before q ++ o.checks (before + o.calls q) (k (q.value o.guarded)) := by
  induction q generalizing before with
  | done b => rfl
  | ask x next ih =>
    rw [Query.ask_bind, checks_ask, checks_ask, ih, calls_ask, Query.value]
    congr 2
    omega
  | checkpoint next ih =>
    rw [Query.checkpoint_bind, checks_checkpoint, checks_checkpoint, ih, List.cons_append, calls_checkpoint, Query.value]

theorem checks_countedFrom (n : ℕ) : o.checks before (q.countedFrom n) = o.checks before q := by
  induction q generalizing before n with
  | done b => rfl
  | ask x next ih => rw [Query.countedFrom, checks_ask, checks_ask, ih]
  | checkpoint next ih => rw [Query.countedFrom, checks_checkpoint, checks_checkpoint, ih]

/-- Counting requests adds no checkpoint. -/
@[simp] theorem checks_counted : o.checks before q.counted = o.checks before q := checks_countedFrom 0

@[simp] theorem calls_counted : o.calls q.counted = o.calls q := by
  rw [calls, Query.requests_counted, calls]

theorem le_of_mem_checks (h : c ∈ o.checks before q) : before ≤ c ∧ c ≤ before + o.calls q := by
  induction q generalizing before with
  | done b => cases h
  | ask x next ih =>
    rw [checks_ask] at h
    obtain ⟨hle, hge⟩ := ih _ h
    rw [calls_ask]
    omega
  | checkpoint next ih =>
    rw [checks_checkpoint, List.mem_cons] at h
    rcases h with rfl | h
    · exact ⟨Nat.le_refl _, Nat.le_add_right _ _⟩
    · exact ih h

/-- Calls are never taken back. -/
theorem pairwise_checks : (o.checks before q).Pairwise (· ≤ ·) := by
  induction q generalizing before with
  | done b => exact .nil
  | ask x next ih =>
    rw [checks_ask]
    exact ih _
  | checkpoint next ih => exact .cons (fun c hc => (le_of_mem_checks hc).1) ih

theorem mono_of_checks_eq {n i j : ℕ} {h : ℕ → ℕ} (hchecks : o.checks before q = (List.range n).map h) (hij : i ≤ j)
    (hj : j < n) : h i ≤ h j := by
  have hsorted : (o.checks before q).Pairwise (· ≤ ·) := o.pairwise_checks
  rw [hchecks, List.pairwise_map, List.pairwise_iff_getElem] at hsorted
  rcases Nat.eq_or_lt_of_le hij with rfl | hlt
  · exact Nat.le_refl _
  · have hle := hsorted i j (by simpa using Nat.lt_trans hlt hj) (by simpa using hj) hlt
    rwa [List.getElem_range, List.getElem_range] at hle

/-! ### Loops -/

section Loops

variable {σ ρ : Type} {loop : ℕ → σ → Query ι α ρ} {step : σ → Query ι α (ρ ⊕ σ)} {made : σ → ℕ} {total : ρ → ℕ}

/-- A loop with a checkpoint before each of its steps and none in them.  A step ends the loop or comes to another state;
`made` and `total` tell how many steps have been made. -/
structure IsCheckedLoop (o : Objective ι α) (loop : ℕ → σ → Query ι α ρ) (step : σ → Query ι α (ρ ⊕ σ)) (made : σ → ℕ)
    (total : ρ → ℕ) : Prop where
  exhausted : ∀ s, ∃ r, loop 0 s = .done r ∧ total r = made s
  unfolds : ∀ fuel s, loop (fuel + 1) s = .checkpoint (step s >>= Sum.elim .done (loop fuel))
  checks_step : ∀ before s, o.checks before (step s) = []
  counts : ∀ s, Sum.elim total made ((step s).value o.guarded) = made s + 1

theorem IsCheckedLoop.lt_of_forall_le (h : IsCheckedLoop o loop step made total) {fuel : ℕ}
    (hle : ∀ next, made next ≤ total ((loop fuel next).value o.guarded)) (s : σ) :
    made s < total ((loop (fuel + 1) s).value o.guarded) := by
  have hcounts := h.counts s
  rw [h.unfolds, Query.value, Query.value_bind]
  cases hnext : (step s).value o.guarded with
  | inl r =>
    rw [hnext] at hcounts
    exact hcounts.ge
  | inr next =>
    rw [hnext] at hcounts
    exact hcounts.ge.trans (hle next)

theorem IsCheckedLoop.made_le (h : IsCheckedLoop o loop step made total) (fuel : ℕ) (s : σ) :
    made s ≤ total ((loop fuel s).value o.guarded) := by
  induction fuel generalizing s with
  | zero =>
    obtain ⟨r, hr, htotal⟩ := h.exhausted s
    rw [hr]
    exact htotal.ge
  | succ fuel ih => exact (h.lt_of_forall_le ih s).le

theorem IsCheckedLoop.made_lt (h : IsCheckedLoop o loop step made total) (fuel : ℕ) (s : σ) :
    made s < total ((loop (fuel + 1) s).value o.guarded) := h.lt_of_forall_le (h.made_le fuel) s

/-- **Checkpoints of a loop.** The one before a step comes after the calls of the loop that is limited to the steps before. -/
theorem IsCheckedLoop.checks_eq (h : IsCheckedLoop o loop step made total) (fuel : ℕ) (s : σ) :
    o.checks before (loop fuel s) =
      (List.range (total ((loop fuel s).value o.guarded) - made s)).map fun i => before + o.calls (loop i s) := by
  have hzero : ∀ s, o.calls (loop 0 s) = 0 := by
    intro s
    obtain ⟨r, hr, -⟩ := h.exhausted s
    rw [hr, calls_done]
  induction fuel generalizing before s with
  | zero =>
    obtain ⟨r, hr, htotal⟩ := h.exhausted s
    rw [hr, Query.value, htotal, Nat.sub_self]
    rfl
  | succ fuel ih =>
    have hcounts := h.counts s
    have hcalls : ∀ i, o.calls (loop (i + 1) s) =
        o.calls (step s) + o.calls (Sum.elim .done (loop i) ((step s).value o.guarded)) := by
      intro i
      rw [h.unfolds, calls_checkpoint, calls_bind]
    rw [h.unfolds, checks_checkpoint, checks_bind, h.checks_step, List.nil_append, Query.value, Query.value_bind]
    cases hnext : (step s).value o.guarded with
    | inl r =>
      rw [hnext] at hcounts
      change before :: [] = (List.range (total r - made s)).map _
      rw [show total r = made s + 1 from hcounts, Nat.add_sub_cancel_left, List.range_one, List.map_singleton, hzero]
      rfl
    | inr next =>
      rw [hnext] at hcounts hcalls
      change before :: o.checks _ (loop fuel next) = (List.range (total ((loop fuel next).value o.guarded) - made s)).map _
      have hmade : made next = made s + 1 := hcounts
      have hle := h.made_le fuel next
      have htotal : total ((loop fuel next).value o.guarded) - made s =
          total ((loop fuel next).value o.guarded) - made next + 1 := by omega
      rw [ih, htotal, List.range_succ_eq_map, List.map_cons, List.map_map, hzero]
      congr 1
      refine List.map_congr_left fun i _ => ?_
      rw [Function.comp_apply, hcalls, Sum.elim_inr, Nat.add_assoc]

end Loops

/-! ### Runs -/

/-- **Runs under a signal.** The signal matters at the checkpoints that the free run comes to, and only there. -/
theorem execute_eq (stop : StopSignal) : o.execute stop before q =
    if (o.checks before q).any stop.isSet then none else some (q.value o.guarded) := by
  induction q generalizing before with
  | done b => rfl
  | ask x next ih =>
    rw [execute, checks]
    split
    · next h => rw [ih, Query.value, guarded, if_pos h]
    · next h => rw [ih, Query.value, guarded, if_neg h]
  | checkpoint next ih =>
    rw [execute, checks_checkpoint, List.any_cons]
    cases stop.isSet before with
    | true => rfl
    | false => exact ih

end Objective

namespace Search

variable {o : Objective ι α} {s : Query ι α (Outcome α β)} {stop : StopSignal}

theorem runUnder_of_not_set (h : ∀ c ∈ o.checks 0 s, stop.isSet c = false) : runUnder s o stop = s.value o.guarded := by
  have hany : (o.checks 0 s).any stop.isSet = false := List.any_eq_false.mpr fun c hc => by rw [h c hc]; exact nofun
  rw [runUnder, Objective.execute_eq, hany]
  rfl

theorem runUnder_eq_or : runUnder s o stop = s.value o.guarded ∨ runUnder s o stop = .error .cancelled := by
  rw [runUnder, Objective.execute_eq]
  split
  · exact .inr rfl
  · exact .inl rfl

theorem runUnder_eq_cancelled_iff (h : s.value o.guarded ≠ .error .cancelled) :
    runUnder s o stop = .error .cancelled ↔ ∃ c ∈ o.checks 0 s, stop.isSet c = true := by
  rw [runUnder, Objective.execute_eq, ← List.any_eq_true]
  split
  · next hset => exact iff_of_true rfl hset
  · next hset => exact iff_of_false h hset

/-- Counting the requests of a search adds no checkpoint. -/
@[simp] theorem checks_counted (before : ℕ) (s : Query ι α (Outcome α (Report α))) :
    o.checks before (counted s) = o.checks before s := by
  rw [counted, Objective.checks_bind, Objective.checks_counted]
  exact List.append_nil _

omit [Scalar α] in
/-- The number of requests goes into the report. -/
theorem value_counted (g : ι → α) (s : Query ι α (Outcome α (Report α))) :
    (counted s).value g = (s.value g).map fun r => { r with evaluations := (s.requests g).length } := by
  rw [counted, Query.value_bind, Query.value_counted]
  rfl

/-- A search whose arguments are checked first succeeds if they pass and it does; the number of its requests goes into the
report. -/
theorem checked_run_eq_ok_iff {x y : Except (InputError α) Unit} {s : Query ι α (Outcome α (Report α))} {r : Report α} :
    (checked x >>= fun _ => checked y >>= fun _ => run (counted s) o) = .ok r ↔ x = .ok () ∧ y = .ok () ∧
      ∃ r', s.value o.guarded = .ok r' ∧ { r' with evaluations := (s.requests o.guarded).length } = r := by
  rw [checked_bind_eq_ok_iff, checked_bind_eq_ok_iff, run, value_counted, map_eq_ok_iff]

end Search

end Numerics
