import Mathlib.Data.Nat.Notation
import Numerics.Proofs.Outcome
import Numerics.Search

/-!
# Computations in lock step

Two computations go in lock step if they ask for the same inputs and come to the same checkpoints, whatever the answers are,
where the second one is given the image of each answer that the first one is given (`Query.LockStep`).  So runs of them on two
objectives, one of which has the images of the other's values, stop at the same checkpoint or end with related results
(`LockStep.execute`).
-/

namespace Numerics

variable {ι α β β' γ γ' : Type} {m : α → α} {k : β → β'} {l : γ → γ'}

namespace Query

/-- The second computation, given `m v` for each answer `v` that the first one is given, asks for the same and ends with `k b`
where the first one ends with `b`. -/
inductive LockStep (m : α → α) (k : β → β') : Query ι α β → Query ι α β' → Prop where
  | done (b : β) : LockStep m k (.done b) (.done (k b))
  | ask (x : ι) {next : α → Query ι α β} {next' : α → Query ι α β'} (h : ∀ v, LockStep m k (next v) (next' (m v))) :
      LockStep m k (.ask x next) (.ask x next')
  | checkpoint {next : Query ι α β} {next' : Query ι α β'} (h : LockStep m k next next') :
      LockStep m k (.checkpoint next) (.checkpoint next')

variable {q : Query ι α β} {q' : Query ι α β'} {next : β → Query ι α γ} {next' : β' → Query ι α γ'}

theorem lockStep_request (x : ι) : LockStep m m (request x) (request x) := .ask x fun v => .done v

theorem LockStep.refl (q : Query ι α β) : LockStep id id q q := by
  induction q with
  | done b => exact .done b
  | ask x next ih => exact .ask x ih
  | checkpoint next ih => exact .checkpoint ih

theorem LockStep.to_done {b : β} {b' : β'} (h : k b = b') : LockStep m k (.done b : Query ι α β) (.done b') := h ▸ .done b

theorem LockStep.bind (h : LockStep m k q q') (hnext : ∀ b, LockStep m l (next b) (next' (k b))) :
    LockStep m l (q >>= next) (q' >>= next') := by
  induction h with
  | done b => exact hnext b
  | ask x h ih => exact .ask x ih
  | checkpoint h ih => exact .checkpoint ih

/-- Requests for one input, and related computations on the answers. -/
theorem LockStep.request (x : ι) {next : α → Query ι α γ} {next' : α → Query ι α γ'}
    (h : ∀ v, LockStep m l (next v) (next' (m v))) :
    LockStep m l (Query.request x >>= next) (Query.request x >>= next') :=
  (lockStep_request x).bind h

theorem lockStep_collectAfter (answers : List α) (xs : List ι) :
    LockStep m (List.map m) (collectAfter answers xs) (collectAfter (answers.map m) xs) := by
  induction xs generalizing answers with
  | nil =>
    rw [collectAfter, collectAfter, ← List.map_reverse]
    exact .done _
  | cons x xs ih => exact .ask x fun v => ih (v :: answers)

theorem lockStep_collect (xs : List ι) : LockStep m (List.map m) (collect xs) (collect xs) := lockStep_collectAfter [] xs

theorem LockStep.countedFrom (h : LockStep m k q q') (n : ℕ) :
    LockStep m (Prod.map k id) (q.countedFrom n) (q'.countedFrom n) := by
  induction h generalizing n with
  | done b => exact .done (b, n)
  | ask x h ih => exact .ask x fun v => ih v (n + 1)
  | checkpoint h ih => exact .checkpoint (ih n)

theorem LockStep.counted (h : LockStep m k q q') : LockStep m (Prod.map k id) q.counted q'.counted := h.countedFrom 0

theorem LockStep.value (h : LockStep m k q q') (g : ι → α) : q'.value (fun x => m (g x)) = k (q.value g) := by
  induction h with
  | done b => rfl
  | ask x h ih => exact ih (g x)
  | checkpoint h ih => exact ih

end Query

open Query

variable [Scalar α] {o o' : Objective ι α}

/-- The second objective admits the same inputs as the first one, and has the images of its values there. -/
structure Objective.IsImage (m : α → α) (o o' : Objective ι α) : Prop where
  admits : ∀ x, o'.admits x = o.admits x
  sanitize : ∀ x, sanitize (o'.value x) = m (sanitize (o.value x))
  undefined : m Scalar.undefined = Scalar.undefined

theorem Objective.IsImage.guarded (h : IsImage m o o') : o'.guarded = fun x => m (o.guarded x) := by
  funext x
  unfold Objective.guarded
  rw [h.admits]
  split
  · exact h.sanitize x
  · exact h.undefined.symm

theorem Query.LockStep.execute {q : Query ι α β} {q' : Query ι α β'} (h : LockStep m k q q') (ho : o.IsImage m o')
    (stop : StopSignal) (calls : ℕ) : o'.execute stop calls q' = (o.execute stop calls q).map k := by
  induction h generalizing calls with
  | done b => rfl
  | ask x h ih =>
    unfold Objective.execute
    rw [ho.admits]
    split
    · rw [ho.sanitize]
      exact ih _ _
    · have hundefined := ih Scalar.undefined calls
      rwa [ho.undefined] at hundefined
  | checkpoint h ih =>
    unfold Objective.execute
    split
    · rfl
    · exact ih calls

/-! ### Searches -/

namespace Search

variable {f : Report α → Report α} {s s' : Query ι α (Outcome α (Report α))}

omit [Scalar α] in
theorem lockStep_error (e : RunError α) :
    LockStep m (Except.map f) (.done (.error e) : Query ι α (Outcome α (Report α))) (.done (.error e)) :=
  .to_done rfl

omit [Scalar α] in
theorem lockStep_report {r r' : Report α} (h : f r = r') :
    LockStep m (Except.map f) (.done (.ok r) : Query ι α (Outcome α (Report α))) (.done (.ok r')) :=
  .to_done (congrArg Except.ok h)

omit [Scalar α] in
theorem lockStep_counted (h : LockStep m (Except.map f) s s')
    (hf : ∀ r n, f { r with evaluations := n } = { f r with evaluations := n }) :
    LockStep m (Except.map f) (counted s) (counted s') := by
  refine h.counted.bind fun ⟨outcome, requests⟩ => ?_
  cases outcome with
  | error e => exact lockStep_error e
  | ok r => exact lockStep_report (hf r requests)

theorem lockStep_runUnder (h : LockStep m (Except.map f) s s') (ho : o.IsImage m o') (stop : StopSignal) :
    runUnder s' o' stop = (runUnder s o stop).map f := by
  rw [runUnder, runUnder, h.execute ho]
  cases o.execute stop 0 s <;> rfl

end Search

end Numerics
