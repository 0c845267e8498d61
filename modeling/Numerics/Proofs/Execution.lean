import Numerics.Search

/-!
# Runs that nothing stops

Arguments that pass their checks let a method run, and without a signal a run is the value of its computation on the guarded
values of the objective.
-/

namespace Numerics

variable {ι α β : Type} [Scalar α]

omit [Scalar α] in
@[simp] theorem checked_ok : checked (.ok () : Except (InputError α) Unit) = .ok () := rfl

omit [Scalar α] in
/-- A checked argument gives way to the rest. -/
theorem checked_bind_eq_ok_iff {check : Except (InputError α) Unit} {x : Outcome α β} {b : β} :
    (checked check >>= fun _ => x) = .ok b ↔ check = .ok () ∧ x = .ok b := by
  cases check with
  | error e => exact ⟨nofun, fun h => nomatch h.1⟩
  | ok u => exact ⟨fun h => ⟨rfl, h⟩, fun h => h.2⟩

theorem Objective.execute_never (o : Objective ι α) (calls : Nat) (q : Query ι α β) :
    o.execute .never calls q = some (q.value o.guarded) := by
  induction q generalizing calls with
  | done b => rfl
  | ask x next ih =>
    rw [Query.value, guarded]
    unfold execute
    split
    · exact ih _ _
    · exact ih _ _
  | checkpoint next ih => exact ih calls

@[simp] theorem Search.runUnder_never (s : Query ι α (Outcome α β)) (o : Objective ι α) :
    runUnder s o .never = s.value o.guarded := by
  rw [runUnder, Objective.execute_never]
  rfl

end Numerics
