import Numerics.Proofs.Extremum.AxisTrace

/-!
# The box of a search along the axes

In exact arithmetic a search along the axes never leaves its box.  An iteration that starts in the box at a point whose value
it knows ends so (`State.IsInside.step`), which bounds what a run asks for (`requests_iterate`) as well as what it reports
(`findExtremum_stays`).
-/

namespace Numerics.AxisSearch

open Query Scalar

variable {K : Type} [ExactArithmetic K] {settings : Settings K} {g : K × K → K} {axis : Axis} {p q : K × K} {s : State K}

/-- The state is at a point of the box, and knows the value there. -/
structure State.IsInside (settings : Settings K) (g : K × K → K) (s : State K) : Prop where
  point : s.point ∈ settings.box
  value : s.value = g s.point

/-- Halving the stretch `[left, right]` ends: whatever the answers are, more halvings would ask for nothing more and keep the
same stretch, and the one kept is no longer than the tolerance. -/
structure HalvingEnds (goal : Goal) (epsilon : K) (along : K → K × K) (left right : K) : Prop where
  enough : ∀ fuel ≥ halvings (right - left) epsilon,
    refineWithin goal epsilon along fuel left right =
      refineWithin goal epsilon along (halvings (right - left) epsilon) left right
  width : ∀ g, let kept := (refineWithin goal epsilon along (halvings (right - left) epsilon) left right).value g
    kept.2 - kept.1 ≤ epsilon

/-- The search asks for values in its box only, and so are the points that it reports, no two in succession of which are
further apart than the longest move. -/
structure StaysInBox (settings : Settings K) (g : K × K → K) (r : Report K) : Prop where
  requests : ∀ q ∈ (search settings).requests g, q ∈ settings.box
  history : ∀ record ∈ r.history, ∃ p ∈ settings.box, record.point = [p.1, p.2]
  moves : ∀ i < r.iterations, ∃ before after p q, r.history[i]? = some before ∧ r.history[i + 1]? = some after ∧
    before.point = [p.1, p.2] ∧ after.point = [q.1, q.2] ∧ State.distance q p ≤ settings.lambda

/-! ### Moves -/

theorem distance_move (t : K) : State.distance (axis.move p t) p = |t - axis.coordinate p| := by
  cases axis with
  | x =>
    change |t - p.1| + |p.2 - p.2| = |t - p.1|
    rw [sub_self, abs_zero, add_zero]
  | y =>
    change |p.1 - p.1| + |t - p.2| = |t - p.2|
    rw [sub_self, abs_zero, zero_add]

theorem IsMove.distance_le (hs : settings.IsValid) (h : IsMove settings g axis p q) :
    State.distance q p ≤ settings.lambda := by
  rcases h with rfl | ⟨t, rfl, -, hlambda, -⟩
  · have hzero : State.distance q q = 0 := by
      change |q.1 - q.1| + |q.2 - q.2| = 0
      rw [sub_self, sub_self, abs_zero, add_zero]
    rw [hzero]
    exact hs.lambda.le
  · rwa [distance_move]

/-! ### Requests -/

/-- **One iteration.** From a point of the box it comes to a point of the box. -/
theorem State.IsInside.step (hs : settings.IsValid) (h : s.IsInside settings g) :
    ((step settings s).value g).IsInside settings g := by
  obtain ⟨q, hmove, hstep⟩ := value_step hs h.point h.value
  rw [hstep]
  exact ⟨hmove.mem h.point, rfl⟩

/-- **Runs.** They ask for values in the box only. -/
theorem requests_iterate (hs : settings.IsValid) {fuel : ℕ} (h : s.IsInside settings g)
    (hq : q ∈ (iterate settings fuel s).requests g) : q ∈ settings.box := by
  induction fuel generalizing s with
  | zero => cases hq
  | succ fuel ih =>
    rw [iterate] at hq
    simp only [check, checkpoint_bind, done_bind, requests, requests_bind, List.mem_append] at hq
    rcases hq with hq | hq
    · exact requests_step hs h.point hq
    · split at hq
      · cases hq
      · split at hq
        · cases hq
        · exact ih (h.step hs) hq

theorem requests_search (hs : settings.IsValid) (hq : q ∈ (search settings).requests g) : q ∈ settings.box := by
  unfold search at hq
  simp only [request, ask_bind, done_bind, requests, requests_bind, pure_def, List.append_nil, List.mem_cons] at hq
  rcases hq with rfl | hq
  · exact hs.startPoint_mem
  · exact requests_iterate hs ⟨hs.startPoint_mem, rfl⟩ hq

theorem halvingEnds (goal : Goal) {epsilon : K} (he : 0 < epsilon) (along : K → K × K) (left right : K) :
    HalvingEnds goal epsilon along left right where
  enough _ hfuel := refineWithin_eq_of_le (Exact.halvings_spec he) hfuel
  width _ := width_refineWithin (Exact.halvings_spec he)

/-! ### Reports -/

/-- **The search stays in its box.** -/
theorem findExtremum_stays (f : K → K → K) {settings : Settings K} (h : settings.validate = .ok ()) :
    (∃ r, findExtremum f settings .never = .ok r ∧ StaysInBox settings (Objective.plane f).guarded r) ∧
      ∀ axis p left right, HalvingEnds settings.goal settings.epsilon (Axis.move axis p) left right := by
  have hs := Settings.validate_eq_ok_iff.mp h
  obtain ⟨r, visits, hr, hwalk, htrace⟩ := exists_report f hs
  refine ⟨⟨r, hr, fun q => requests_search hs, fun record hrecord => ?_, fun i hi => ?_⟩,
    fun axis p => halvingEnds settings.goal hs.epsilon (axis.move p)⟩
  · obtain ⟨i, hi⟩ := List.mem_iff_getElem?.mp hrecord
    have hle : i ≤ r.iterations := by
      have := (List.getElem?_eq_some_iff.mp hi).1
      rw [htrace.length_history] at this
      omega
    obtain ⟨told, htold, hvisit, -⟩ := htrace.told i hle
    obtain rfl := Option.some.inj (hi.symm.trans htold)
    exact ⟨_, hwalk.mem hs hle, hvisit.point⟩
  · obtain ⟨before, hbefore, hvisit, -⟩ := htrace.told i hi.le
    obtain ⟨after, hafter, hvisit', -⟩ := htrace.told (i + 1) hi
    exact ⟨before, after, _, _, hbefore, hafter, hvisit.point, hvisit'.point, (hwalk.move i hi).distance_le hs⟩

/-- The search for the maximum of a saddle that starts at a corner of its box. -/
theorem findExtremum_stays_saddle :
    let settings : Settings ℚ := { Settings.default with goal := .maximize, start := some (5, -5) }
    settings.validate = .ok () ∧
      (∃ r, findExtremum (fun x y => x * x - y * y) settings .never = .ok r ∧
        StaysInBox settings (Objective.plane fun x y : ℚ => x * x - y * y).guarded r) ∧
      ∀ axis p left right, HalvingEnds settings.goal settings.epsilon (Axis.move axis p) left right := by
  intro settings
  have h : settings.validate = .ok () := by decide +kernel
  exact ⟨h, findExtremum_stays _ h⟩

end Numerics.AxisSearch
