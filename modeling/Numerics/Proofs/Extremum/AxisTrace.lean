import Mathlib.Logic.Function.Basic
import Numerics.Proofs.Extremum.AxisStep
import Numerics.Proofs.Execution

/-!
# The history of a search along the axes

What a search along the axes reports in exact arithmetic.  The state after each iteration knows the points visited so far
(`IsReached`), which one more iteration extends by one (`IsReached.advance`); a run ends where nothing is defined, where the
last two moves were short, or with the last iteration (`value_iterate`).  `findExtremum_trace` is what the report says.
-/

namespace Numerics.AxisSearch

open Query Scalar

variable {K : Type} [ExactArithmetic K]

/-- A point of a search, and the direction in which an iteration came to it. -/
structure Visit (K : Type) where
  point : K × K
  direction : Direction

/-- The record with this index tells of the visit, `g` being the function searched. -/
structure Visit.IsTold (v : Visit K) (g : K × K → K) (index : ℕ) (record : Record K) : Prop where
  index : record.index = index
  point : record.point = [v.point.1, v.point.2]
  value : record.value = g v.point
  direction : record.direction = v.direction

/-- The visits after `n` iterations of a search: it starts in the box, and each iteration is a move along its axis. -/
structure IsWalk (settings : Settings K) (g : K × K → K) (visits : ℕ → Visit K) (n : ℕ) : Prop where
  start : visits 0 = ⟨settings.startPoint, .start⟩
  move : ∀ i < n, IsMove settings g (Axis.ofIteration (i + 1)) (visits i).point (visits (i + 1)).point
  direction : ∀ i < n, (visits (i + 1)).direction =
    if (visits (i + 1)).point = (visits i).point then .stay else (Axis.ofIteration (i + 1)).direction

/-- The state after the iterations that made the visits. -/
structure IsReached (settings : Settings K) (g : K × K → K) (visits : ℕ → Visit K) (s : State K) : Prop where
  walk : IsWalk settings g visits s.iterations
  point : s.point = (visits s.iterations).point
  value : s.value = g s.point
  best : s.best = s.point
  bestValue : s.bestValue = s.value
  lastMove : s.lastMove = if s.iterations = 0 then none
    else some (State.distance (visits s.iterations).point (visits (s.iterations - 1)).point)
  length : s.trace.length = s.iterations + 1
  told : ∀ i ≤ s.iterations, ∃ record, s.trace.reverse[i]? = some record ∧ (visits i).IsTold g i record

/-! ### Moves -/

section Moves

variable {settings : Settings K} {axis : Axis} {g : K × K → K} {p q : K × K} {visits : ℕ → Visit K} {n i j : ℕ}

/-- The coordinate on the other axis. -/
theorem IsMove.coordinate_eq (h : IsMove settings g axis p q) (other : Axis) (hne : other ≠ axis) :
    other.coordinate q = other.coordinate p := by
  rcases h with rfl | ⟨t, rfl, -⟩
  · rfl
  · cases axis <;> cases other <;> first | rfl | exact absurd rfl hne

theorem IsMove.improves (h : IsMove settings g axis p q) (hne : q ≠ p) :
    settings.goal.improves (g q) (g p) = true := by
  rcases h with rfl | ⟨t, -, -, -, hbetter⟩
  · exact absurd rfl hne
  · exact hbetter

theorem IsMove.isDefined (h : IsMove settings g axis p q) (hp : isDefined (g p) = true) : isDefined (g q) = true := by
  by_cases hq : q = p
  · rwa [hq]
  · exact Goal.isDefined_of_improves (h.improves hq)

theorem IsMove.mem (h : IsMove settings g axis p q) (hp : p ∈ settings.box) : q ∈ settings.box := by
  rcases h with rfl | ⟨t, -, hq, -⟩
  · exact hp
  · exact hq

theorem distance_pos_iff : 0 < State.distance q p ↔ q ≠ p := by
  change 0 < |q.1 - p.1| + |q.2 - p.2| ↔ _
  constructor
  · rintro h rfl
    simp at h
  · intro hne
    by_cases h : q.1 = p.1
    · have h₂ : q.2 ≠ p.2 := fun h₂ => hne (Prod.ext h h₂)
      exact add_pos_of_nonneg_of_pos (abs_nonneg _) (abs_pos.mpr (sub_ne_zero.mpr h₂))
    · exact add_pos_of_pos_of_nonneg (abs_pos.mpr (sub_ne_zero.mpr h)) (abs_nonneg _)

theorem IsWalk.isDefined (h : IsWalk settings g visits n) (hij : i ≤ j) (hj : j ≤ n)
    (hi : isDefined (g (visits i).point) = true) : isDefined (g (visits j).point) = true := by
  induction j, hij using Nat.le_induction with
  | base => exact hi
  | succ j hij ih => exact (h.move j hj).isDefined (ih (Nat.le_of_succ_le hj))

theorem IsWalk.mem (h : IsWalk settings g visits n) (hs : settings.IsValid) (hi : i ≤ n) :
    (visits i).point ∈ settings.box := by
  induction i with
  | zero =>
    rw [h.start]
    exact hs.startPoint_mem
  | succ i ih => exact (h.move i hi).mem (ih (Nat.le_of_succ_le hi))

end Moves

/-! ### Iterations -/

section Iterations

variable {settings : Settings K} {g : K × K → K} {p q : K × K} {visits : ℕ → Visit K} {s : State K}

theorem isReached_initial (p : K × K) (hp : p = settings.startPoint) :
    IsReached settings g (fun _ => ⟨p, .start⟩) (.initial p (g p)) where
  walk := ⟨by rw [hp], nofun, nofun⟩
  point := rfl
  value := rfl
  best := rfl
  bestValue := rfl
  lastMove := rfl
  length := rfl
  told i hi := by
    obtain rfl : i = 0 := Nat.le_zero.mp hi
    exact ⟨_, rfl, rfl, rfl, rfl, rfl⟩

/-- An iteration adds a record that tells of the point it came to. -/
theorem trace_advance (g : K × K → K) (q : K × K) (s : State K) (goal : Goal) (axis : Axis) :
    ∃ record, (s.advance goal axis q (g q)).trace = record :: s.trace ∧
      Visit.IsTold ⟨q, if q = s.point then .stay else axis.direction⟩ g (s.iterations + 1) record := by
  have hdirection : (s.advance goal axis q (g q)).trace = s.trace.add (s.iterations + 1) [q.1, q.2] (g q)
      (if q = s.point then .stay else axis.direction) := by
    unfold State.advance
    simp only [Exact.zero_eq, distance_pos_iff, ne_eq, ite_not]
  rw [hdirection]
  cases s.trace with
  | nil => exact ⟨_, rfl, rfl, rfl, rfl, rfl⟩
  | cons previous t => exact ⟨_, rfl, rfl, rfl, rfl, rfl⟩

/-- The visits with one more at the end. -/
def extend (visits : ℕ → Visit K) (n : ℕ) (v : Visit K) (i : ℕ) : Visit K := if i = n + 1 then v else visits i

omit [ExactArithmetic K] in
theorem extend_of_le {n i : ℕ} {v : Visit K} (h : i ≤ n) : extend visits n v i = visits i := if_neg (by omega)

omit [ExactArithmetic K] in
theorem extend_succ {n : ℕ} {v : Visit K} : extend visits n v (n + 1) = v := if_pos rfl

theorem IsWalk.extend {n : ℕ} (h : IsWalk settings g visits n)
    (hmove : IsMove settings g (Axis.ofIteration (n + 1)) (visits n).point q) :
    IsWalk settings g (extend visits n
      ⟨q, if q = (visits n).point then .stay else (Axis.ofIteration (n + 1)).direction⟩) (n + 1) where
  start := by rw [extend_of_le (Nat.zero_le n), h.start]
  move i hi := by
    rcases Nat.lt_succ_iff_lt_or_eq.mp hi with hi | rfl
    · rw [extend_of_le hi.le, extend_of_le hi]
      exact h.move i hi
    · rwa [extend_of_le le_rfl, extend_succ]
  direction i hi := by
    rcases Nat.lt_succ_iff_lt_or_eq.mp hi with hi | rfl
    · rw [extend_of_le hi.le, extend_of_le hi]
      exact h.direction i hi
    · rw [extend_of_le le_rfl, extend_succ]

/-- The records tell of one more visit. -/
theorem IsReached.told_extend (h : IsReached settings g visits s) {v : Visit K} {record : Record K} {i : ℕ}
    (htold : v.IsTold g (s.iterations + 1) record) (hi : i ≤ s.iterations + 1) :
    ∃ old, (record :: s.trace).reverse[i]? = some old ∧ (extend visits s.iterations v i).IsTold g i old := by
  have hlength : s.trace.reverse.length = s.iterations + 1 := by rw [List.length_reverse, h.length]
  rw [List.reverse_cons]
  rcases Nat.lt_or_eq_of_le hi with hi | rfl
  · obtain ⟨old, hold, holdtold⟩ := h.told i (Nat.le_of_lt_succ hi)
    refine ⟨old, ?_, ?_⟩
    · rw [List.getElem?_append_left (hlength.symm ▸ hi), hold]
    · rwa [extend_of_le (Nat.le_of_lt_succ hi)]
  · refine ⟨record, ?_, ?_⟩
    · rw [List.getElem?_append_right hlength.le, hlength, Nat.sub_self]
      rfl
    · rwa [extend_succ]

/-- The best point is the current one, which only a strictly better value leaves. -/
theorem IsReached.best_advance (h : IsReached settings g visits s) {axis : Axis} (hmove : IsMove settings g axis s.point q) :
    (s.advance settings.goal axis q (g q)).best = q ∧ (s.advance settings.goal axis q (g q)).bestValue = g q := by
  change (if settings.goal.improves (g q) s.bestValue then q else s.best) = q ∧
    (if settings.goal.improves (g q) s.bestValue then g q else s.bestValue) = g q
  rw [h.best, h.bestValue, h.value]
  by_cases hq : q = s.point
  · rw [hq, ite_self, ite_self]
    exact ⟨rfl, rfl⟩
  · have hbetter := hmove.improves hq
    exact ⟨if_pos hbetter, if_pos hbetter⟩

/-- **One more visit.** A move extends what a state has reached. -/
theorem IsReached.advance (h : IsReached settings g visits s)
    (hmove : IsMove settings g (Axis.ofIteration (s.iterations + 1)) s.point q) :
    IsReached settings g (extend visits s.iterations
        ⟨q, if q = s.point then .stay else (Axis.ofIteration (s.iterations + 1)).direction⟩)
      (s.advance settings.goal (Axis.ofIteration (s.iterations + 1)) q (g q)) := by
  obtain ⟨record, htrace, htold⟩ := trace_advance g q s settings.goal (Axis.ofIteration (s.iterations + 1))
  obtain ⟨hbest, hbestValue⟩ := h.best_advance hmove
  exact {
    walk := by
      rw [h.point] at hmove ⊢
      exact h.walk.extend hmove
    point := by
      change q = (extend visits s.iterations _ (s.iterations + 1)).point
      rw [extend_succ]
    value := rfl
    best := hbest
    bestValue := hbestValue
    lastMove := by
      change some (State.distance q s.point) = some (State.distance (extend visits s.iterations _ (s.iterations + 1)).point
        (extend visits s.iterations _ s.iterations).point)
      rw [extend_succ, extend_of_le le_rfl, h.point]
    length := by
      rw [htrace, List.length_cons, h.length]
      rfl
    told := fun i hi => by
      rw [htrace]
      exact h.told_extend htold hi }

end Iterations

/-! ### Runs -/

section Runs

variable {settings : Settings K} {g : K × K → K} {p q : K × K} {visits : ℕ → Visit K} {s : State K}

/-- The last two moves of a walk were shorter than twice the tolerance. -/
def IsSettled (settings : Settings K) (visits : ℕ → Visit K) (n : ℕ) : Prop :=
  2 ≤ n ∧ State.distance (visits n).point (visits (n - 1)).point < 2 * settings.epsilon ∧
    State.distance (visits (n - 1)).point (visits (n - 2)).point < 2 * settings.epsilon

/-- How a walk of `n` visits after the first one can end. -/
inductive IsEnd (settings : Settings K) (g : K × K → K) (visits : ℕ → Visit K) (n : ℕ) : Status → Prop where
  | interrupted (one : n = 1) (value : isDefined (g (visits n).point) = false) : IsEnd settings g visits n .interrupted
  | converged (value : isDefined (g (visits n).point) = true) (settled : IsSettled settings visits n) :
      IsEnd settings g visits n .converged
  | iterationLimit (value : isDefined (g (visits n).point) = true) (limit : n = settings.maxIterations) :
      IsEnd settings g visits n .iterationLimit

theorem IsReached.isSettled (h : IsReached settings g visits s) {earlier : Option K}
    (hearlier : earlier = if s.iterations ≤ 1 then none
      else some (State.distance (visits (s.iterations - 1)).point (visits (s.iterations - 2)).point))
    (hsettled : s.settled settings.epsilon earlier = true) : IsSettled settings visits s.iterations := by
  unfold State.settled at hsettled
  rw [h.lastMove, hearlier, Bool.and_eq_true] at hsettled
  obtain ⟨hlast, hbefore⟩ := hsettled
  split at hbefore
  · cases hbefore
  · next htwo =>
    rw [if_neg (by omega)] at hlast
    exact ⟨by omega, of_decide_eq_true hlast, of_decide_eq_true hbefore⟩

/-- **One iteration.** It makes one more visit. -/
theorem IsReached.step (hs : settings.IsValid) (h : IsReached settings g visits s) :
    ∃ visits', IsReached settings g visits' ((step settings s).value g) ∧
      ((step settings s).value g).iterations = s.iterations + 1 ∧ ∀ i ≤ s.iterations, visits' i = visits i := by
  have hpoint : s.point ∈ settings.box := h.point ▸ h.walk.mem hs le_rfl
  obtain ⟨q, hmove, hstep⟩ := value_step hs hpoint h.value
  rw [hstep]
  exact ⟨_, h.advance hmove, rfl, fun i hi => extend_of_le hi⟩

/-- **Runs.** From a state with a defined value, unless it is the first one, a run reaches a state in which a walk ends. -/
theorem value_iterate (hs : settings.IsValid) (fuel : ℕ) (h : IsReached settings g visits s)
    (hfuel : s.iterations + fuel = settings.maxIterations)
    (hdefined : 1 ≤ s.iterations → isDefined (g (visits s.iterations).point) = true) :
    ∃ visits', IsReached settings g visits' ((iterate settings fuel s).value g).1 ∧
      ((iterate settings fuel s).value g).1.iterations ≤ settings.maxIterations ∧
      IsEnd settings g visits' ((iterate settings fuel s).value g).1.iterations ((iterate settings fuel s).value g).2 := by
  have hone := hs.iterations.1
  induction fuel generalizing visits s with
  | zero => exact ⟨visits, h, hfuel.le, .iterationLimit (hdefined (by omega)) hfuel⟩
  | succ fuel ih =>
    obtain ⟨visits', hnext, hiterations, hsame⟩ := h.step hs
    rw [iterate]
    simp only [check, checkpoint_bind, done_bind, Query.value, value_bind]
    generalize (AxisSearch.step settings s).value g = next at hnext hiterations
    have hle : next.iterations ≤ settings.maxIterations := by omega
    have hvalue : next.value = g (visits' next.iterations).point := by rw [hnext.value, hnext.point]
    have hdefined' : 1 ≤ s.iterations → isDefined next.value = true := by
      intro h1
      rw [hvalue]
      refine hnext.walk.isDefined (i := s.iterations) (by omega) le_rfl ?_
      rw [hsame _ le_rfl]
      exact hdefined h1
    cases hnextdefined : isDefined next.value with
    | false =>
      have hfirst : next.iterations = 1 := by
        by_contra hne
        rw [hdefined' (by omega)] at hnextdefined
        cases hnextdefined
      exact ⟨visits', hnext, hle, .interrupted hfirst (hvalue ▸ hnextdefined)⟩
    | true =>
      cases hsettled : next.settled settings.epsilon s.lastMove with
      | true =>
        refine ⟨visits', hnext, hle, .converged (hvalue ▸ hnextdefined) (hnext.isSettled ?_ hsettled)⟩
        rw [h.lastMove, hiterations]
        by_cases hzero : s.iterations = 0
        · rw [if_pos hzero, if_pos (by omega)]
        · rw [if_neg hzero, if_neg (by omega), ← hsame _ le_rfl, ← hsame (s.iterations - 1) (Nat.sub_le _ _)]
          rfl
      | false => exact ih hnext (by omega) fun _ => hvalue ▸ hnextdefined

end Runs

/-! ### Reports -/

section Reports

variable {settings : Settings K} {g : K × K → K} {visits : ℕ → Visit K}

/-- What a search along the axes reports, `g` being the function searched and `visits` what its iterations came to. -/
structure IsTrace (settings : Settings K) (g : K × K → K) (visits : ℕ → Visit K) (r : Report K) : Prop where
  iterations : 1 ≤ r.iterations ∧ r.iterations ≤ settings.maxIterations
  length_history : r.history.length = r.iterations + 1
  length_values : r.values.length = r.iterations + 1
  told : ∀ i ≤ r.iterations, ∃ record, r.history[i]? = some record ∧ (visits i).IsTold g i record ∧
    r.values[i]? = some record.value
  start : visits 0 = ⟨settings.startPoint, .start⟩
  across : ∀ i < r.iterations, ((i + 1) % 2 = 1 → (visits (i + 1)).point.2 = (visits i).point.2) ∧
    ((i + 1) % 2 = 0 → (visits (i + 1)).point.1 = (visits i).point.1)
  move : ∀ i < r.iterations,
    (visits (i + 1)).point = (visits i).point ∧ (visits (i + 1)).direction = .stay ∨
      (visits (i + 1)).point ≠ (visits i).point ∧
        (visits (i + 1)).direction = (if (i + 1) % 2 = 1 then .axisX else .axisY) ∧
        settings.goal.improves (g (visits (i + 1)).point) (g (visits i).point) = true
  point : r.point = [(visits r.iterations).point.1, (visits r.iterations).point.2]
  value : r.value = g (visits r.iterations).point
  defined : ∀ i j, i ≤ j → j ≤ r.iterations → isDefined (g (visits i).point) = true →
    isDefined (g (visits j).point) = true
  converged : r.status = .converged → isDefined r.value = true ∧ IsSettled settings visits r.iterations
  interrupted : r.status = .interrupted ↔ isDefined r.value = false
  interrupted_first : r.status = .interrupted → r.iterations = 1
  iterationLimit : r.status = .iterationLimit → r.iterations = settings.maxIterations

theorem IsWalk.across {n : ℕ} (h : IsWalk settings g visits n) {i : ℕ} (hi : i < n) :
    ((i + 1) % 2 = 1 → (visits (i + 1)).point.2 = (visits i).point.2) ∧
      ((i + 1) % 2 = 0 → (visits (i + 1)).point.1 = (visits i).point.1) := by
  have hmove := h.move i hi
  unfold Axis.ofIteration at hmove
  constructor
  · intro hodd
    rw [if_pos hodd] at hmove
    exact hmove.coordinate_eq .y nofun
  · intro heven
    rw [if_neg (by omega)] at hmove
    exact hmove.coordinate_eq .x nofun

theorem IsWalk.stays_or_improves {n : ℕ} (h : IsWalk settings g visits n) {i : ℕ} (hi : i < n) :
    (visits (i + 1)).point = (visits i).point ∧ (visits (i + 1)).direction = .stay ∨
      (visits (i + 1)).point ≠ (visits i).point ∧
        (visits (i + 1)).direction = (if (i + 1) % 2 = 1 then .axisX else .axisY) ∧
        settings.goal.improves (g (visits (i + 1)).point) (g (visits i).point) = true := by
  have hdirection := h.direction i hi
  by_cases hsame : (visits (i + 1)).point = (visits i).point
  · rw [if_pos hsame] at hdirection
    exact .inl ⟨hsame, hdirection⟩
  · rw [if_neg hsame] at hdirection
    refine .inr ⟨hsame, ?_, (h.move i hi).improves hsame⟩
    rw [hdirection, Axis.ofIteration]
    split <;> rfl

/-- The report of a search is what the last state of its iterations says. -/
theorem value_search {p : K × K} (hp : p = settings.startPoint) :
    ∃ r, (search settings).value g = .ok r ∧
      let (s, status) := (iterate settings settings.maxIterations (.initial p (g p))).value g
      r.point = [s.best.1, s.best.2] ∧ r.value = s.bestValue ∧ r.iterations = s.iterations ∧ r.status = status ∧
        r.history = s.trace.reverse ∧ r.values = s.trace.reverse.map (·.value) := by
  subst hp
  unfold search
  simp only [request, ask_bind, done_bind, Query.value, value_bind]
  exact ⟨_, rfl, rfl, rfl, rfl, rfl, rfl, rfl⟩

/-- The report of a state in which a walk ends. -/
theorem IsReached.isTrace {s : State K} {status : Status} {r : Report K} (hs : settings.IsValid)
    (h : IsReached settings g visits s) (hle : s.iterations ≤ settings.maxIterations)
    (hend : IsEnd settings g visits s.iterations status) (hpoint : r.point = [s.best.1, s.best.2])
    (hvalue : r.value = s.bestValue) (hiterations : r.iterations = s.iterations) (hstatus : r.status = status)
    (hhistory : r.history = s.trace.reverse) (hvalues : r.values = s.trace.reverse.map (·.value)) :
    IsTrace settings g visits r := by
  have hone : 1 ≤ s.iterations := by
    cases hend with
    | interrupted one => exact one.ge
    | converged _ settled => exact Nat.le_of_succ_le settled.1
    | iterationLimit _ limit => exact limit ▸ hs.iterations.1
  have hlast : r.value = g (visits s.iterations).point := by rw [hvalue, h.bestValue, h.value, h.point]
  exact {
    iterations := hiterations ▸ ⟨hone, hle⟩
    length_history := by rw [hhistory, List.length_reverse, h.length, hiterations]
    length_values := by rw [hvalues, List.length_map, List.length_reverse, h.length, hiterations]
    told := fun i hi => by
      obtain ⟨record, hrecord, htold⟩ := h.told i (hiterations ▸ hi)
      refine ⟨record, hhistory ▸ hrecord, htold, ?_⟩
      rw [hvalues, List.getElem?_map, hrecord, Option.map_some]
    start := h.walk.start
    across := fun i hi => h.walk.across (hiterations ▸ hi)
    move := fun i hi => h.walk.stays_or_improves (hiterations ▸ hi)
    point := by rw [hpoint, hiterations, h.best, h.point]
    value := by rw [hlast, hiterations]
    defined := fun i j hij hj => h.walk.isDefined hij (hiterations ▸ hj)
    converged := by
      rw [hstatus, hlast, hiterations]
      rintro rfl
      cases hend with
      | converged value settled => exact ⟨value, settled⟩
    interrupted := by
      rw [hstatus, hlast]
      cases hend with
      | interrupted _ value => simp [value]
      | converged value => simp [value]
      | iterationLimit value => simp [value]
    interrupted_first := by
      rw [hstatus, hiterations]
      rintro rfl
      cases hend with
      | interrupted one => exact one
    iterationLimit := by
      rw [hstatus, hiterations]
      rintro rfl
      cases hend with
      | iterationLimit _ limit => exact limit }

/-- Without a signal a search with valid settings has the report of its last state, with the number of its requests. -/
theorem findExtremum_never {f : K → K → K} {r : Report K} (h : settings.validate = .ok ())
    (hr : (search settings).value (Objective.plane f).guarded = .ok r) :
    findExtremum f settings .never =
      .ok { r with evaluations := ((search settings).requests (Objective.plane f).guarded).length } := by
  unfold findExtremum
  rw [h, checked_ok, ok_bind, Search.runUnder_never, Search.counted, value_bind, value_counted, hr]
  rfl

/-- A search with valid settings reports the trace of a walk. -/
theorem exists_report (f : K → K → K) (hs : settings.IsValid) :
    ∃ r visits, findExtremum f settings .never = .ok r ∧
      IsWalk settings (Objective.plane f).guarded visits r.iterations ∧
      IsTrace settings (Objective.plane f).guarded visits r := by
  obtain ⟨r, hr, hpoint, hvalue, hiterations, hstatus, hhistory, hvalues⟩ :=
    value_search (g := (Objective.plane f).guarded) (rfl : settings.startPoint = settings.startPoint)
  obtain ⟨visits, hreached, hle, hend⟩ :=
    value_iterate hs settings.maxIterations (isReached_initial (g := (Objective.plane f).guarded) _ rfl)
      (Nat.zero_add _) nofun
  refine ⟨_, visits, findExtremum_never (Settings.validate_eq_ok_iff.mpr hs) hr, ?_, ?_⟩
  · change IsWalk _ _ _ r.iterations
    rw [hiterations]
    exact hreached.walk
  · exact hreached.isTrace hs hle hend hpoint hvalue hiterations hstatus hhistory hvalues

end Reports

/-- **The history of a search.** -/
theorem findExtremum_trace (f : K → K → K) {settings : Settings K} (h : settings.validate = .ok ()) :
    ∃ r visits, findExtremum f settings .never = .ok r ∧ IsTrace settings (Objective.plane f).guarded visits r := by
  obtain ⟨r, visits, hr, -, htrace⟩ := exists_report f (Settings.validate_eq_ok_iff.mp h)
  exact ⟨r, visits, hr, htrace⟩

/-- The search for the minimum of a paraboloid with the default settings. -/
theorem findExtremum_trace_paraboloid :
    (Settings.default : Settings ℚ).validate = .ok () ∧
      ∃ r visits, findExtremum (fun x y : ℚ => x * x + y * y) .default .never = .ok r ∧
        IsTrace .default (Objective.plane fun x y : ℚ => x * x + y * y).guarded visits r := by
  have h : (Settings.default : Settings ℚ).validate = .ok () := by decide +kernel
  exact ⟨h, findExtremum_trace _ h⟩

end Numerics.AxisSearch
