import Numerics.Proofs.Interruption
import Numerics.Proofs.Outcome

/-!
# What comes of the answers

A method sees nothing of its objective but answers, which are defined or the sentinel (`isAnswer_guarded`).  What holds of
its result whatever the answers are (`Query.Yields`) is found out request by request; and as a request outside the limit
is answered without the objective, what the objective would have said there is of no account (`Objective.execute_congr`).
-/

namespace Numerics

variable {ι α β γ : Type} [Scalar α]

/-- A value that a method may see: a defined one, or the sentinel. -/
def IsAnswer (v : α) : Prop := isDefined v = true ∨ v = Scalar.undefined

theorem isAnswer_undefined : IsAnswer (Scalar.undefined : α) := .inr rfl

/-- Whatever the value is, what is left of it is an answer. -/
theorem isAnswer_sanitize (v : α) : IsAnswer (sanitize v) := by
  unfold sanitize
  split
  · next h => exact .inl h
  · exact isAnswer_undefined

theorem sanitize_of_isDefined {v : α} (h : isDefined v = true) : sanitize v = v := if_pos h

theorem isAnswer_guarded (o : Objective ι α) (x : ι) : IsAnswer (o.guarded x) := by
  unfold Objective.guarded
  split
  · exact isAnswer_sanitize _
  · exact isAnswer_undefined

/-- A defined value at an input that is passed on is seen as it is. -/
theorem guarded_eq_value {o : Objective ι α} {x : ι} (hx : o.admits x = true) (hv : isDefined (o.value x) = true) :
    o.guarded x = o.value x := by
  rw [Objective.guarded, if_pos hx, sanitize_of_isDefined hv]

/-! ### Results for all answers -/

namespace Query

variable {q : Query ι α β} {k : β → Query ι α γ} {p : β → Prop} {r : γ → Prop}

/-- The property holds of the result whatever the answers are. -/
def Yields (q : Query ι α β) (p : β → Prop) : Prop := ∀ g : ι → α, (∀ x, IsAnswer (g x)) → p (q.value g)

theorem yields_true (q : Query ι α β) : q.Yields fun _ => True := fun _ _ => trivial

theorem Yields.done {b : β} (h : p b) : (done b : Query ι α β).Yields p := fun _ _ => h

theorem Yields.ask {x : ι} {next : α → Query ι α β} (h : ∀ v, IsAnswer v → (next v).Yields p) :
    (Query.ask x next).Yields p := fun g hg => h (g x) (hg x) g hg

theorem Yields.checkpoint (h : q.Yields p) : (Query.checkpoint q).Yields p := h

theorem yields_request (x : ι) : (request x : Query ι α α).Yields IsAnswer := fun _ hg => hg x

theorem Yields.bind (hq : q.Yields p) (hk : ∀ b, p b → (k b).Yields r) : (q >>= k).Yields r := by
  intro g hg
  rw [value_bind]
  exact hk _ (hq g hg) g hg

/-- Requests answered by computations that yield answers. -/
theorem Yields.expand {κ : Type} {answer : ι → Query κ α α} (hq : q.Yields p)
    (hanswer : ∀ x, (answer x).Yields IsAnswer) : (q.expand answer).Yields p := by
  intro g hg
  rw [value_expand]
  exact hq _ fun x => hanswer x g hg

end Query

/-! ### Requests outside the limit -/

namespace Objective

variable {admits : ι → Bool} {value value' : ι → α}

/-- What an objective says of inputs that it does not admit is not asked for. -/
theorem guarded_congr (h : ∀ x, admits x = true → value x = value' x) :
    (Objective.mk admits value).guarded = (Objective.mk admits value').guarded := by
  funext x
  unfold guarded
  split
  · next hx => exact congrArg sanitize (h x hx)
  · rfl

theorem execute_congr (h : ∀ x, admits x = true → value x = value' x) (stop : StopSignal) (calls : ℕ) (q : Query ι α β) :
    (Objective.mk admits value).execute stop calls q = (Objective.mk admits value').execute stop calls q := by
  induction q generalizing calls with
  | done b => rfl
  | ask x next ih =>
    unfold execute
    split
    · next hx =>
      have hvalue : (Objective.mk admits value).value x = (Objective.mk admits value').value x := h x hx
      rw [hvalue, ih]
    · exact ih _ _
  | checkpoint next ih =>
    unfold execute
    split
    · rfl
    · exact ih _

end Objective

/-! ### Reports -/

/-- All records have answers for values. -/
def Trace.HasAnswers (t : Trace α) : Prop := ∀ record ∈ t, IsAnswer record.value

/-- The report has answers for values. -/
structure Report.HasAnswers (r : Report α) : Prop where
  value : IsAnswer r.value
  values : ∀ v ∈ r.values, IsAnswer v
  history : ∀ record ∈ r.history, IsAnswer record.value

/-- A history with one more record. -/
theorem Trace.exists_add (t : Trace α) (index : ℕ) (point : List α) (value : α) (direction : Direction) :
    ∃ record, t.add index point value direction = record :: t ∧ record.point = point ∧ record.value = value ∧
      record.direction = direction := by
  cases t <;> exact ⟨_, rfl, rfl, rfl, rfl⟩

theorem Trace.HasAnswers.add {t : Trace α} (h : t.HasAnswers) {v : α} (hv : IsAnswer v) (index : ℕ) (point : List α)
    (direction : Direction) : (t.add index point v direction).HasAnswers := by
  obtain ⟨record, hadd, -, hvalue, -⟩ := t.exists_add index point v direction
  intro other hother
  rw [hadd, List.mem_cons] at hother
  rcases hother with rfl | hother
  · rwa [hvalue]
  · exact h other hother

theorem Trace.hasAnswers_nil : Trace.HasAnswers ([] : Trace α) := List.forall_mem_nil _

/-- A report with the history of a search. -/
theorem Trace.HasAnswers.report {t : Trace α} (h : t.HasAnswers) {r : Report α} (hvalue : IsAnswer r.value)
    (hhistory : r.history = t.reverse) (hvalues : r.values = t.reverse.map (·.value)) : r.HasAnswers where
  value := hvalue
  values v hv := by
    rw [hvalues] at hv
    obtain ⟨record, hrecord, rfl⟩ := List.mem_map.mp hv
    exact h record (List.mem_reverse.mp hrecord)
  history record hrecord := by
    rw [hhistory] at hrecord
    exact h record (List.mem_reverse.mp hrecord)

theorem Report.hasAnswers_atEnd {x v epsilon : α} (hv : IsAnswer v) : (Report.atEnd x v epsilon).HasAnswers where
  value := hv
  values other hother := by rwa [List.mem_singleton.mp hother]
  history record hrecord := by rwa [List.mem_singleton.mp hrecord]

namespace Search

variable {s : Query ι α (Outcome α (Report α))} {o : Objective ι α} {r : Report α} {q : Report α → Prop}

/-- What the search reports, if it does, has the property. -/
def Reports (s : Query ι α (Outcome α (Report α))) (q : Report α → Prop) : Prop :=
  s.Yields fun outcome => ∀ r, outcome = .ok r → q r

/-- What a search reports for an objective. -/
theorem Reports.of_value (h : Reports s q) (hr : (counted s).value o.guarded = .ok r) :
    ∃ r', q r' ∧ { r' with evaluations := (s.requests o.guarded).length } = r := by
  rw [value_counted, map_eq_ok_iff] at hr
  obtain ⟨r', hr', rfl⟩ := hr
  exact ⟨r', h o.guarded (isAnswer_guarded o) r' hr', rfl⟩

theorem Reports.of_runUnder (h : Reports s q) {stop : StopSignal} (hr : runUnder (counted s) o stop = .ok r) :
    ∃ r', q r' ∧ { r' with evaluations := (s.requests o.guarded).length } = r := by
  have hor : runUnder (counted s) o stop = (counted s).value o.guarded ∨ _ := runUnder_eq_or
  rcases hor with hvalue | hcancelled
  · exact h.of_value (hvalue.symm.trans hr)
  · rw [hcancelled] at hr
    cases hr

/-- What the search reports, if it does, has answers for values. -/
def ReportsAnswers (s : Query ι α (Outcome α (Report α))) : Prop :=
  s.Yields fun outcome => ∀ r, outcome = .ok r → r.HasAnswers

/-- The report of a search has answers for values, and the number of its requests, those that the objective was not asked
included. -/
structure IsReported (s : Query ι α (Outcome α (Report α))) (o : Objective ι α) (r : Report α) : Prop where
  answers : r.HasAnswers
  evaluations : r.evaluations = (s.requests o.guarded).length

/-- The count is no part of the answers. -/
theorem IsReported.of_exists
    (h : ∃ r' : Report α, r'.HasAnswers ∧ { r' with evaluations := (s.requests o.guarded).length } = r) :
    IsReported s o r := by
  obtain ⟨r', hanswers, rfl⟩ := h
  exact ⟨⟨hanswers.value, hanswers.values, hanswers.history⟩, rfl⟩

theorem ReportsAnswers.of_value (hs : ReportsAnswers s) (h : (counted s).value o.guarded = .ok r) : IsReported s o r :=
  .of_exists (Reports.of_value hs h)

theorem ReportsAnswers.of_runUnder (hs : ReportsAnswers s) {stop : StopSignal} (h : runUnder (counted s) o stop = .ok r) :
    IsReported s o r := .of_exists (Reports.of_runUnder hs h)

theorem runUnder_congr {admits : ι → Bool} {value value' : ι → α} (h : ∀ x, admits x = true → value x = value' x)
    (s : Query ι α (Outcome α β)) (stop : StopSignal) : runUnder s ⟨admits, value⟩ stop = runUnder s ⟨admits, value'⟩ stop :=
  congrArg (·.getD (.error .cancelled)) (Objective.execute_congr h stop 0 s)

end Search

/-! ### Methods -/

/-- The method asks the objective for nothing outside its limit, whatever it would say there, and has the property of what
it finds of the objective. -/
structure IsSafe (admits : ι → Bool) (method : (ι → α) → Outcome α β) (p : (ι → α) → β → Prop) : Prop where
  confined : ∀ f f', (∀ x, admits x = true → f x = f' x) → method f = method f'
  reported : ∀ f result, method f = .ok result → p f result

/-- A method that sees its objective guarded. -/
theorem isSafe_of_guarded {method : (α → α) → Outcome α β} {p : (α → α) → β → Prop}
    (hguarded : ∀ f f', (Objective.line f).guarded = (Objective.line f').guarded → method f = method f')
    (hreported : ∀ f result, method f = .ok result → p f result) : IsSafe withinLimit method p where
  confined f f' h := hguarded f f' (Objective.guarded_congr h)
  reported := hreported

end Numerics
