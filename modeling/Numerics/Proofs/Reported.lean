import Numerics.Proofs.Integral.Schedule
import Numerics.Proofs.Invariants

/-!
# What methods report of misbehaving objectives

An objective may have no value, or no usable one, at any input that a method comes to.  For each method the values that its
states keep for the report are answers (`State.HasAnswers`), whatever branch the run takes, and so are those of the report;
sums are not answers themselves, but become ones before they are reported (`Integral.yields_compositeSum`).
`methods_report_answers` puts the methods together.
-/

namespace Numerics

open Query Scalar

variable {α : Type} [Scalar α]

/-! ### Roots -/

namespace Bisection

/-- The state has answers for the values that it may report. -/
def State.HasAnswers (s : State α) : Prop := IsAnswer s.atMid ∧ s.trace.HasAnswers

variable {a b epsilon : α} {s : State α}

theorem State.HasAnswers.halve (h : s.HasAnswers) : s.halve.HasAnswers := by
  unfold State.halve
  split
  · exact ⟨h.1, h.2.add h.1 _ _ _⟩
  · exact ⟨h.1, h.2.add h.1 _ _ _⟩

theorem isKept_hasAnswers : IsKept a b (@State.HasAnswers α _) where
  start _ _ _ _ hmid := ⟨hmid, Trace.hasAnswers_nil⟩
  halve _ h := h.halve
  middle _ _ _ hv h := ⟨hv, h.2⟩

theorem search_reportsAnswers : Search.ReportsAnswers (search a b epsilon) :=
  isKept_hasAnswers.reports (fun _ _ hv => Report.hasAnswers_atEnd hv) fun _ _ h => h.2.report h.1 rfl rfl

theorem isSafe_findRoot : IsSafe withinLimit (findRoot · a b epsilon) fun f =>
    Search.IsReported (search a b epsilon) (.line f) := by
  refine isSafe_of_guarded (fun f f' h => ?_) fun f r hr => ?_
  · rw [findRoot, findRoot, Search.run, Search.run, h]
  · exact search_reportsAnswers.of_value (checked_bind_eq_ok_iff.mp (checked_bind_eq_ok_iff.mp hr).2).2

end Bisection

namespace GoldenCut

variable {a b epsilon x fx : α} {s : State α}

theorem hasAnswers_keep (h : s.trace.HasAnswers) (hfx : IsAnswer fx) : (s.keep x fx).trace.HasAnswers := by
  unfold State.keep
  split
  · exact h.add hfx _ _ _
  · split
    · exact h.add hfx _ _ _
    · exact h.add hfx _ _ _

theorem isKept_hasAnswers : IsKept a b fun s : State α => s.trace.HasAnswers where
  start _ _ := Trace.hasAnswers_nil
  keep _ _ _ hfx h := hasAnswers_keep h hfx

theorem search_reportsAnswers : Search.ReportsAnswers (search a b epsilon) := by
  refine isKept_hasAnswers.reports (fun x v hv => ?_) fun s r h hvalue hr => h.report hvalue hr.history hr.values
  have h : (Report.atEnd x v epsilon).HasAnswers := Report.hasAnswers_atEnd hv
  exact ⟨h.value, h.values, h.history⟩

theorem isSafe_findRoot : IsSafe withinLimit (findRoot · a b epsilon) fun f =>
    Search.IsReported (search a b epsilon) (.line f) := by
  refine isSafe_of_guarded (fun f f' h => ?_) fun f r hr => ?_
  · rw [findRoot, findRoot, Search.run, Search.run, h]
  · exact search_reportsAnswers.of_value (checked_bind_eq_ok_iff.mp (checked_bind_eq_ok_iff.mp hr).2).2

end GoldenCut

/-! ### Extrema -/

namespace GoldenSection

/-- The state has answers for the values that it may report. -/
structure State.HasAnswers (s : State α) : Prop where
  atLeft : IsAnswer s.atLeft
  atRight : IsAnswer s.atRight
  trace : s.trace.HasAnswers

variable {a b epsilon : α} {goal : Goal} {s : State α}

theorem isKept_hasAnswers : IsKept a b (@State.HasAnswers α _) where
  start _ _ hleft hright := ⟨hleft, hright, Trace.hasAnswers_nil⟩
  keepLeft _ _ hv h := ⟨hv, h.atLeft, h.trace.add h.atLeft _ _ _⟩
  keepRight _ _ hv h := ⟨h.atRight, hv, h.trace.add h.atRight _ _ _⟩

theorem search_reportsAnswers : Search.ReportsAnswers (search a b epsilon goal) :=
  isKept_hasAnswers.reports fun _ _ h hvalue hr => h.trace.report hvalue hr.history hr.values

theorem isSafe_findExtremum : IsSafe withinLimit (findExtremum · a b epsilon goal) fun f =>
    Search.IsReported (search a b epsilon goal) (.line f) := by
  refine isSafe_of_guarded (fun f f' h => ?_) fun f r hr => ?_
  · rw [findExtremum, findExtremum, Search.run, Search.run, h]
  · exact search_reportsAnswers.of_value (checked_bind_eq_ok_iff.mp (checked_bind_eq_ok_iff.mp hr).2).2

end GoldenSection

namespace AxisSearch

/-- The state has answers for the values that it may report. -/
structure State.HasAnswers (s : State α) : Prop where
  value : IsAnswer s.value
  bestValue : IsAnswer s.bestValue
  trace : s.trace.HasAnswers

variable {settings : Settings α} {s : State α} {goal : Goal} {axis : Axis} {p : α × α} {v : α}

theorem State.HasAnswers.advance (h : s.HasAnswers) (hv : IsAnswer v) : (s.advance goal axis p v).HasAnswers where
  value := hv
  bestValue := by
    unfold State.advance
    dsimp only
    split
    · exact hv
    · exact h.bestValue
  trace := h.trace.add hv _ _ _

theorem isKept_hasAnswers : IsKept settings State.HasAnswers where
  start _ hv := ⟨hv, hv, Trace.hasAnswers_nil.add hv _ _ _⟩
  move _ _ _ _ hv h := h.advance hv
  stay _ _ h := h.advance h.value

theorem search_reportsAnswers : Search.ReportsAnswers (search settings) :=
  isKept_hasAnswers.reports fun _ _ h hvalue hr => h.trace.report (hvalue ▸ h.bestValue) hr.history hr.values

theorem isSafe_findExtremum {stop : StopSignal} : IsSafe (fun q : α × α => withinLimit q.1 && withinLimit q.2)
    (fun f => findExtremum (fun x y => f (x, y)) settings stop) fun f =>
    Search.IsReported (search settings) (.plane fun x y => f (x, y)) where
  confined _ _ h := congrArg (checked settings.validate >>= fun _ => ·) (Search.runUnder_congr h _ stop)
  reported _ _ hr := search_reportsAnswers.of_runUnder (checked_bind_eq_ok_iff.mp hr).2

end AxisSearch

namespace Newton

/-- The ending has answers for its values. -/
structure Ending.HasAnswers (e : Ending α) : Prop where
  values : ∀ v ∈ e.values, IsAnswer v
  records : ∀ record ∈ e.records, IsAnswer record.value

variable {settings : Settings α} {e : Ending α}

theorem Ending.HasAnswers.track (h : e.HasAnswers) {fx : α} (hfx : IsAnswer fx) (d : Derivatives α) (direction : Direction) :
    ∀ record ∈ e.track settings fx d direction, IsAnswer record.value := by
  unfold Ending.track
  split
  · exact List.forall_mem_cons.mpr ⟨hfx, h.records⟩
  · exact h.records

theorem isKept_hasAnswers : IsKept settings Ending.HasAnswers where
  start _ := ⟨List.forall_mem_nil _, List.forall_mem_nil _⟩
  step _ _ _ _ d direction hfx h := ⟨List.forall_mem_cons.mpr ⟨hfx, h.values⟩, h.track hfx d direction⟩

theorem search_reportsAnswers : Search.ReportsAnswers (search settings) := by
  refine isKept_hasAnswers.reports fun e r h hvalue hhistory hvalues => ⟨hvalue, fun v hv => ?_, fun record hrecord => ?_⟩
  · rw [hvalues] at hv
    exact h.values v (List.mem_reverse.mp hv)
  · rw [hhistory] at hrecord
    exact h.records record (List.mem_reverse.mp hrecord)

theorem isSafe_findMinimum : IsSafe withinLimit (findMinimum · settings) fun f =>
    Search.IsReported (search settings) (.line f) := by
  refine isSafe_of_guarded (fun f f' h => ?_) fun f r hr => ?_
  · rw [findMinimum, findMinimum, Search.run, Search.run, h]
  · exact search_reportsAnswers.of_value (checked_bind_eq_ok_iff.mp hr).2

end Newton

/-! ### Integrals -/

namespace Integral

/-- The estimate has answers for values. -/
structure Estimate.HasAnswers (e : Estimate α) : Prop where
  value : IsAnswer e.value
  history : ∀ entry ∈ e.history, IsAnswer entry.2

/-- The estimate that the computation gives for the objective has answers for values, and the number of its requests. -/
structure IsReported (q : Query α α (Estimate α)) (o : Objective α α) (e : Estimate α) : Prop where
  answers : e.HasAnswers
  evaluations : e.evaluations = (q.requests o.guarded).length

variable {f : α → α} {a b epsilon : α} {rule : Rule} {rules : List Rule} {n : UInt64} {s : Settings α} {es : List (Estimate α)}

theorem yields_compositeSum : (compositeSum rule a b n).Yields IsAnswer :=
  (yields_true _).bind fun total _ => .done (isAnswer_sanitize total)

theorem isReported_fixedEstimate (o : Objective α α) :
    IsReported (fixedEstimate a b n rule) o ((fixedEstimate a b n rule).value o.guarded) where
  answers := by
    have hvalue : IsAnswer ((compositeSum rule a b (rule.fixedCount n)).value o.guarded) :=
      yields_compositeSum _ (isAnswer_guarded o)
    unfold fixedEstimate
    rw [value_bind, value_counted]
    exact ⟨hvalue, fun entry hentry => by rwa [List.mem_singleton.mp hentry]⟩
  evaluations := by
    unfold fixedEstimate
    rw [value_bind, requests_bind, value_counted, requests_counted]
    exact congrArg List.length (List.append_nil _).symm

theorem yields_rounds (fuel : ℕ) {history : List (UInt64 × α)} (h : ∀ entry ∈ history, IsAnswer entry.2) :
    (rounds rule epsilon fuel n history).Yields fun result => ∀ entry ∈ result.1, IsAnswer entry.2 := by
  induction fuel generalizing n history with
  | zero => exact .done h
  | succ fuel ih =>
    rw [rounds]
    refine Yields.checkpoint ((yields_request n).bind fun value hvalue => (yields_true _).bind fun accepted _ => ?_)
    have hentries : ∀ entry ∈ (n, value) :: history, IsAnswer entry.2 := List.forall_mem_cons.mpr ⟨hvalue, h⟩
    split
    · exact .done hentries
    split
    · exact .done hentries
    · exact ih hentries

theorem isReported_adaptiveEstimate (o : Objective α α) :
    IsReported (adaptiveEstimate a b s rule) o ((adaptiveEstimate a b s rule).value o.guarded) where
  answers := by
    have hentries : ((schedule s rule).expand (compositeSum rule a b)).Yields fun result =>
        ∀ entry ∈ result.1, IsAnswer entry.2 :=
      (yields_rounds _ (List.forall_mem_nil _)).expand fun count => yields_compositeSum
    have hvalue := hentries o.guarded (isAnswer_guarded o)
    unfold adaptiveEstimate
    rw [value_bind, value_counted]
    refine ⟨?_, fun entry hentry => hvalue entry (List.mem_reverse.mp hentry)⟩
    change IsAnswer ((((schedule s rule).expand (compositeSum rule a b)).value o.guarded).1.head?.getD _).2
    cases hhistory : (((schedule s rule).expand (compositeSum rule a b)).value o.guarded).1 with
    | nil => exact isAnswer_undefined
    | cons entry history => exact hvalue entry (hhistory ▸ List.mem_cons_self)
  evaluations := by
    unfold adaptiveEstimate
    rw [value_bind, requests_bind, value_counted, requests_counted]
    exact congrArg List.length (List.append_nil _).symm

theorem isSafe_integrate : IsSafe withinLimit (integrate · a b n rule) fun _ => IsAnswer := by
  refine isSafe_of_guarded (fun f f' h => ?_) fun f v hv => ?_
  · rw [integrate, integrate, h]
  · obtain rfl := Except.ok.inj (checked_bind_eq_ok_iff.mp hv).2
    exact yields_compositeSum _ (isAnswer_guarded _)

theorem isSafe_integrateFixed : IsSafe withinLimit (integrateFixed · a b n rules) fun f es =>
    List.Forall₂ (fun rule => IsReported (fixedEstimate a b n rule) (.line f)) rules es := by
  refine isSafe_of_guarded (fun f f' h => ?_) fun f es hes => ?_
  · rw [integrateFixed, integrateFixed, h]
  · obtain rfl := Except.ok.inj (checked_bind_eq_ok_iff.mp hes).2
    rw [List.forall₂_map_right_iff, List.forall₂_same]
    exact fun rule _ => isReported_fixedEstimate _

/-- A run that is not stopped gives the estimates of the rules one by one. -/
theorem eq_of_integrateAdaptive {stop : StopSignal} (h : integrateAdaptive f a b s rules stop = .ok es) :
    es = rules.map fun rule => (adaptiveEstimate a b s rule).value (Objective.line f).guarded := by
  have hrun := (checked_bind_eq_ok_iff.mp (checked_bind_eq_ok_iff.mp h).2).2
  have hor : Search.runUnder (adaptiveEstimates a b s [] rules) (.line f) stop =
    (adaptiveEstimates a b s [] rules).value (Objective.line f).guarded ∨ _ := Search.runUnder_eq_or
  rcases hor with hvalue | hcancelled
  · rw [hvalue, value_adaptiveEstimates] at hrun
    exact (Except.ok.inj hrun).symm
  · rw [hcancelled] at hrun
    cases hrun

theorem isSafe_integrateAdaptive {stop : StopSignal} : IsSafe withinLimit (integrateAdaptive · a b s rules stop) fun f es =>
    List.Forall₂ (fun rule => IsReported (adaptiveEstimate a b s rule) (.line f)) rules es where
  confined f f' h := congrArg (fun outcome => checked (checkInterval a b) >>= fun _ => checked s.validate >>= fun _ => outcome)
    (Search.runUnder_congr h _ stop)
  reported f es hes := by
    rw [eq_of_integrateAdaptive hes, List.forall₂_map_right_iff, List.forall₂_same]
    exact fun rule _ => isReported_adaptiveEstimate _

end Integral

/-- **Methods and misbehaving objectives.** Whatever the objective says, each method asks it for values within the limit only,
all values that it reports are defined or the sentinel, and it reports the number of its requests. -/
theorem methods_report_answers (α : Type) [Scalar α] :
    (∀ a b epsilon : α, IsSafe withinLimit (Bisection.findRoot · a b epsilon) fun f =>
      Search.IsReported (Bisection.search a b epsilon) (.line f)) ∧
    (∀ a b epsilon : α, IsSafe withinLimit (GoldenCut.findRoot · a b epsilon) fun f =>
      Search.IsReported (GoldenCut.search a b epsilon) (.line f)) ∧
    (∀ (a b epsilon : α) (goal : Goal), IsSafe withinLimit (GoldenSection.findExtremum · a b epsilon goal) fun f =>
      Search.IsReported (GoldenSection.search a b epsilon goal) (.line f)) ∧
    (∀ (settings : AxisSearch.Settings α) (stop : StopSignal),
      IsSafe (fun p : α × α => withinLimit p.1 && withinLimit p.2)
        (fun f => AxisSearch.findExtremum (fun x y => f (x, y)) settings stop) fun f =>
        Search.IsReported (AxisSearch.search settings) (.plane fun x y => f (x, y))) ∧
    (∀ settings : Newton.Settings α, IsSafe withinLimit (Newton.findMinimum · settings) fun f =>
      Search.IsReported (Newton.search settings) (.line f)) ∧
    (∀ (a b : α) (n : UInt64) (rule : Rule), IsSafe withinLimit (Integral.integrate · a b n rule) fun _ => IsAnswer) ∧
    (∀ (a b : α) (n : UInt64) (rules : List Rule), IsSafe withinLimit (Integral.integrateFixed · a b n rules) fun f =>
      List.Forall₂ (fun rule => Integral.IsReported (Integral.fixedEstimate a b n rule) (.line f)) rules) ∧
    (∀ (a b : α) (s : Integral.Settings α) (rules : List Rule) (stop : StopSignal),
      IsSafe withinLimit (Integral.integrateAdaptive · a b s rules stop) fun f =>
        List.Forall₂ (fun rule => Integral.IsReported (Integral.adaptiveEstimate a b s rule) (.line f)) rules) :=
  ⟨fun _ _ _ => Bisection.isSafe_findRoot, fun _ _ _ => GoldenCut.isSafe_findRoot,
    fun _ _ _ _ => GoldenSection.isSafe_findExtremum, fun _ _ => AxisSearch.isSafe_findExtremum,
    fun _ => Newton.isSafe_findMinimum, fun _ _ _ _ => Integral.isSafe_integrate,
    fun _ _ _ _ => Integral.isSafe_integrateFixed, fun _ _ _ _ _ => Integral.isSafe_integrateAdaptive⟩

end Numerics
