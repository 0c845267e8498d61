import Numerics.Extremum.AxisSearch
import Numerics.Extremum.GoldenSection
import Numerics.Extremum.Newton
import Numerics.Proofs.Answers
import Numerics.Root.Bisection
import Numerics.Root.GoldenCut

/-!
# What the steps of a search keep

A rule for each search: a property of its states that holds at the start and that each step keeps, whatever the answers are
(`IsKept`), holds of the state that the search reports (`IsKept.reports`).  So a fact about all reports of a method is a fact
about its single steps.
-/

namespace Numerics

open Query Scalar

variable {α : Type} [Scalar α]

/-- The report has the history of a search that ended with the trace. -/
structure Report.IsOf (r : Report α) (t : Trace α) : Prop where
  history : r.history = t.reverse
  values : r.values = t.reverse.map (·.value)

/-! ### Roots -/

namespace Bisection

variable {a b epsilon : α} {p : State α → Prop} {q : Report α → Prop} {s : State α}

/-- The property holds before the first halving, and halvings keep it. -/
structure IsKept (a b : α) (p : State α → Prop) : Prop where
  start : ∀ atLo mid atMid, IsAnswer atLo → IsAnswer atMid →
    p { lo := a, hi := b, atLo, mid, atMid, steps := 0, trace := [] }
  halve : ∀ s, p s → p s.halve
  middle : ∀ s mid v, IsAnswer v → p s → p (s.withMiddle mid v)

theorem IsKept.halvings (h : IsKept a b p) (fuel : ℕ) (hs : p s) :
    (halvings epsilon fuel s).Yields fun result => p result.1 := by
  induction fuel generalizing s with
  | zero => exact .done hs
  | succ fuel ih =>
    rw [Bisection.halvings]
    split
    · exact .done (h.halve s hs)
    · exact .ask fun v hv => ih (h.middle _ _ v hv (h.halve s hs))

/-- **Bisection.** What halvings keep holds of the state that is reported, unless it is an end of the interval. -/
theorem IsKept.reports (h : IsKept a b p) (hend : ∀ x v, IsAnswer v → q (.atEnd x v epsilon))
    (hreport : ∀ s status, p s → q (s.report epsilon status)) : Search.Reports (search a b epsilon) q := by
  refine (yields_true _).bind fun isDefined _ => ?_
  split
  · exact .done nofun
  refine (yields_true _).bind fun same _ => ?_
  split
  · exact .done nofun
  refine (yields_request a).bind fun fa hfa => (yields_request b).bind fun fb hfb => ?_
  split
  · exact .done fun r hr => Except.ok.inj hr ▸ hend _ _ hfa
  split
  · exact .done fun r hr => Except.ok.inj hr ▸ hend _ _ hfb
  refine (yields_request _).bind fun atMid hmid => ?_
  refine (h.halvings _ (h.start _ _ _ hfa hmid)).bind fun result hresult => ?_
  exact .done fun r hr => Except.ok.inj hr ▸ hreport _ _ hresult

end Bisection

namespace GoldenCut

variable {a b epsilon : α} {p : State α → Prop} {q : Report α → Prop} {s : State α}

/-- The property holds before the first cut, and cuts keep it. -/
structure IsKept (a b : α) (p : State α → Prop) : Prop where
  start : ∀ atLo, IsAnswer atLo → p { lo := a, hi := b, atLo, steps := 0, trace := [] }
  keep : ∀ s x fx, IsAnswer fx → p s → p (s.keep x fx)

theorem IsKept.cuts (h : IsKept a b p) (fuel : ℕ) (hs : p s) : (cuts epsilon fuel s).Yields p := by
  induction fuel generalizing s with
  | zero => exact .done hs
  | succ fuel ih =>
    rw [GoldenCut.cuts]
    split
    · exact .ask fun fx hfx => ih (h.keep s _ fx hfx hs)
    · exact .done hs

/-- **Golden cuts.** What cuts keep holds of the state that is reported, unless it is an end of the interval. -/
theorem IsKept.reports (h : IsKept a b p) (hend : ∀ x v, IsAnswer v → q (endReport a b epsilon x v))
    (hreport : ∀ s r, p s → IsAnswer r.value → r.IsOf s.trace → q r) : Search.Reports (search a b epsilon) q := by
  refine (yields_true _).bind fun isDefined _ => ?_
  split
  · exact .done nofun
  refine (yields_true _).bind fun same _ => ?_
  split
  · exact .done nofun
  refine (yields_request a).bind fun fa hfa => (yields_request b).bind fun fb hfb => ?_
  split
  · exact .done fun r hr => Except.ok.inj hr ▸ hend _ _ hfa
  split
  · exact .done fun r hr => Except.ok.inj hr ▸ hend _ _ hfb
  refine (h.cuts _ (h.start _ hfa)).bind fun s hs => (yields_request _).bind fun fx hfx => ?_
  exact .done fun r hr => Except.ok.inj hr ▸ hreport s _ hs hfx ⟨rfl, rfl⟩

end GoldenCut

/-! ### Extrema -/

namespace GoldenSection

variable {a b epsilon : α} {goal : Goal} {p : State α → Prop} {q : Report α → Prop} {s : State α}

/-- The property holds before the first step, and steps keep it. -/
structure IsKept (a b : α) (p : State α → Prop) : Prop where
  start : ∀ atLeft atRight, IsAnswer atLeft → IsAnswer atRight →
    p { bracket := .new a b, atLeft, atRight, steps := 0, trace := [] }
  keepLeft : ∀ s v, IsAnswer v → p s → p (s.keepLeft s.bracket.dropRight v)
  keepRight : ∀ s v, IsAnswer v → p s → p (s.keepRight s.bracket.dropLeft v)

theorem IsKept.shrink (h : IsKept a b p) (hs : p s) : (shrink goal s).Yields p := by
  unfold GoldenSection.shrink
  split
  · exact .ask fun v hv => .done (h.keepLeft s v hv hs)
  · exact .ask fun v hv => .done (h.keepRight s v hv hs)

theorem IsKept.shrinkings (h : IsKept a b p) (fuel : ℕ) (hs : p s) : (shrinkings goal epsilon fuel s).Yields p := by
  induction fuel generalizing s with
  | zero => exact .done hs
  | succ fuel ih =>
    rw [GoldenSection.shrinkings]
    split
    · exact (h.shrink hs).bind fun s hs => ih hs
    · exact .done hs

/-- **Golden sections.** What steps keep holds of the state that is reported. -/
theorem IsKept.reports (h : IsKept a b p) (hreport : ∀ s r, p s → IsAnswer r.value → r.IsOf s.trace → q r) :
    Search.Reports (search a b epsilon goal) q := by
  refine (yields_true _).bind fun isDefined _ => ?_
  split
  · exact .done nofun
  refine (yields_true _).bind fun constant _ => ?_
  refine (yields_request _).bind fun atLeft hleft => (yields_request _).bind fun atRight hright => ?_
  refine (h.shrinkings _ (h.start _ _ hleft hright)).bind fun s hs => (yields_request _).bind fun fx hfx => ?_
  exact .done fun r hr => Except.ok.inj hr ▸ hreport s _ hs hfx ⟨rfl, rfl⟩

end GoldenSection

namespace AxisSearch

variable {settings : Settings α} {p : State α → Prop} {q : Report α → Prop} {s : State α} {axis : Axis}

/-- The property holds at the starting point, and iterations keep it, whether they move the point or not. -/
structure IsKept (settings : Settings α) (p : State α → Prop) : Prop where
  start : ∀ v, IsAnswer v → p (.initial settings.startPoint v)
  move : ∀ s axis x v, IsAnswer v → p s → p (s.advance settings.goal axis x v)
  stay : ∀ s axis, p s → p (s.advance settings.goal axis s.point s.value)

theorem yields_axisStep {point : α × α} {v : α} :
    (axisStep settings axis point v).Yields fun move => ∀ x ∈ move, IsAnswer x.2 := by
  refine (yields_true _).bind fun back _ => (yields_true _).bind fun forward _ => ?_
  dsimp only
  split
  · exact .done nofun
  refine (yields_true _).bind fun t _ => (yields_request _).bind fun candidate hcandidate => .done fun x hx => ?_
  split at hx
  · obtain rfl := Option.mem_some.mp hx
    exact hcandidate
  · cases hx

theorem IsKept.step (h : IsKept settings p) (hs : p s) : (step settings s).Yields p := by
  refine yields_axisStep.bind fun move hmove => ?_
  split
  · exact .done (h.move s _ _ _ (hmove _ rfl) hs)
  · exact .done (h.stay s _ hs)

theorem IsKept.iterate (h : IsKept settings p) (fuel : ℕ) (hs : p s) :
    (iterate settings fuel s).Yields fun result => p result.1 := by
  induction fuel generalizing s with
  | zero => exact .done hs
  | succ fuel ih =>
    rw [AxisSearch.iterate]
    refine Yields.checkpoint ((h.step hs).bind fun next hnext => ?_)
    split
    · exact .done hnext
    split
    · exact .done hnext
    · exact ih hnext

/-- **Searches along the axes.** What iterations keep holds of the state that is reported. -/
theorem IsKept.reports (h : IsKept settings p) (hreport : ∀ s r, p s → r.value = s.bestValue → r.IsOf s.trace → q r) :
    Search.Reports (search settings) q := by
  refine (yields_request _).bind fun value hvalue => ?_
  refine (h.iterate _ (h.start _ hvalue)).bind fun result hresult => ?_
  exact .done fun r hr => Except.ok.inj hr ▸ hreport _ _ hresult rfl ⟨rfl, rfl⟩

end AxisSearch

namespace Newton

variable {settings : Settings α} {p : Ending α → Prop} {q : Report α → Prop} {e : Ending α}

/-- The records after one more iterate, if they are kept. -/
def Ending.track (settings : Settings α) (e : Ending α) (fx : α) (d : Derivatives α) (direction : Direction) :
    List (Record α) :=
  if settings.trackSteps then record e.values.length e.x fx d direction :: e.records else e.records

/-- The property holds at the first iterate, and iterations keep it. -/
structure IsKept (settings : Settings α) (p : Ending α → Prop) : Prop where
  start : ∀ x, p { x, verdict := none, values := [], records := [] }
  step : ∀ e x verdict fx d direction, IsAnswer fx → p e →
    p { x, verdict, values := fx :: e.values, records := e.track settings fx d direction }

theorem IsKept.iterations (h : IsKept settings p) (fuel : ℕ) (he : p e) : (iterate settings fuel e).Yields p := by
  induction fuel generalizing e with
  | zero => exact .done he
  | succ fuel ih =>
    rw [Newton.iterate]
    refine (yields_request _).bind fun fx hfx => (yields_true _).bind fun d _ => ?_
    dsimp only
    split
    · exact .done (h.step e _ _ fx d _ hfx he)
    split
    · exact (yields_true _).bind fun there _ => .done (h.step e _ _ fx d _ hfx he)
    · exact ih (h.step e _ _ fx d _ hfx he)

/-- **Newton steps.** What iterations keep holds of the ending that is reported. -/
theorem IsKept.reports (h : IsKept settings p)
    (hreport : ∀ e r, p e → IsAnswer r.value → r.history = e.records.reverse → r.values = e.values.reverse → q r) :
    Search.Reports (search settings) q := by
  refine (h.iterations _ (h.start _)).bind fun e he => ?_
  extract_lets report
  have hyields : ∀ result, Search.Reports (report result) q := fun result =>
    (yields_true _).bind fun d _ => (yields_request _).bind fun fx hfx =>
      .done fun r hr => Except.ok.inj hr ▸ hreport e _ he hfx rfl rfl
  split
  · exact (yields_true _).bind fun result _ => hyields result
  · exact (yields_true _).bind fun rescued _ => (yields_true _).bind fun result _ => hyields result

end Newton

end Numerics
