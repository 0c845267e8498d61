import Mathlib.Data.List.Chain
import Numerics.Proofs.Invariants

/-!
# The changes that a history tells of

The records of a history tell of the change since the record before.  A search that makes its history by `Trace.add` cannot
forget one (`Trace.IsMade.isLinked`), and all searches but one do so.  The Newton search keeps its records as they come, each
without a predecessor, so that they tell of no change at all, however far the iterates are apart (`histories_linked`).
-/

namespace Numerics

open Query Scalar

variable {α : Type} [Scalar α]

/-- The record tells of no change. -/
structure Record.IsUnchanged (r : Record α) : Prop where
  deltas : r.deltas = r.point.map fun _ => 0
  deltaValue : r.deltaValue = 0

/-- The second record tells of its changes since the first one: of each coordinate, and of the value if both are defined. -/
structure Record.IsFollowedBy (previous r : Record α) : Prop where
  length : r.point.length = previous.point.length
  deltas : r.deltas = r.point.zipWith (fun now before => now - before) previous.point
  deltaValue : r.deltaValue = if isDefined r.value && isDefined previous.value then r.value - previous.value else 0

/-- The first record tells of no change, and each later one of its changes since the one before. -/
structure IsLinked (history : List (Record α)) : Prop where
  first : ∀ r ∈ history.head?, r.IsUnchanged
  later : history.IsChain Record.IsFollowedBy

/-! ### Traces -/

/-- A trace that was made by adding one record after the other, each for a point with `d` coordinates. -/
inductive Trace.IsMade (d : ℕ) : Trace α → Prop where
  | nil : IsMade d []
  | add {t : Trace α} (h : IsMade d t) {point : List α} (hpoint : point.length = d) (index : ℕ) (value : α)
      (direction : Direction) : IsMade d (t.add index point value direction)

section Traces

variable {t : Trace α} {d : ℕ} {point : List α}

theorem Record.isUnchanged_first (index : ℕ) (point : List α) (value : α) (direction : Direction) :
    (Record.first index point value direction).IsUnchanged := ⟨rfl, rfl⟩

theorem Trace.IsMade.length_point (h : t.IsMade d) : ∀ r ∈ t, r.point.length = d := by
  induction h with
  | nil => exact List.forall_mem_nil _
  | @add t h point hpoint index value direction ih =>
    obtain ⟨record, hadd, hrecord, -, -⟩ := t.exists_add index point value direction
    rw [hadd, List.forall_mem_cons, hrecord]
    exact ⟨hpoint, ih⟩

/-- A record that is added tells of its changes since the newest one. -/
theorem Trace.isFollowedBy_add {previous : Record α} (h : Trace.IsMade d (previous :: t)) (hpoint : point.length = d)
    (index : ℕ) (value : α) (direction : Direction) :
    previous.IsFollowedBy ((Record.first index point value direction).since previous) where
  length := hpoint.trans (h.length_point previous List.mem_cons_self).symm
  deltas := rfl
  deltaValue := rfl

/-- **Adding records.** A history that is made by adding records is linked. -/
theorem Trace.IsMade.isLinked (h : t.IsMade d) : IsLinked t.reverse := by
  induction h with
  | nil => exact ⟨nofun, .nil⟩
  | @add t h point hpoint index value direction ih =>
    cases t with
    | nil => exact ⟨fun r hr => Option.mem_some.mp hr ▸ Record.isUnchanged_first _ _ _ _, .singleton _⟩
    | cons previous t =>
      change IsLinked ((Record.first index point value direction).since previous :: previous :: t).reverse
      have hlater := ih.later
      rw [List.isChain_reverse] at hlater
      constructor
      · have hfirst := ih.first
        rw [List.head?_reverse] at hfirst ⊢
        exact hfirst
      · rw [List.isChain_reverse, List.isChain_cons_cons]
        exact ⟨isFollowedBy_add h hpoint _ _ _, hlater⟩

end Traces

/-- The report has a history that was made by adding records. -/
def Report.IsMade (d : ℕ) (r : Report α) : Prop := ∃ t : Trace α, t.IsMade d ∧ r.history = t.reverse

theorem Report.IsMade.isLinked {d : ℕ} {r : Report α} (h : r.IsMade d) : IsLinked r.history := by
  obtain ⟨t, ht, hhistory⟩ := h
  rw [hhistory]
  exact ht.isLinked

theorem Report.isMade_atEnd (x v epsilon : α) : (Report.atEnd x v epsilon).IsMade 1 :=
  ⟨_, Trace.IsMade.nil.add (List.length_singleton) 0 v .start, rfl⟩

/-! ### Searches -/

section Searches

variable {a b epsilon : α} {r : Report α}

/-- A search whose reports have histories made by adding records. -/
theorem isLinked_of_value {ι : Type} {s : Query ι α (Outcome α (Report α))} {o : Objective ι α} {d : ℕ}
    (h : Search.Reports s (Report.IsMade d)) (hr : (Search.counted s).value o.guarded = .ok r) : IsLinked r.history := by
  obtain ⟨r', hr', rfl⟩ := h.of_value hr
  exact hr'.isLinked

theorem Bisection.isMade_trace (a b : α) : IsKept a b fun s => s.trace.IsMade 1 where
  start _ _ _ _ _ := .nil
  halve s hs := by
    unfold State.halve
    split
    · exact hs.add rfl _ _ _
    · exact hs.add rfl _ _ _
  middle _ _ _ _ hs := hs

theorem Bisection.isLinked_history {f : α → α} (hr : findRoot f a b epsilon = .ok r) : IsLinked r.history := by
  have hmade : Search.Reports (search a b epsilon) (Report.IsMade 1) :=
    (isMade_trace a b).reports (fun x v _ => Report.isMade_atEnd x v epsilon) fun s _ hs => ⟨_, hs, rfl⟩
  exact isLinked_of_value hmade (checked_bind_eq_ok_iff.mp (checked_bind_eq_ok_iff.mp hr).2).2

theorem GoldenCut.isMade_trace (a b : α) : IsKept a b fun s => s.trace.IsMade 1 where
  start _ _ := .nil
  keep s x fx _ hs := by
    unfold State.keep
    split
    · exact hs.add rfl _ _ _
    split
    · exact hs.add rfl _ _ _
    · exact hs.add rfl _ _ _

theorem GoldenCut.isLinked_history {f : α → α} (hr : findRoot f a b epsilon = .ok r) : IsLinked r.history := by
  have hmade : Search.Reports (search a b epsilon) (Report.IsMade 1) :=
    (isMade_trace a b).reports (fun x v _ => Report.isMade_atEnd x v epsilon) fun s _ hs _ h => ⟨_, hs, h.history⟩
  exact isLinked_of_value hmade (checked_bind_eq_ok_iff.mp (checked_bind_eq_ok_iff.mp hr).2).2

theorem GoldenSection.isMade_trace (a b : α) : IsKept a b fun s => s.trace.IsMade 1 where
  start _ _ _ _ := .nil
  keepLeft _ _ _ hs := hs.add rfl _ _ _
  keepRight _ _ _ hs := hs.add rfl _ _ _

theorem GoldenSection.isLinked_history {f : α → α} {goal : Goal} (hr : findExtremum f a b epsilon goal = .ok r) :
    IsLinked r.history := by
  have hmade : Search.Reports (search a b epsilon goal) (Report.IsMade 1) :=
    (isMade_trace a b).reports fun s _ hs _ h => ⟨_, hs, h.history⟩
  exact isLinked_of_value hmade (checked_bind_eq_ok_iff.mp (checked_bind_eq_ok_iff.mp hr).2).2

theorem AxisSearch.isMade_trace (settings : AxisSearch.Settings α) : IsKept settings fun s => s.trace.IsMade 2 where
  start _ _ := (Trace.IsMade.nil : Trace.IsMade 2 ([] : Trace α)).add rfl _ _ _
  move _ _ _ _ _ hs := hs.add rfl _ _ _
  stay _ _ hs := hs.add rfl _ _ _

theorem AxisSearch.isLinked_history {f : α → α → α} {settings : AxisSearch.Settings α} {stop : StopSignal}
    (hr : findExtremum f settings stop = .ok r) : IsLinked r.history := by
  have hmade : Search.Reports (search settings) (Report.IsMade 2) :=
    (isMade_trace settings).reports fun s _ hs _ h => ⟨_, hs, h.history⟩
  obtain ⟨r', hr', rfl⟩ := hmade.of_runUnder (checked_bind_eq_ok_iff.mp hr).2
  exact hr'.isLinked

theorem Newton.isUnchanged_records (settings : Newton.Settings α) :
    IsKept settings fun e => ∀ record ∈ e.records, record.IsUnchanged where
  start _ := List.forall_mem_nil _
  step e x verdict fx d direction _ he := by
    unfold Ending.track
    split
    · exact List.forall_mem_cons.mpr ⟨⟨rfl, rfl⟩, he⟩
    · exact he

/-- Iterates are recorded without a predecessor. -/
theorem Newton.isUnchanged_history {f : α → α} {settings : Newton.Settings α} (hr : findMinimum f settings = .ok r) :
    ∀ record ∈ r.history, record.IsUnchanged := by
  have hrecords : Search.Reports (search settings) fun r => ∀ record ∈ r.history, record.IsUnchanged :=
    (isUnchanged_records settings).reports fun e _ he _ hhistory _ record hrecord =>
      he record (List.mem_reverse.mp (hhistory ▸ hrecord))
  obtain ⟨r', hr', rfl⟩ := hrecords.of_value (checked_bind_eq_ok_iff.mp hr).2
  exact hr'

end Searches

/-- **Histories.** The records of each search but the Newton search tell of the changes since the record before; those of the
Newton search tell of no changes. -/
theorem histories_linked (α : Type) [Scalar α] :
    (∀ (f : α → α) (a b epsilon : α) (r : Report α), Bisection.findRoot f a b epsilon = .ok r → IsLinked r.history) ∧
    (∀ (f : α → α) (a b epsilon : α) (r : Report α), GoldenCut.findRoot f a b epsilon = .ok r → IsLinked r.history) ∧
    (∀ (f : α → α) (a b epsilon : α) (goal : Goal) (r : Report α),
      GoldenSection.findExtremum f a b epsilon goal = .ok r → IsLinked r.history) ∧
    (∀ (f : α → α → α) (settings : AxisSearch.Settings α) (stop : StopSignal) (r : Report α),
      AxisSearch.findExtremum f settings stop = .ok r → IsLinked r.history) ∧
    (∀ (f : α → α) (settings : Newton.Settings α) (r : Report α),
      Newton.findMinimum f settings = .ok r → ∀ record ∈ r.history, record.IsUnchanged) :=
  ⟨fun _ _ _ _ _ => Bisection.isLinked_history, fun _ _ _ _ _ => GoldenCut.isLinked_history,
    fun _ _ _ _ _ _ => GoldenSection.isLinked_history, fun _ _ _ _ => AxisSearch.isLinked_history,
    fun _ _ _ => Newton.isUnchanged_history⟩

omit [Scalar α] in
/-- A run that reports a history of two records at least. -/
theorem exists_long_history {x : Outcome α (Report α)} {p : Report α → Prop}
    (hrun : x.toOption.any (fun r => decide (2 ≤ r.history.length)) = true) (hp : ∀ r, x = .ok r → p r) :
    ∃ r, x = .ok r ∧ 2 ≤ r.history.length ∧ p r := by
  obtain ⟨r, hr, hlong⟩ := exists_of_toOption_any hrun
  exact ⟨r, hr, of_decide_eq_true hlong, hp r hr⟩

/-- The square root of two by both root searches, and the lowest points of parabolas, by machine numbers. -/
theorem histories_linked_parabolas :
    (∃ r, Bisection.findRoot (fun x : Float => x * x - 2) 0 2 0.25 = .ok r ∧ 2 ≤ r.history.length ∧ IsLinked r.history) ∧
    (∃ r, GoldenCut.findRoot (fun x : Float => x * x - 2) 0 2 0.25 = .ok r ∧ 2 ≤ r.history.length ∧ IsLinked r.history) ∧
    (∃ r, GoldenSection.findExtremum (fun x : Float => x * x) (-1) 2 0.25 .minimize = .ok r ∧ 2 ≤ r.history.length ∧
      IsLinked r.history) ∧
    (∃ r, AxisSearch.findExtremum (fun x y : Float => x * x + y * y)
      { AxisSearch.Settings.default with start := some (1, 1), epsilon := 0.25 } .never = .ok r ∧ 2 ≤ r.history.length ∧
      IsLinked r.history) ∧
    ∃ r, Newton.findMinimum (fun x : Float => x * x) { Newton.Settings.default with x0 := 3, trackSteps := true } = .ok r ∧
      2 ≤ r.history.length ∧ ∀ record ∈ r.history, record.IsUnchanged := by
  obtain ⟨hbisection, hcut, hsection, haxis, hnewton⟩ := histories_linked Float
  exact ⟨exists_long_history (by decide +kernel) (hbisection _ 0 2 0.25),
    exists_long_history (by decide +kernel) (hcut _ 0 2 0.25),
    exists_long_history (by decide +kernel) (hsection _ (-1) 2 0.25 .minimize),
    exists_long_history (by decide +kernel) (haxis _ _ .never), exists_long_history (by decide +kernel) (hnewton _ _)⟩

/-- The newest record of a history of two records that tells of no fall of the value, although the value falls. -/
def hidesFall (history : List (Record Float)) : Bool :=
  match history with
  | [previous, record] => isDefined record.value && isDefined previous.value &&
      decide (record.value - previous.value < 0 ∧ ¬ record.deltaValue < 0)
  | _ => false

theorem IsLinked.hidesFall_eq_false {history : List (Record Float)} (h : IsLinked history) : hidesFall history = false := by
  unfold hidesFall
  split
  · next previous record =>
    have hdelta := (List.isChain_cons_cons.mp h.later).1.deltaValue
    cases hdefined : isDefined record.value && isDefined previous.value with
    | false => rfl
    | true =>
      rw [if_pos hdefined] at hdelta
      rw [Bool.true_and, decide_eq_false_iff_not, hdelta]
      exact fun hfalls => hfalls.2 hfalls.1
  · rfl

/-- From 3 the Newton search goes to the lowest point 1 of a parabola, and its second record tells of no change. -/
theorem newton_history_unlinked : ¬ ∀ (f : Float → Float) (settings : Newton.Settings Float) (r : Report Float),
    settings.trackSteps = true → Newton.findMinimum f settings = .ok r → IsLinked r.history := by
  intro hclaim
  have hrun : (Newton.findMinimum (fun x : Float => (x - 1) * (x - 1))
      { Newton.Settings.default with x0 := 3, trackSteps := true }).toOption.any (hidesFall ·.history) = true := by
    decide +kernel
  obtain ⟨r, hr, hhides⟩ := exists_of_toOption_any hrun
  rw [(hclaim _ _ r rfl hr).hidesFall_eq_false] at hhides
  cases hhides

end Numerics
