import Mathlib
import Numerics.Proofs.Answers
import Numerics.Proofs.MachineNumbers
import Numerics.Root.Bisection

/-!
# The bracket of a bisection

A bisection that starts from a bracket with values of different signs keeps one.  A halving keeps the half whose ends have
different signs, unless the value at the middle is below the tolerance (`HasSignChange.halve`), and then the search stops.  The
checks before the first halving do not see to the signs alone: a value close to zero passes them with any sign, and stands
for a root only if it is below the tolerance too.  So a sign change is kept for each tolerance above what counts as close to
zero, and for smaller ones if there is one to keep, as there is if neither end has a value close to zero
(`findRoot_keeps_sign_change`).
-/

namespace Numerics.Bisection

open Query Scalar

variable {α : Type} [Scalar α]

/-- The values at the ends of the bracket have different signs. -/
def HasSignChange (g : α → α) (bracket : α × α) : Prop :=
  g bracket.1 < 0 ∧ 0 < g bracket.2 ∨ 0 < g bracket.1 ∧ g bracket.2 < 0

/-- The half of the bracket that a halving keeps. -/
def half (bracket : α × α) : Direction → α × α
  | .keepLeft => (bracket.1, midpoint bracket.1 bracket.2)
  | _ => (midpoint bracket.1 bracket.2, bracket.2)

/-- What the halvings of a history leave of a bracket. -/
def bracketAfter (bracket : α × α) (history : List (Record α)) : α × α :=
  history.foldl (fun left record => half left record.direction) bracket

/-- The record tells of a halving of the bracket, `g` being the function searched. -/
structure IsHalving (g : α → α) (bracket : α × α) (record : Record α) : Prop where
  point : record.point = [midpoint bracket.1 bracket.2]
  value : record.value = g (midpoint bracket.1 bracket.2)

/-- The history is one of halvings of the bracket, each of which leaves a sign change behind or ends at a root. -/
structure KeepsSignChange (g : α → α) (bracket : α × α) (epsilon : α) (r : Report α) : Prop where
  iterations : r.iterations = r.history.length
  halving : ∀ before record after, r.history = before ++ record :: after →
    IsHalving g (bracketAfter bracket before) record
  keeps : ∀ before record after, r.history = before ++ record :: after →
    HasSignChange g (bracketAfter bracket (before ++ [record])) ∨
      Scalar.abs record.value < epsilon ∧ after = [] ∧ r.status = .converged ∧ r.point = record.point ∧ r.value = record.value
  finalInterval : r.finalInterval = some (bracketAfter bracket r.history)

/-! ### Halvings -/

/-- The state has the history of the halvings that led from the bracket to its own. -/
structure IsHistory (g : α → α) (bracket : α × α) (s : State α) : Prop where
  steps : s.steps = s.trace.length
  left : bracketAfter bracket s.trace.reverse = (s.lo, s.hi)
  halving : ∀ before record after, s.trace.reverse = before ++ record :: after →
    IsHalving g (bracketAfter bracket before) record

/-- The state before the next halving: at the middle of its bracket, after halvings each of which left a sign change. -/
structure IsBracketed (g : α → α) (bracket : α × α) (s : State α) : Prop where
  atLo : s.atLo = g s.lo
  mid : s.mid = midpoint s.lo s.hi
  atMid : s.atMid = g s.mid
  hasSignChange : HasSignChange g (s.lo, s.hi)
  history : IsHistory g bracket s
  keeps : ∀ before record after, s.trace.reverse = before ++ record :: after →
    HasSignChange g (bracketAfter bracket (before ++ [record]))

/-- The state before the halving after this one. -/
def State.next (g : α → α) (s : State α) : State α :=
  s.halve.withMiddle (midpoint s.halve.lo s.halve.hi) (g (midpoint s.halve.lo s.halve.hi))

section Halvings

variable {g : α → α} {bracket : α × α} {epsilon : α} {s : State α}

theorem halve_mid (s : State α) : s.halve.mid = s.mid := by
  unfold State.halve
  split <;> rfl

theorem halve_atMid (s : State α) : s.halve.atMid = s.atMid := by
  unfold State.halve
  split <;> rfl

theorem halve_steps (s : State α) : s.halve.steps = s.steps + 1 := by
  unfold State.halve
  split <;> rfl

/-- **Runs of halvings.** What each step keeps holds of the state before the halving that ends the run, or of the state
after the last one. -/
theorem value_halvings {p : State α → Prop} (hstep : ∀ s, p s → s.halve.settled epsilon = false → p (s.next g))
    (fuel : ℕ) (hs : p s) :
    (∃ t, p t ∧ t.halve.settled epsilon = true ∧ (halvings epsilon fuel s).value g = (t.halve, .converged)) ∨
      ∃ t, p t ∧ t.steps = s.steps + fuel ∧ (halvings epsilon fuel s).value g = (t, .iterationLimit) := by
  induction fuel generalizing s with
  | zero => exact .inr ⟨s, hs, rfl, rfl⟩
  | succ fuel ih =>
    cases hsettled : s.halve.settled epsilon with
    | true => exact .inl ⟨s, hs, hsettled, by rw [halvings, if_pos hsettled]; rfl⟩
    | false =>
      have hvalue : (halvings epsilon (fuel + 1) s).value g = (halvings epsilon fuel (s.next g)).value g := by
        rw [halvings, if_neg (by rw [hsettled]; exact nofun)]
        rfl
      have hsteps : (s.next g).steps = s.steps + 1 := halve_steps s
      rw [hvalue]
      refine (ih (hstep s hs hsettled)).imp_right fun ⟨t, ht, hfuel, hend⟩ => ⟨t, ht, ?_, hend⟩
      omega

/-- A halving adds a record of the half it keeps. -/
theorem exists_trace_halve (s : State α) : ∃ record, s.halve.trace = record :: s.trace ∧ record.point = [s.mid] ∧
    record.value = s.atMid ∧ record.direction = if oppositeSigns s.atLo s.atMid then .keepLeft else .keepRight := by
  unfold State.halve
  split
  · exact s.trace.exists_add _ _ _ _
  · exact s.trace.exists_add _ _ _ _

theorem halve_bracket (hmid : s.mid = midpoint s.lo s.hi) : (s.halve.lo, s.halve.hi) =
    half (s.lo, s.hi) (if oppositeSigns s.atLo s.atMid then .keepLeft else .keepRight) := by
  unfold State.halve
  split
  · rw [hmid]; rfl
  · rw [hmid]; rfl

/-- The middle becomes one of the ends. -/
theorem mid_eq_end (s : State α) : s.mid = s.halve.lo ∨ s.mid = s.halve.hi := by
  unfold State.halve
  split
  · exact .inr rfl
  · exact .inl rfl

/-- The last record of a history, or one before it. -/
theorem eq_or_exists_of_concat_eq {β : Type} {l before after : List β} {x y : β} (h : l ++ [x] = before ++ y :: after) :
    (before = l ∧ y = x ∧ after = []) ∨ ∃ rest, l = before ++ y :: rest := by
  rcases after.eq_nil_or_concat' with rfl | ⟨rest, z, rfl⟩
  · obtain ⟨rfl, hlast⟩ := List.append_inj' h rfl
    exact .inl ⟨rfl, (List.singleton_inj.mp hlast).symm, rfl⟩
  · rw [← List.cons_append, ← List.append_assoc] at h
    exact .inr ⟨rest, List.append_inj_left' h rfl⟩

theorem bracketAfter_concat (history : List (Record α)) (record : Record α) :
    bracketAfter bracket (history ++ [record]) = half (bracketAfter bracket history) record.direction :=
  List.foldl_concat ..

/-- One more halving. -/
theorem IsHistory.halve (h : IsHistory g bracket s) (hmid : s.mid = midpoint s.lo s.hi) (hatMid : s.atMid = g s.mid) :
    IsHistory g bracket s.halve := by
  obtain ⟨record, htrace, hpoint, hvalue, hdirection⟩ := exists_trace_halve s
  constructor
  · rw [halve_steps, htrace, List.length_cons, h.steps]
  · rw [htrace, List.reverse_cons, bracketAfter_concat, h.left, hdirection, halve_bracket hmid]
  · intro before other after hsplit
    rw [htrace, List.reverse_cons] at hsplit
    rcases eq_or_exists_of_concat_eq hsplit with ⟨rfl, rfl, -⟩ | ⟨rest, hrest⟩
    · rw [h.left]
      exact ⟨by rw [hpoint, hmid], by rw [hvalue, hatMid, hmid]⟩
    · exact h.halving _ _ _ hrest

theorem halve_atLo (hlo : s.atLo = g s.lo) (hmid : s.atMid = g s.mid) : s.halve.atLo = g s.halve.lo := by
  unfold State.halve
  split
  · exact hlo
  · exact hmid

variable [SignedOrder α]

/-- The sign of a value decides on a part of the bracket with a sign change. -/
theorem HasSignChange.part {m : α} (h : HasSignChange g bracket) (hsign : g m < 0 ∨ 0 < g m) :
    HasSignChange g (if oppositeSigns (g bracket.1) (g m) then (bracket.1, m) else (m, bracket.2)) := by
  unfold oppositeSigns
  rcases h with ⟨hlo, hhi⟩ | ⟨hlo, hhi⟩ <;> rcases hsign with hneg | hpos
  · rw [SignedOrder.isNegative_of_neg hlo, SignedOrder.isNegative_of_neg hneg]
    exact .inl ⟨hneg, hhi⟩
  · rw [SignedOrder.isNegative_of_neg hlo, SignedOrder.isNegative_of_pos hpos]
    exact .inl ⟨hlo, hpos⟩
  · rw [SignedOrder.isNegative_of_pos hlo, SignedOrder.isNegative_of_neg hneg]
    exact .inr ⟨hlo, hneg⟩
  · rw [SignedOrder.isNegative_of_pos hlo, SignedOrder.isNegative_of_pos hpos]
    exact .inr ⟨hpos, hhi⟩

/-- A value that is not below the tolerance decides on a half with a sign change. -/
theorem HasSignChange.half {m : α} (h : HasSignChange g bracket) (hm : midpoint bracket.1 bracket.2 = m)
    (hsign : g m < 0 ∨ 0 < g m) :
    HasSignChange g (half bracket (if oppositeSigns (g bracket.1) (g m) then .keepLeft else .keepRight)) := by
  subst hm
  rw [apply_ite (Bisection.half bracket)]
  exact h.part hsign

variable (hfinite : ∀ x, isFinite (g x) = true) (hepsilon : isFinite epsilon = true ∧ ¬ epsilon ≤ 0)
include hfinite hepsilon

theorem IsBracketed.hasSignChange_halve (h : IsBracketed g bracket s) (habove : ¬ Scalar.abs s.atMid < epsilon) :
    HasSignChange g (s.halve.lo, s.halve.hi) := by
  rw [halve_bracket h.mid, h.atLo, h.atMid]
  refine h.hasSignChange.half h.mid.symm (SignedOrder.neg_or_pos (hfinite _) hepsilon.1 hepsilon.2 ?_)
  rwa [← h.atMid]

/-- The half that a halving keeps, after the history with its record. -/
theorem IsBracketed.keeps_halve (h : IsBracketed g bracket s) {before record after}
    (hsplit : s.halve.trace.reverse = before ++ record :: after) :
    HasSignChange g (bracketAfter bracket (before ++ [record])) ∨
      Scalar.abs s.atMid < epsilon ∧ after = [] ∧ record.point = [s.mid] ∧ record.value = s.atMid := by
  obtain ⟨last, htrace, hpoint, hvalue, -⟩ := exists_trace_halve s
  have hleft := (h.history.halve h.mid h.atMid).left
  rw [htrace, List.reverse_cons] at hsplit hleft
  rcases eq_or_exists_of_concat_eq hsplit with ⟨rfl, rfl, rfl⟩ | ⟨rest, hrest⟩
  · by_cases habove : Scalar.abs s.atMid < epsilon
    · exact .inr ⟨habove, rfl, hpoint, hvalue⟩
    · rw [hleft]
      exact .inl (h.hasSignChange_halve hfinite hepsilon habove)
  · exact .inl (h.keeps _ _ _ hrest)

/-- A halving that does not settle the search keeps the sign change. -/
theorem IsBracketed.next (h : IsBracketed g bracket s) (hsettled : s.halve.settled epsilon = false) :
    IsBracketed g bracket (s.next g) := by
  have habove : ¬ Scalar.abs s.atMid < epsilon := by
    intro hlt
    rw [State.settled, halve_atMid, decide_eq_true hlt] at hsettled
    cases hsettled
  have hhistory := h.history.halve h.mid h.atMid
  exact {
    atLo := halve_atLo h.atLo h.atMid
    mid := rfl
    atMid := rfl
    hasSignChange := h.hasSignChange_halve hfinite hepsilon habove
    history := ⟨hhistory.steps, hhistory.left, hhistory.halving⟩
    keeps := fun before record after hsplit =>
      (h.keeps_halve hfinite hepsilon hsplit).resolve_right fun hend => habove hend.1 }

end Halvings

/-! ### Searches -/

section Searches

variable {a b epsilon : α} {f g : α → α} {r : Report α}

/-- The state before the first halving. -/
def State.initial (g : α → α) (a b : α) : State α :=
  { lo := a, hi := b, atLo := g a, mid := midpoint a b, atMid := g (midpoint a b), steps := 0, trace := [] }

/-- The report after the halvings. -/
def halvedReport (g : α → α) (a b epsilon : α) : Report α :=
  let (s, status) := (halvings epsilon maxHalvings (State.initial g a b)).value g
  s.report epsilon status

theorem value_sameSignAtEnds : (Probe.sameSignAtEnds a b).value g =
    (0 < g a * g b && Probe.zeroThreshold < Scalar.abs (g a) && Probe.zeroThreshold < Scalar.abs (g b)) := rfl

/-- The checks before the first halving, in their order, and the halvings. -/
theorem value_search : (search a b epsilon).value g =
    if !(Probe.definedOnMost a b).value g then .error (.undefinedOnInterval a b)
    else if (Probe.sameSignAtEnds a b).value g then .error (.noSignChange a b)
    else if Scalar.abs (g a) < epsilon then .ok (.atEnd a (g a) epsilon)
    else if Scalar.abs (g b) < epsilon then .ok (.atEnd b (g b) epsilon)
    else .ok (halvedReport g a b epsilon) := by
  unfold search
  simp only [value_bind, pure_def]
  split
  · rfl
  simp only [value_bind]
  split
  · rfl
  simp only [value_bind]
  change Query.value g (if Scalar.abs (g a) < epsilon then _ else _) = _
  split
  · rfl
  change Query.value g (if Scalar.abs (g b) < epsilon then _ else _) = _
  split
  · rfl
  simp only [value_bind]
  rfl

/-- The report is that of the search on the guarded values, with the number of its requests. -/
theorem findRoot_eq_ok_iff : findRoot f a b epsilon = .ok r ↔ checkInterval a b = .ok () ∧ checkEpsilon epsilon = .ok () ∧
    ∃ r', (search a b epsilon).value (Objective.line f).guarded = .ok r' ∧
      { r' with evaluations := ((search a b epsilon).requests (Objective.line f).guarded).length } = r :=
  Search.checked_run_eq_ok_iff

theorem isBracketed_initial (h : HasSignChange g (a, b)) : IsBracketed g (a, b) (State.initial g a b) where
  atLo := rfl
  mid := rfl
  atMid := rfl
  hasSignChange := h
  history := ⟨rfl, rfl, fun before _ _ hsplit => absurd hsplit (by cases before <;> exact nofun)⟩
  keeps := fun before _ _ hsplit => absurd hsplit (by cases before <;> exact nofun)

theorem checkEpsilon_eq_ok (h : checkEpsilon epsilon = .ok ()) : isFinite epsilon = true ∧ ¬ epsilon ≤ 0 := by
  unfold checkEpsilon at h
  split at h
  · cases h
  · next hbad => simpa using hbad

/-- The report after a run with at least one halving. -/
theorem exists_halvings_of_findRoot (h : findRoot f a b epsilon = .ok r) (hiterations : 1 ≤ r.iterations) :
    (isFinite epsilon = true ∧ ¬ epsilon ≤ 0) ∧ (Probe.sameSignAtEnds a b).value (Objective.line f).guarded = false ∧
      ¬ Scalar.abs ((Objective.line f).guarded a) < epsilon ∧ ¬ Scalar.abs ((Objective.line f).guarded b) < epsilon ∧
      ∃ n, r = { halvedReport (Objective.line f).guarded a b epsilon with evaluations := n } := by
  obtain ⟨-, hepsilon, r', hr', rfl⟩ := findRoot_eq_ok_iff.mp h
  rw [value_search] at hr'
  split_ifs at hr' with hdefined hsame ha hb
  · cases hr'
    exact absurd hiterations (Nat.not_succ_le_zero 0)
  · cases hr'
    exact absurd hiterations (Nat.not_succ_le_zero 0)
  · cases hr'
    exact ⟨checkEpsilon_eq_ok hepsilon, by simpa using hsame, ha, hb, _, rfl⟩

variable [SignedOrder α]

theorem isFinite_guarded {ι : Type} (o : Objective ι α) (x : ι) : isFinite (o.guarded x) = true := by
  rcases isAnswer_guarded o x with hdefined | hundefined
  · exact (Bool.and_eq_true_iff.mp hdefined).1
  · rw [hundefined]
    exact SignedOrder.isFinite_undefined

/-- Ends that pass the checks have values of different signs if neither value is close to zero. -/
theorem hasSignChange_of_checks (hfinite : ∀ x, isFinite (g x) = true) (hepsilon : isFinite epsilon = true ∧ ¬ epsilon ≤ 0)
    (hsame : (Probe.sameSignAtEnds a b).value g = false) (ha : ¬ Scalar.abs (g a) < epsilon)
    (hb : ¬ Scalar.abs (g b) < epsilon) (hat : Probe.zeroThreshold < Scalar.abs (g a))
    (hbt : Probe.zeroThreshold < Scalar.abs (g b)) : HasSignChange g (a, b) := by
  have hproduct : ¬ 0 < g a * g b := by
    intro hpos
    rw [value_sameSignAtEnds, decide_eq_true hpos, decide_eq_true hat, decide_eq_true hbt] at hsame
    cases hsame
  have hsign : isNegative (g a) ≠ isNegative (g b) :=
    fun hsign => hproduct (SignedOrder.mul_pos (hfinite a) (hfinite b) hat hbt hsign)
  rcases SignedOrder.neg_or_pos (hfinite a) hepsilon.1 hepsilon.2 ha with hna | hpa <;>
    rcases SignedOrder.neg_or_pos (hfinite b) hepsilon.1 hepsilon.2 hb with hnb | hpb
  · exact absurd ((SignedOrder.isNegative_of_neg hna).trans (SignedOrder.isNegative_of_neg hnb).symm) hsign
  · exact .inl ⟨hna, hpb⟩
  · exact .inr ⟨hpa, hnb⟩
  · exact absurd ((SignedOrder.isNegative_of_pos hpa).trans (SignedOrder.isNegative_of_pos hpb).symm) hsign

/-- Halvings from a bracket with a sign change. -/
theorem keepsSignChange_halvedReport (hfinite : ∀ x, isFinite (g x) = true)
    (hepsilon : isFinite epsilon = true ∧ ¬ epsilon ≤ 0) (h : HasSignChange g (a, b)) :
    KeepsSignChange g (a, b) epsilon (halvedReport g a b epsilon) := by
  unfold halvedReport
  rcases value_halvings (fun s => IsBracketed.next hfinite hepsilon) maxHalvings (isBracketed_initial h) with
    ⟨t, ht, -, hend⟩ | ⟨t, ht, -, hend⟩
  · rw [hend]
    have hhistory := ht.history.halve ht.mid ht.atMid
    constructor
    · exact hhistory.steps.trans (List.length_reverse ..).symm
    · exact hhistory.halving
    · intro before record after hsplit
      refine (ht.keeps_halve hfinite hepsilon hsplit).imp_right fun ⟨hlt, hlast, hpoint, hvalue⟩ => ?_
      refine ⟨by rwa [hvalue], hlast, rfl, ?_, (halve_atMid t).trans hvalue.symm⟩
      rw [hpoint, ← halve_mid t]
      rfl
    · exact congrArg some hhistory.left.symm
  · rw [hend]
    constructor
    · exact ht.history.steps.trans (List.length_reverse ..).symm
    · exact ht.history.halving
    · exact fun before record after hsplit => .inl (ht.keeps _ _ _ hsplit)
    · exact congrArg some ht.history.left.symm

end Searches

/-- **Bisection keeps a sign change.** It does after each halving but the last, and after the last one too unless it ends at a
root, if there is a sign change at first or the tolerance or the values at both ends are not close to zero. -/
theorem findRoot_keeps_sign_change [SignedOrder α] {f : α → α} {a b epsilon : α} {r : Report α}
    (h : findRoot f a b epsilon = .ok r) (hiterations : 1 ≤ r.iterations)
    (hends : Probe.zeroThreshold < epsilon ∨
      (Probe.zeroThreshold < Scalar.abs ((Objective.line f).guarded a) ∧
        Probe.zeroThreshold < Scalar.abs ((Objective.line f).guarded b)) ∨
      HasSignChange (Objective.line f).guarded (a, b)) :
    KeepsSignChange (Objective.line f).guarded (a, b) epsilon r := by
  obtain ⟨hepsilon, hsame, ha, hb, n, rfl⟩ := exists_halvings_of_findRoot h hiterations
  have hfinite := isFinite_guarded (Objective.line f)
  have habove : ∀ x, Probe.zeroThreshold < epsilon → ¬ Scalar.abs ((Objective.line f).guarded x) < epsilon →
      Probe.zeroThreshold < Scalar.abs ((Objective.line f).guarded x) :=
    fun x hthreshold hx => SignedOrder.lt_of_lt_of_not_lt (SignedOrder.isFinite_abs (hfinite x)) hthreshold hx
  have hchange : HasSignChange (Objective.line f).guarded (a, b) := by
    rcases hends with hthreshold | ⟨hat, hbt⟩ | hchange
    · exact hasSignChange_of_checks hfinite hepsilon hsame ha hb (habove a hthreshold ha) (habove b hthreshold hb)
    · exact hasSignChange_of_checks hfinite hepsilon hsame ha hb hat hbt
    · exact hchange
  obtain ⟨hlength, hhalving, hkeeps, hinterval⟩ := keepsSignChange_halvedReport hfinite hepsilon hchange
  exact ⟨hlength, hhalving, hkeeps, hinterval⟩

/-- The search for the root of two with machine numbers. -/
theorem findRoot_keeps_sign_change_square : ∃ r : Report Float, findRoot (fun x => x * x - 2) 0 2 0.001 = .ok r ∧
    1 ≤ r.iterations ∧ KeepsSignChange (Objective.line fun x : Float => x * x - 2).guarded (0, 2) 0.001 r := by
  have hrun : (match findRoot (fun x : Float => x * x - 2) 0 2 0.001 with
      | .ok r => decide (1 ≤ r.iterations)
      | .error _ => false) = true := by decide +kernel
  split at hrun
  · next r hr =>
    have hiterations := of_decide_eq_true hrun
    exact ⟨r, hr, hiterations, findRoot_keeps_sign_change hr hiterations (.inl (by decide +kernel))⟩
  · cases hrun

/-- A constant that is close to zero has no sign change to be kept, and with a tolerance below it all halvings are made. -/
theorem findRoot_loses_sign_change : ¬ ∀ (f : Float → Float) (a b epsilon : Float) (r : Report Float),
    findRoot f a b epsilon = .ok r → 1 ≤ r.iterations → KeepsSignChange (Objective.line f).guarded (a, b) epsilon r := by
  intro hclaim
  have hrun : (match findRoot (fun _ : Float => 5e-16) 0 1 1e-16 with
      | .ok r => decide (1 ≤ r.iterations)
      | .error _ => false) = true := by decide +kernel
  have hguarded : ∀ x, ¬ (Objective.line fun _ : Float => 5e-16).guarded x < 0 ∧
      ¬ Scalar.abs ((Objective.line fun _ : Float => 5e-16).guarded x) < 1e-16 := by
    intro x
    unfold Objective.guarded
    split
    · exact (by decide +kernel : ¬ sanitize (5e-16 : Float) < 0 ∧ ¬ Scalar.abs (sanitize (5e-16 : Float)) < 1e-16)
    · exact (by decide +kernel : ¬ (Scalar.undefined : Float) < 0 ∧ ¬ Scalar.abs (Scalar.undefined : Float) < 1e-16)
  split at hrun
  · next r hr =>
    have hiterations := of_decide_eq_true hrun
    obtain ⟨hlength, hhalving, hkeeps, -⟩ := hclaim _ _ _ _ r hr hiterations
    cases hhistory : r.history with
    | nil => rw [hlength, hhistory] at hiterations; cases hiterations
    | cons record after =>
      rcases hkeeps [] record after hhistory with (⟨hneg, -⟩ | ⟨-, hneg⟩) | ⟨hlt, -⟩
      · exact (hguarded _).1 hneg
      · exact (hguarded _).1 hneg
      · rw [(hhalving [] record after hhistory).value] at hlt
        exact (hguarded _).2 hlt
  · cases hrun

end Numerics.Bisection
