import Numerics.Proofs.Formula.Operand
import Numerics.Proofs.Formula.PlainText

/-!
# The limit on passes

A pass replaces the first power of a text, and takes one power sign from it and no more (`count_replacePower`).  So passes over
a text come to an end, with a text without power signs after as many passes as the text has signs, or sooner with the error of
an operand.  The pass that finds no sign left counts against the limit too: a text with as many signs as the limit allows
passes is given up although none of its signs is left (`normalize_passes`).
-/

namespace Numerics.Formula

open Text

variable {n limit : ℕ} {before after cs ds next : List Char} {e : ParseError}

/-! ### One pass -/

/-- **One sign goes.** The operands, with the power signs in them, stay as they are. -/
theorem count_replacePower (h : replacePower before after = .ok next) :
    (before.reverse ++ '^' :: after).count '^' = next.count '^' + 1 := by
  obtain ⟨start, left, right, rest, rfl, -, rfl, -, rfl⟩ := replacePower_eq_ok_iff.mp h
  simp
  omega

/-- The error of a power without its operands. -/
inductive IsOperandError : ParseError → Prop where
  | missing (side : Side) : IsOperandError (.missingPowerOperand side)
  | unbalanced : IsOperandError .unbalancedParens

theorem isOperandError_of_leftOperand (h : leftOperand before = .error e) : IsOperandError e := by
  unfold leftOperand at h
  split at h
  · exact Except.error.inj h ▸ .missing _
  split at h
  · cases h
  split at h
  · cases h
  split at h
  · split at h
    · exact Except.error.inj h ▸ .unbalanced
    · cases h
  · exact Except.error.inj h ▸ .missing _

theorem isOperandError_of_leadingGroup (h : leadingGroup cs = .error e) : IsOperandError e := by
  unfold leadingGroup at h
  split at h
  · exact Except.error.inj h ▸ .unbalanced
  · cases h

theorem isOperandError_of_unsignedOperand (h : unsignedOperand after = .error e) : IsOperandError e := by
  unfold unsignedOperand at h
  split at h
  · exact Except.error.inj h ▸ .missing _
  split at h
  · cases h
  split at h
  · dsimp only at h
    split at h
    · exact isOperandError_of_leadingGroup (map_eq_error_iff.mp h)
    · cases h
  split at h
  · exact isOperandError_of_leadingGroup h
  · exact Except.error.inj h ▸ .missing _

theorem isOperandError_of_rightOperand (h : rightOperand after = .error e) : IsOperandError e := by
  unfold rightOperand at h
  split at h
  · exact Except.error.inj h ▸ .missing _
  split at h
  · exact isOperandError_of_unsignedOperand (map_eq_error_iff.mp h)
  · exact isOperandError_of_unsignedOperand h

/-- A pass fails only for its operands. -/
theorem isOperandError_of_replacePower (h : replacePower before after = .error e) : IsOperandError e := by
  unfold replacePower at h
  rcases bind_eq_error_iff.mp h with hleft | ⟨_, _, h⟩
  · exact isOperandError_of_leftOperand hleft
  rcases bind_eq_error_iff.mp h with hright | ⟨_, _, h⟩
  · exact isOperandError_of_rightOperand hright
  · cases h

/-! ### Passes -/

/-- A number of passes leads from one text to another. -/
inductive Passes : ℕ → List Char → List Char → Prop where
  | refl (cs : List Char) : Passes 0 cs cs
  | step {n : ℕ} {before after next cs : List Char} :
      '^' ∉ before → replacePower before after = .ok next → Passes n next cs →
      Passes (n + 1) (before.reverse ++ '^' :: after) cs

/-- The pass after a number of them fails. -/
inductive FailsAfter (n : ℕ) (cs : List Char) (e : ParseError) : Prop where
  | intro {before after : List Char} :
      Passes n cs (before.reverse ++ '^' :: after) → '^' ∉ before → replacePower before after = .error e → FailsAfter n cs e

/-- **The power signs are the measure.** Each pass takes one of them. -/
theorem Passes.count (h : Passes n cs ds) : cs.count '^' = ds.count '^' + n := by
  induction h with
  | refl cs => rfl
  | step _ hpower _ ih => rw [count_replacePower hpower, ih, Nat.add_assoc]

theorem FailsAfter.lt_count (h : FailsAfter n cs e) : n < cs.count '^' := by
  obtain ⟨hpasses, -, -⟩ := h
  rw [hpasses.count, List.count_append, List.count_cons_self]
  omega

theorem FailsAfter.isOperandError (h : FailsAfter n cs e) : IsOperandError e := by
  obtain ⟨-, -, hpower⟩ := h
  exact isOperandError_of_replacePower hpower

theorem Passes.replacePasses (h : Passes n cs ds) (passes : ℕ) :
    replacePasses (passes + n) cs = replacePasses passes ds := by
  induction h with
  | refl cs => rfl
  | step hbefore hpower _ ih =>
    rw [← Nat.add_assoc, replacePasses_caret hbefore, hpower]
    exact ih

/-- How passes over a text end if there is a limit to them. -/
inductive PassesEnd (limit : ℕ) (cs : List Char) : Except ParseError (List Char) → Prop where
  /-- The limit leaves one more pass than the text has power signs, to find none left. -/
  | replaced {ds : List Char} :
      cs.count '^' < limit → Passes (cs.count '^') cs ds → '^' ∉ ds → PassesEnd limit cs (.ok ds)
  | failed {n : ℕ} {e : ParseError} : n < limit → FailsAfter n cs e → PassesEnd limit cs (.error e)
  | stopped {ds : List Char} :
      limit ≤ cs.count '^' → Passes limit cs ds → PassesEnd limit cs (.error (.passLimit maxPasses))

theorem PassesEnd.step {r : Except ParseError (List Char)} (hbefore : '^' ∉ before)
    (hpower : replacePower before after = .ok next) (h : PassesEnd limit next r) :
    PassesEnd (limit + 1) (before.reverse ++ '^' :: after) r := by
  have hcount := count_replacePower hpower
  cases h with
  | replaced hlimit hpasses hds =>
    refine .replaced (by omega) ?_ hds
    rw [hcount]
    exact .step hbefore hpower hpasses
  | failed hlimit hfails =>
    obtain ⟨hpasses, hnot, herror⟩ := hfails
    exact .failed (Nat.succ_lt_succ hlimit) ⟨.step hbefore hpower hpasses, hnot, herror⟩
  | stopped hlimit hpasses => exact .stopped (by omega) (.step hbefore hpower hpasses)

/-- The passes end in one of these ways. -/
theorem passesEnd_replacePasses (limit : ℕ) (cs : List Char) : PassesEnd limit cs (replacePasses limit cs) := by
  induction limit generalizing cs with
  | zero => exact .stopped (Nat.zero_le _) (.refl cs)
  | succ limit ih =>
    by_cases hcaret : '^' ∈ cs
    · obtain ⟨before, after, hbefore, rfl⟩ := exists_first_caret hcaret
      rw [replacePasses_caret hbefore]
      -- a pass takes one from the limit and one from the power signs
      cases hpower : replacePower before after with
      | error e => exact .failed (Nat.succ_pos limit) ⟨.refl _, hbefore, hpower⟩
      | ok next => exact (ih next).step hbefore hpower
    · have hcount : cs.count '^' = 0 := List.count_eq_zero.mpr hcaret
      rw [replacePasses_of_not_mem hcaret]
      exact .replaced (hcount ▸ Nat.succ_pos limit) (hcount ▸ .refl cs) hcaret

/-! ### The normal form -/

theorem normalize_eq_replacePasses {text : String} (hblank : collapseBlanks text.toList ≠ []) :
    normalize text = (replacePasses maxPasses (tightenCarets false (plainText text.toList))).map .ofList := by
  rw [normalize, normalChars, if_neg (by simpa using hblank)]
  rfl

/-- **Power signs and passes.** A text with fewer than 1000 power signs has a normal form, after one pass for each of them, or
a pass finds an operand missing or not closed.  With 1000 power signs there is none, even if 1000 passes leave no sign. -/
theorem normalize_passes (text : String) :
    let signs := (plainText text.toList).count '^'
    let cs := tightenCarets false (plainText text.toList)
    (collapseBlanks text.toList = [] ∧ normalize text = .error .empty) ∨
    (∃ ds, signs < 1000 ∧ Passes signs cs ds ∧ '^' ∉ ds ∧ normalize text = .ok (.ofList ds)) ∨
    (∃ n e, n < min signs 1000 ∧ FailsAfter n cs e ∧ IsOperandError e ∧ normalize text = .error e) ∨
    ∃ ds, 1000 ≤ signs ∧ Passes 1000 cs ds ∧ normalize text = .error (.passLimit 1000) := by
  intro signs cs
  have hsigns : cs.count '^' = signs := count_tightenCarets (by decide) _ _
  by_cases hblank : collapseBlanks text.toList = []
  · refine .inl ⟨hblank, ?_⟩
    rw [normalize, normalChars, hblank]
    rfl
  · have hnormal : normalize text = (replacePasses maxPasses cs).map .ofList := normalize_eq_replacePasses hblank
    have hend := passesEnd_replacePasses maxPasses cs
    generalize replacePasses maxPasses cs = r at hend hnormal
    rw [maxPasses] at hend
    rw [hnormal, ← hsigns]
    cases hend with
    | replaced hlimit hpasses hds => exact .inr (.inl ⟨_, hlimit, hpasses, hds, rfl⟩)
    | failed hlimit hfails =>
      exact .inr (.inr (.inl ⟨_, _, lt_min hfails.lt_count hlimit, hfails, hfails.isOperandError, rfl⟩))
    | stopped hlimit hpasses => exact .inr (.inr (.inr ⟨_, hlimit, hpasses, rfl⟩))

/-- The second pass misses its operand. -/
example : normalize "2^x^" = .error (.missingPowerOperand .right) := by decide +kernel

/-- Passes up to the limit are the end, whatever they leave. -/
theorem normalize_eq_passLimit {text : String} (hblank : collapseBlanks text.toList ≠ [])
    (h : Passes maxPasses (tightenCarets false (plainText text.toList)) ds) : normalize text = .error (.passLimit maxPasses) := by
  have hpasses := h.replacePasses 0
  rw [Nat.zero_add] at hpasses
  rw [normalize_eq_replacePasses hblank, hpasses]
  rfl

/-! ### As many power signs as passes -/

/-- A left operand for the first power of a text. -/
structure IsBase (base : List Char) : Prop where
  operand : IsLeftOperand [] base
  balanced : Balanced '(' ')' base
  not_mem : '^' ∉ base

/-- A number of times the power of 1. -/
def ones (n : ℕ) : List Char := (List.replicate n ['^', '1']).flatten

section Ones

variable {base : List Char}

theorem ones_succ (n : ℕ) : ones (n + 1) = '^' :: '1' :: ones n := rfl

theorem mem_ones {c : Char} (h : c ∈ ones n) : c = '^' ∨ c = '1' := by
  obtain ⟨xs, hxs, hc⟩ := List.mem_flatten.mp h
  rw [List.eq_of_mem_replicate hxs] at hc
  simpa using hc

theorem count_ones (n : ℕ) : (ones n).count '^' = n := by
  induction n with
  | zero => rfl
  | succ n ih => rw [ones_succ, List.count_cons_self, List.count_cons_of_ne (by decide), ih]

/-- The call for the power of a base. -/
def powerOfOne (base : List Char) : List Char := 'p' :: ['o', 'w'] ++ enclosed (base ++ [',', '1'])

/-- The call is a base again. -/
theorem IsBase.powerOfOne (h : IsBase base) : IsBase (powerOfOne base) := by
  have hname : ∀ c ∈ ['o', 'w'], isNameChar c = true :=
    List.forall_mem_cons.mpr ⟨by decide, List.forall_mem_cons.mpr ⟨by decide, List.forall_mem_nil _⟩⟩
  have hinner : Balanced '(' ')' (base ++ [',', '1']) :=
    h.balanced.append (.plain (by decide) (by decide) (.plain (by decide) (by decide) .nil))
  have hcall : Balanced '(' ')' ('p' :: 'o' :: 'w' :: enclosed (base ++ [',', '1'])) :=
    .plain (by decide) (by decide) (.plain (by decide) (by decide) (.plain (by decide) (by decide) (.group hinner .nil)))
  exact ⟨.call (by decide) hname hinner startsOutside_nil, hcall, by simp [Formula.powerOfOne, enclosed, h.not_mem]⟩

theorem IsBase.replacePower (h : IsBase base) (n : ℕ) :
    replacePower base.reverse ('1' :: ones n) = .ok (Formula.powerOfOne base ++ ones n) := by
  have hone : IsRightOperand (ones n) ['1'] := by
    refine .unsigned (.literal (List.cons_ne_nil _ _) (List.forall_mem_singleton.mpr (by decide)) ?_)
    cases n with
    | zero => exact startsOutside_nil
    | succ n => exact startsOutside_cons.mpr (by decide)
  refine replacePower_eq_ok_iff.mpr ⟨[], base, ['1'], ones n, by simp, h.operand, rfl, hone, ?_⟩
  simp [Formula.powerOfOne, enclosed]

/-- Each power takes a pass. -/
theorem IsBase.passes (h : IsBase base) (n : ℕ) : ∃ ds, Passes n (base ++ ones n) ds := by
  induction n generalizing base with
  | zero => exact ⟨_, .refl _⟩
  | succ n ih =>
    obtain ⟨ds, hpasses⟩ := ih h.powerOfOne
    have hstep := Passes.step (by simpa using h.not_mem) (h.replacePower n) hpasses
    rw [List.reverse_reverse] at hstep
    exact ⟨ds, hstep⟩

theorem isBase_one : IsBase ['1'] where
  operand := .literal (List.cons_ne_nil _ _) (List.forall_mem_singleton.mpr (by decide)) startsOutside_nil
  balanced := .plain (by decide) (by decide) .nil
  not_mem := by decide

theorem mem_one_ones {c : Char} (h : c ∈ '1' :: ones n) : c = '^' ∨ c = '1' := by
  rcases List.mem_cons.mp h with rfl | h
  · exact .inr rfl
  · exact mem_ones h

theorem isPlain_ones (n : ℕ) : IsPlain ('1' :: ones n) where
  small c hc := by rcases mem_one_ones hc with rfl | rfl <;> decide
  spaced := {
    apart := by
      have hspace : ∀ c ∈ '1' :: ones n, c ≠ ' ' := fun c hc => by rcases mem_one_ones hc with rfl | rfl <;> decide
      exact (apart_append_of_ne (List.cons_ne_nil _ _) hspace).mpr apart_singleton
    blank := fun c hc hblank => by rcases mem_one_ones hc with rfl | rfl <;> cases hblank }
  stars := apart_of_not_mem fun hstar => absurd (mem_one_ones hstar) (by decide)

/-- The text goes through the stages before the passes unchanged. -/
theorem plainText_ones (n : ℕ) : plainText ('1' :: ones n) = '1' :: ones n := by
  rw [(isPlain_ones n).plainText]
  exact pointCommas_eq_self_iff.mpr (keepsCommas_of_not_mem fun hcomma => absurd (mem_one_ones hcomma) (by decide))

/-- **As many power signs as passes.** No pass is left to see that no sign is. -/
theorem normalize_ones : normalize (.ofList ('1' :: ones maxPasses)) = .error (.passLimit maxPasses) := by
  obtain ⟨ds, hpasses⟩ := isBase_one.passes maxPasses
  have hspace : ' ' ∉ '1' :: ones maxPasses := fun hmem => absurd (mem_one_ones hmem) (by decide)
  refine @normalize_eq_passLimit ds _ ?_ ?_
  · rw [String.toList_ofList, (isPlain_ones maxPasses).spaced.collapseBlanks]
    exact List.cons_ne_nil _ _
  · rw [String.toList_ofList, plainText_ones, tightenCarets_of_not_mem_space hspace]
    exact hpasses

end Ones

/-- The passes replace all powers of a text with 1000 power signs, and no pass is left to see that. -/
theorem normalize_gives_up : ¬ ∀ text : String, (plainText text.toList).count '^' ≤ 1000 →
    ∀ passes, normalize text ≠ .error (.passLimit passes) := by
  intro hclaim
  refine hclaim (.ofList ('1' :: ones maxPasses)) ?_ maxPasses normalize_ones
  rw [String.toList_ofList, plainText_ones, List.count_cons_of_ne (by decide), count_ones, maxPasses]

end Numerics.Formula
