import Numerics.Proofs.Formula.Commas
import Numerics.Proofs.Formula.Site
import Numerics.Proofs.Text.CaseContext

/-!
# Commas among the arguments of a call

A comma between two digits is decimal or not by the group that is open around it.  `hasArgumentComma` looks for such a comma
directly in one group, that of the arguments of a call, and finds it where a balanced text stands before it
(`exists_argumentComma`).  Small letters and the collapse of blanks change no digit, comma or parenthesis, so they keep the answer;
and where there is no such comma, it makes no difference to the text whether the function takes two arguments
(`pointCommasAfter_agreesBut`).
-/

namespace Numerics.Formula

open Text

/-- In what is left of a text, within `depth` more groups than that of the arguments, a comma between two digits separates
arguments of the call.  `digit` tells that a digit stands right before the place. -/
def hasArgumentComma : ℕ → Bool → List Char → Bool
  | _, _, [] => false
  | depth, digit, c :: cs =>
    if c = '(' then hasArgumentComma (depth + 1) false cs
    else if c = ')' then depth != 0 && hasArgumentComma (depth - 1) false cs
    else c == ',' && depth == 0 && digit && cs.head?.any Char.isDigit || hasArgumentComma depth c.isDigit cs

/-! ### Where the comma stands -/

section Places

variable {depth : ℕ} {digit : Bool} {c : Char} {cs ds : List Char}

theorem hasArgumentComma_openParen : hasArgumentComma depth digit ('(' :: cs) = hasArgumentComma (depth + 1) false cs := rfl

theorem hasArgumentComma_cons (ho : c ≠ '(') (hc : c ≠ ')') : hasArgumentComma depth digit (c :: cs) =
    (c == ',' && depth == 0 && digit && cs.head?.any Char.isDigit || hasArgumentComma depth c.isDigit cs) := by
  rw [hasArgumentComma, if_neg ho, if_neg hc]

theorem hasArgumentComma_plain (ho : c ≠ '(') (hc : c ≠ ')') (hcomma : c ≠ ',') :
    hasArgumentComma depth digit (c :: cs) = hasArgumentComma depth c.isDigit cs := by
  rw [hasArgumentComma_cons ho hc, beq_eq_false_iff_ne.mpr hcomma]
  rfl

theorem hasArgumentComma_cons_congr (hhead : cs.head?.any Char.isDigit = ds.head?.any Char.isDigit)
    (h : ∀ depth digit, hasArgumentComma depth digit cs = hasArgumentComma depth digit ds) :
    hasArgumentComma depth digit (c :: cs) = hasArgumentComma depth digit (c :: ds) := by
  simp only [hasArgumentComma, hhead, h]

/-- Within a group further in, the group is closed first. -/
theorem exists_closing (h : hasArgumentComma (depth + 1) digit cs = true) :
    ∃ xs ys, Balanced '(' ')' xs ∧ cs = xs ++ ')' :: ys ∧ hasArgumentComma depth false ys = true := by
  induction hn : cs.length using Nat.strong_induction_on generalizing depth digit cs with
  | _ n ih =>
    match cs with
    | [] => cases h
    | c :: cs =>
      obtain rfl := hn
      by_cases ho : c = '('
      · -- the group that is opened here is closed before
        subst ho
        rw [hasArgumentComma_openParen] at h
        obtain ⟨xs, ys, hxs, rfl, hys⟩ := ih _ (Nat.lt_succ_self _) h rfl
        obtain ⟨xs', ys', hxs', rfl, hys'⟩ := ih _ (by simp; omega) hys rfl
        exact ⟨'(' :: xs ++ ')' :: xs', ys', .group hxs hxs', by simp, hys'⟩
      · by_cases hc : c = ')'
        · subst hc
          exact ⟨[], cs, .nil, rfl, h⟩
        · rw [hasArgumentComma_cons ho hc, Nat.succ_ne_zero depth |> beq_eq_false_iff_ne.mpr, Bool.and_false] at h
          obtain ⟨xs, ys, hxs, rfl, hys⟩ := ih _ (Nat.lt_succ_self _) h rfl
          exact ⟨c :: xs, ys, .plain ho hc hxs, rfl, hys⟩

/-- **The place of the comma.** A balanced text stands before it, with a digit at its end, and a digit after it. -/
theorem exists_argumentComma (h : hasArgumentComma 0 digit cs = true) :
    ∃ inner rest, cs = inner ++ ',' :: rest ∧ Balanced '(' ')' inner ∧ inner.getLast?.elim digit Char.isDigit = true ∧
      rest.head?.any Char.isDigit = true := by
  induction hn : cs.length using Nat.strong_induction_on generalizing digit cs with
  | _ n ih =>
    match cs with
    | [] => cases h
    | c :: cs =>
      obtain rfl := hn
      by_cases ho : c = '('
      · subst ho
        obtain ⟨xs, ys, hxs, rfl, hys⟩ := exists_closing h
        obtain ⟨inner, rest, rfl, hinner, hlast, hrest⟩ := ih _ (by simp; omega) hys rfl
        refine ⟨'(' :: xs ++ ')' :: inner, rest, by simp, .group hxs hinner, ?_, hrest⟩
        cases inner using List.reverseRecOn with
        | nil => cases hlast
        | append_singleton us d =>
          rw [List.getLast?_concat] at hlast
          rwa [← List.cons_append, ← List.append_assoc, List.getLast?_concat]
      · by_cases hc : c = ')'
        · subst hc
          cases h
        · rw [hasArgumentComma_cons ho hc, Bool.or_eq_true] at h
          rcases h with h | h
          · simp only [Bool.and_eq_true, beq_iff_eq] at h
            obtain ⟨⟨⟨rfl, -⟩, hdigit⟩, hhead⟩ := h
            exact ⟨[], cs, rfl, .nil, hdigit, hhead⟩
          · obtain ⟨inner, rest, rfl, hinner, hlast, hrest⟩ := ih _ (Nat.lt_succ_self _) h rfl
            refine ⟨c :: inner, rest, rfl, .plain ho hc hinner, ?_, hrest⟩
            rw [List.getLast?_cons]
            cases hinner : inner.getLast? <;> rw [hinner] at hlast <;> exact hlast

end Places

/-! ### Small letters and blanks -/

section Texts

variable {depth : ℕ} {digit : Bool} {c : Char} {before cs : List Char}

theorem isDigit_of_isAlphabetic (h : isAlphabetic c = true) : c.isDigit = false := by
  have := isNumberChar_of_isNameStart (isNameStart_of_isAlphabetic h)
  rw [isNumberChar, Bool.or_eq_false_iff] at this
  exact this.1

theorem isDigit_lowerChar : (lowerChar c).isDigit = c.isDigit := by
  rcases @lowerChar_eq_or_isAlphabetic c with h | ⟨hc, hlower⟩
  · rw [h]
  · rw [isDigit_of_isAlphabetic hc, isDigit_of_isAlphabetic hlower]

theorem isDigit_head?_lowerAfter : (lowerAfter before cs).head?.any Char.isDigit = cs.head?.any Char.isDigit := by
  cases cs with
  | nil => rfl
  | cons c cs =>
    rw [lowerAfter]
    unfold lowerAt
    split
    · next hc =>
      subst hc
      split <;> rfl
    · split
      · next hc =>
        subst hc
        rfl
      · exact isDigit_lowerChar

theorem hasArgumentComma_alphabetic (h : isAlphabetic c = true) :
    hasArgumentComma depth digit (c :: cs) = hasArgumentComma depth false cs := by
  rw [hasArgumentComma_plain, isDigit_of_isAlphabetic h] <;> rintro rfl <;> exact absurd h (by decide +kernel)

/-- Small letters keep digits, commas and parentheses. -/
theorem hasArgumentComma_lowerAfter : hasArgumentComma depth digit (lowerAfter before cs) = hasArgumentComma depth digit cs := by
  induction cs generalizing depth digit before with
  | nil => rfl
  | cons c cs ih =>
    rw [lowerAfter]
    unfold lowerAt
    split
    · next hc =>
      subst hc
      have hsigma : isAlphabetic 'Σ' = true ∧ isAlphabetic 'σ' = true ∧ isAlphabetic 'ς' = true := by decide +kernel
      rw [hasArgumentComma_alphabetic hsigma.1, ← @ih _ _ ('Σ' :: before)]
      split
      · exact hasArgumentComma_alphabetic hsigma.2.2
      · exact hasArgumentComma_alphabetic hsigma.2.1
    · split
      · next hc =>
        subst hc
        have hdotted : isAlphabetic 'İ' = true ∧ isAlphabetic 'i' = true := by decide +kernel
        rw [hasArgumentComma_alphabetic hdotted.1, ← @ih _ _ ('İ' :: before)]
        exact (hasArgumentComma_alphabetic hdotted.2).trans (hasArgumentComma_plain (by decide) (by decide) (by decide))
      · rcases @lowerChar_eq_or_isAlphabetic c with h | ⟨hc, hlower⟩
        · rw [h]
          exact hasArgumentComma_cons_congr isDigit_head?_lowerAfter fun _ _ => ih
        · rw [hasArgumentComma_alphabetic hc, ← @ih _ _ (c :: before)]
          exact hasArgumentComma_alphabetic hlower

theorem isDigit_of_isBlank (h : isBlank c = true) : c.isDigit = false := by
  have := (outside_of_isBlank h).2
  rw [isNumberChar, Bool.or_eq_false_iff] at this
  exact this.1

theorem hasArgumentComma_blank (h : isBlank c = true) :
    hasArgumentComma depth digit (c :: cs) = hasArgumentComma depth false cs := by
  rw [hasArgumentComma_plain, isDigit_of_isBlank h] <;> rintro rfl <;> exact absurd h (by decide)

theorem isDigit_head?_squeeze : (squeeze false cs).head?.any Char.isDigit = cs.head?.any Char.isDigit ∧
    (squeeze true cs).head?.any Char.isDigit = false := by
  induction cs with
  | nil => exact ⟨rfl, rfl⟩
  | cons c cs ih =>
    simp only [squeeze]
    cases hc : isBlank c with
    | true => exact ⟨ih.2.trans (isDigit_of_isBlank hc).symm, ih.2⟩
    | false => exact ⟨rfl, rfl⟩

/-- So does the collapse of blanks, where a run of blanks keeps a digit and a comma apart as one space does. -/
theorem hasArgumentComma_squeeze : hasArgumentComma depth digit (squeeze false cs) = hasArgumentComma depth digit cs ∧
    hasArgumentComma depth digit (squeeze true cs) = hasArgumentComma depth false cs := by
  induction cs generalizing depth digit with
  | nil => exact ⟨rfl, rfl⟩
  | cons c cs ih =>
    simp only [squeeze]
    cases hc : isBlank c with
    | true =>
      rw [hasArgumentComma_blank hc, hasArgumentComma_blank hc]
      exact ⟨ih.2, ih.2⟩
    | false =>
      have hcons : ∀ digit, hasArgumentComma depth digit (c :: squeeze false cs) = hasArgumentComma depth digit (c :: cs) :=
        fun digit => hasArgumentComma_cons_congr isDigit_head?_squeeze.1 fun _ _ => ih.1
      exact ⟨hcons digit, (hasArgumentComma_blank isBlank_space).trans (hcons false)⟩

end Texts

/-! ### The replacement -/

section Replacement

variable {depth : ℕ} {c : Char} {before before' cs : List Char}

/-- After the two texts parentheses and commas mean the same, but for the commas directly in one open group. -/
structure AgreesBut (depth : ℕ) (before before' : List Char) : Prop where
  groups : ∀ i, i ≠ depth → (openGroups before).getD i false = (openGroups before').getD i false
  opens : ∀ xs, opensTwoArguments (xs ++ before) = opensTwoArguments (xs ++ before')
  digit : before.head?.any Char.isDigit = before'.head?.any Char.isDigit

theorem AgreesBut.opens_cons (h : AgreesBut depth before before') (c : Char) (xs : List Char) :
    opensTwoArguments (xs ++ c :: before) = opensTwoArguments (xs ++ c :: before') := by
  simpa using h.opens (xs ++ [c])

theorem AgreesBut.openParen (h : AgreesBut depth before before') : AgreesBut (depth + 1) ('(' :: before) ('(' :: before') where
  groups i hi := by
    rw [openGroups_openParen, openGroups_openParen]
    cases i with
    | zero => exact h.opens []
    | succ i => exact h.groups i fun heq => hi (congrArg (· + 1) heq)
  opens := h.opens_cons '('
  digit := rfl

theorem AgreesBut.cons (h : AgreesBut depth before before') (ho : c ≠ '(') (hc : c ≠ ')') :
    AgreesBut depth (c :: before) (c :: before') where
  groups i hi := by
    rw [openGroups_cons ho hc, openGroups_cons ho hc]
    exact h.groups i hi
  opens := h.opens_cons c
  digit := rfl

theorem getD_openGroups_closeParen (before : List Char) (i : ℕ) :
    (openGroups (')' :: before)).getD i false = (openGroups before).getD (i + 1) false := by
  rw [openGroups_closeParen]
  cases openGroups before <;> rfl

theorem AgreesBut.closeParen (h : AgreesBut (depth + 1) before before') : AgreesBut depth (')' :: before) (')' :: before') where
  groups i hi := by
    rw [getD_openGroups_closeParen, getD_openGroups_closeParen]
    exact h.groups (i + 1) fun heq => hi (Nat.succ.inj heq)
  opens := h.opens_cons ')'
  digit := rfl

/-- Once the group is closed, there is no difference any more. -/
theorem AgreesBut.separatesAfter (h : AgreesBut 0 before before') : SeparatesAfter (')' :: before) (')' :: before') where
  groups i hi := by
    rw [getD_openGroups_closeParen] at hi ⊢
    rwa [← h.groups (i + 1) (Nat.succ_ne_zero i)]
  opens xs hxs := (h.opens_cons ')' xs).symm.trans hxs
  digit := id

theorem AgreesBut.symm (h : AgreesBut depth before before') : AgreesBut depth before' before :=
  ⟨fun i hi => (h.groups i hi).symm, fun xs => (h.opens xs).symm, h.digit.symm⟩

theorem AgreesBut.pointed_eq (h : AgreesBut depth before before')
    (hnone : (c == ',' && depth == 0 && before.head?.any Char.isDigit && cs.head?.any Char.isDigit) = false) :
    pointed before c cs = pointed before' c cs := by
  by_cases hcomma : c = ','
  · have hdecimal : isDecimalComma before cs = isDecimalComma before' cs := by
      rw [isDecimalComma, isDecimalComma, ← h.digit]
      by_cases hdepth : depth = 0
      · simp only [hcomma, hdepth, BEq.rfl, Bool.true_and] at hnone
        rw [hnone]
        rfl
      · rw [List.headD_eq_getD, List.headD_eq_getD, h.groups 0 (Ne.symm hdepth)]
    rw [pointed, pointed, hdecimal]
  · rw [pointed, pointed, if_neg fun h => hcomma h.1, if_neg fun h => hcomma h.1]

/-- **Commas of a group.** Where no comma between two digits stands directly in a group, it makes no difference whether the commas
there separate arguments. -/
theorem pointCommasAfter_agreesBut (h : AgreesBut depth before before')
    (hnone : hasArgumentComma depth (before.head?.any Char.isDigit) cs = false) :
    pointCommasAfter before (openGroups before) cs = pointCommasAfter before' (openGroups before') cs := by
  induction cs generalizing depth before before' with
  | nil => rfl
  | cons c cs ih =>
    rw [pointCommasAfter_cons, pointCommasAfter_cons]
    by_cases ho : c = '('
    · subst ho
      exact congrArg _ (ih h.openParen hnone)
    · by_cases hc : c = ')'
      · subst hc
        refine congrArg (')' :: ·) ?_
        cases depth with
        | zero => exact pointCommasAfter_congr h.separatesAfter h.symm.separatesAfter
        | succ depth => exact ih h.closeParen hnone
      · rw [hasArgumentComma_cons ho hc, Bool.or_eq_false_iff] at hnone
        rw [← h.pointed_eq hnone.1]
        have hpointed : pointed before c cs ≠ '(' ∧ pointed before c cs ≠ ')' := by
          unfold pointed
          split
          · decide
          · exact ⟨ho, hc⟩
        refine congrArg _ (ih (h.cons hpointed.1 hpointed.2) ?_)
        rw [List.head?_cons, Option.any_some, isDigit_pointed]
        exact hnone.2

end Replacement

end Numerics.Formula
