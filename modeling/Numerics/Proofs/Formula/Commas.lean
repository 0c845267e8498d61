import Numerics.Formula.Commas
import Numerics.Proofs.Formula.Operand

/-!
# Decimal commas

Which commas are decimal depends on what stands before them only through three things: a digit right before, the groups
open there (`openGroups`), and the name that a parenthesis would follow.  `KeepsCommas before cs after` says that no comma
of `cs` is decimal; these are the texts that the replacement of decimal commas leaves as they are
(`pointCommasAfter_eq_self_iff`), and it makes every text one of them (`keepsCommas_pointCommasAfter`).
-/

namespace Numerics.Formula

open Text

/-- Of each group open after a text, innermost first, whether it holds the arguments of a function that takes two.  The
text is kept nearest character first. -/
def openGroups : List Char → List Bool
  | [] => []
  | c :: before =>
    if c = '(' then opensTwoArguments before :: openGroups before
    else if c = ')' then (openGroups before).tail
    else openGroups before

/-- A comma between the two texts is a decimal comma. -/
def isDecimalComma (before after : List Char) : Bool :=
  before.head?.any Char.isDigit && after.head?.any Char.isDigit && !(openGroups before).headD false

/-- No comma of a text between `before` and `after` is a decimal comma. -/
def KeepsCommas (before : List Char) : List Char → List Char → Prop
  | [], _ => True
  | c :: cs, after => (c = ',' → isDecimalComma before (cs ++ after) = false) ∧ KeepsCommas (c :: before) cs after

theorem keepsCommas_cons {before cs after : List Char} {c : Char} :
    KeepsCommas before (c :: cs) after ↔
      (c = ',' → isDecimalComma before (cs ++ after) = false) ∧ KeepsCommas (c :: before) cs after := Iff.rfl

/-! ### Names before a place -/

section Names

variable {before xs : List Char}

theorem takeWhile_append_of_startsOutside {p : Char → Bool} (h : StartsOutside p before) :
    (xs ++ before).takeWhile p = xs.takeWhile p := by
  induction xs with
  | nil =>
    cases before with
    | nil => rfl
    | cons c cs => simp [startsOutside_cons.mp h]
  | cons c xs ih => rw [List.cons_append, List.takeWhile_cons, List.takeWhile_cons, ih]

/-- A name does not reach beyond a character outside names. -/
theorem opensTwoArguments_append (h : StartsOutside isNameChar before) :
    opensTwoArguments (xs ++ before) = opensTwoArguments xs := by
  simp only [opensTwoArguments, nameBefore?, takeWhile_append_of_startsOutside h]

theorem opensTwoArguments_of_endsOutsideName (h : EndsOutsideName before) : opensTwoArguments before = false := by
  simp only [opensTwoArguments, nameBefore?, List.head?_reverse]
  rw [if_neg (by rw [h]; decide)]
  rfl

theorem opensTwoArguments_of_startsOutside (h : StartsOutside isNameChar before) : opensTwoArguments before = false :=
  @opensTwoArguments_append before [] h

end Names

/-! ### Open groups -/

section Groups

variable {before xs : List Char} {c : Char}

theorem openGroups_openParen : openGroups ('(' :: before) = opensTwoArguments before :: openGroups before := rfl

theorem openGroups_closeParen : openGroups (')' :: before) = (openGroups before).tail := rfl

theorem openGroups_cons (ho : c ≠ '(') (hc : c ≠ ')') : openGroups (c :: before) = openGroups before := by
  rw [openGroups, if_neg ho, if_neg hc]

/-- A balanced text leaves the open groups as they are. -/
theorem openGroups_balanced (h : Balanced '(' ')' xs) : openGroups (xs.reverse ++ before) = openGroups before := by
  induction h generalizing before with
  | nil => rfl
  | @plain c cs ho hc _ ih =>
    rw [List.reverse_cons, List.append_assoc, ih]
    exact openGroups_cons ho hc
  | @group xs ys _ _ ihx ihy =>
    have : ('(' :: xs ++ ')' :: ys).reverse ++ before = ys.reverse ++ (')' :: (xs.reverse ++ '(' :: before)) := by simp
    rw [this, ihy, openGroups_closeParen, ihx, openGroups_openParen, List.tail_cons]

end Groups

/-! ### The replacement -/

section Replacement

variable {before cs : List Char} {c : Char}

/-- The character that stands for `c` between the texts once decimal commas are points. -/
def pointed (before : List Char) (c : Char) (after : List Char) : Char :=
  if c = ',' ∧ isDecimalComma before after = true then '.' else c

theorem pointCommasAfter_cons :
    pointCommasAfter before (openGroups before) (c :: cs) =
      pointed before c cs :: pointCommasAfter (pointed before c cs :: before)
        (openGroups (pointed before c cs :: before)) cs := by
  rw [pointCommasAfter]
  by_cases ho : c = '('
  · subst ho
    simp [pointed, openGroups_openParen]
  · by_cases hc : c = ')'
    · subst hc
      simp [pointed, openGroups_closeParen]
    · rw [if_neg ho, if_neg hc]
      by_cases hd : c = ',' ∧ isDecimalComma before cs = true
      · have : pointed before c cs = '.' := if_pos hd
        rw [this, if_pos (by simpa [isDecimalComma, and_assoc] using hd), openGroups_cons (by decide) (by decide)]
      · have : pointed before c cs = c := if_neg hd
        rw [this, if_neg (by simpa [isDecimalComma, and_assoc] using hd), openGroups_cons ho hc]

theorem pointed_of_ne (h : c ≠ ',') : pointed before c cs = c := if_neg fun hc => h hc.1

theorem isDigit_pointed : (pointed before c cs).isDigit = c.isDigit := by
  unfold pointed
  split
  · next h => rw [h.1]; decide
  · rfl

theorem isDigit_head?_pointCommasAfter :
    (pointCommasAfter before (openGroups before) cs).head?.any Char.isDigit = cs.head?.any Char.isDigit := by
  cases cs with
  | nil => rfl
  | cons c cs => simp [pointCommasAfter_cons, isDigit_pointed]

/-- **Fixed texts.** The replacement of decimal commas leaves exactly the texts without any as they are. -/
theorem pointCommasAfter_eq_self_iff :
    pointCommasAfter before (openGroups before) cs = cs ↔ KeepsCommas before cs [] := by
  induction cs generalizing before with
  | nil => simp [pointCommasAfter, KeepsCommas]
  | cons c cs ih =>
    rw [pointCommasAfter_cons, KeepsCommas, List.append_nil, List.cons.injEq]
    have hfixed : pointed before c cs = c ↔ (c = ',' → isDecimalComma before cs = false) := by
      unfold pointed
      split
      · next h => simp [h.1, h.2]
      · next h => simpa using h
    constructor
    · rintro ⟨hc, hcs⟩
      rw [hc] at hcs
      exact ⟨hfixed.mp hc, ih.mp hcs⟩
    · rintro ⟨hc, hcs⟩
      rw [hfixed.mpr hc]
      exact ⟨rfl, ih.mpr hcs⟩

theorem pointCommas_eq_self_iff : pointCommas cs = cs ↔ KeepsCommas [] cs [] := pointCommasAfter_eq_self_iff

/-- After the replacement no comma is decimal. -/
theorem keepsCommas_pointCommasAfter : KeepsCommas before (pointCommasAfter before (openGroups before) cs) [] := by
  induction cs generalizing before with
  | nil => trivial
  | cons c cs ih =>
    rw [pointCommasAfter_cons]
    refine ⟨fun hc => ?_, ih⟩
    rw [List.append_nil, isDecimalComma, isDigit_head?_pointCommasAfter]
    change isDecimalComma before cs = false
    unfold pointed at hc
    split at hc
    · exact absurd hc (by decide)
    · next h => simpa [hc] using h

theorem keepsCommas_pointCommas : KeepsCommas [] (pointCommas cs) [] := keepsCommas_pointCommasAfter

end Replacement

/-! ### What stands around a text -/

section Contexts

variable {before before' after after' xs ys inner : List Char}

theorem keepsCommas_append :
    KeepsCommas before (xs ++ ys) after ↔ KeepsCommas before xs (ys ++ after) ∧ KeepsCommas (xs.reverse ++ before) ys after := by
  induction xs generalizing before with
  | nil => simp [KeepsCommas]
  | cons c xs ih => simp [KeepsCommas, ih, and_assoc]

theorem keepsCommas_of_not_mem (h : ',' ∉ xs) : KeepsCommas before xs after := by
  induction xs generalizing before with
  | nil => trivial
  | cons c xs ih =>
    rw [List.mem_cons, not_or] at h
    exact ⟨fun hc => absurd hc.symm h.1, ih h.2⟩

/-- A digit at the start of `ys ++ after` is one at the start of `ys ++ after'`, if that holds without `ys`. -/
theorem digit_head?_append (h : after'.head?.any Char.isDigit = true → after.head?.any Char.isDigit = true) :
    (ys ++ after').head?.any Char.isDigit = true → (ys ++ after).head?.any Char.isDigit = true := by
  cases ys with
  | nil => exact h
  | cons c ys => exact id

/-- What separates arguments after the text `before` separates them after `before'` as well. -/
structure SeparatesAfter (before before' : List Char) : Prop where
  groups : ∀ i, (openGroups before).getD i false = true → (openGroups before').getD i false = true
  opens : ∀ xs, opensTwoArguments (xs ++ before) = true → opensTwoArguments (xs ++ before') = true
  digit : before'.head?.any Char.isDigit = true → before.head?.any Char.isDigit = true

theorem SeparatesAfter.refl (before : List Char) : SeparatesAfter before before := ⟨fun _ => id, fun _ => id, id⟩

theorem SeparatesAfter.cons (h : SeparatesAfter before before') (c : Char) : SeparatesAfter (c :: before) (c :: before') where
  groups i := by
    by_cases ho : c = '('
    · subst ho
      rw [openGroups_openParen, openGroups_openParen]
      cases i with
      | zero => exact h.opens []
      | succ i => exact h.groups i
    · by_cases hc : c = ')'
      · subst hc
        simpa [openGroups_closeParen] using h.groups (i + 1)
      · rw [openGroups_cons ho hc, openGroups_cons ho hc]
        exact h.groups i
  opens xs := by simpa using h.opens (xs ++ [c])
  digit := id

theorem SeparatesAfter.isDecimalComma (h : SeparatesAfter before before')
    (hafter : after'.head?.any Char.isDigit = true → after.head?.any Char.isDigit = true)
    (hkeep : isDecimalComma before after = false) : isDecimalComma before' after' = false := by
  rw [Bool.eq_false_iff] at hkeep ⊢
  intro hdecimal
  simp only [Formula.isDecimalComma, Bool.and_eq_true, Bool.not_eq_true', List.headD_eq_getD,
    ne_eq] at hkeep hdecimal
  obtain ⟨⟨hb, ha⟩, hg⟩ := hdecimal
  refine hkeep ⟨⟨h.digit hb, hafter ha⟩, ?_⟩
  rw [Bool.eq_false_iff] at hg ⊢
  exact fun hg' => hg (h.groups 0 hg')

/-- Commas stay what they are after a text with as many groups of arguments. -/
theorem KeepsCommas.mono (hkeep : KeepsCommas before xs after) (h : SeparatesAfter before before')
    (hafter : after'.head?.any Char.isDigit = true → after.head?.any Char.isDigit = true) :
    KeepsCommas before' xs after' := by
  induction xs generalizing before before' with
  | nil => trivial
  | cons c xs ih =>
    rw [keepsCommas_cons] at hkeep ⊢
    obtain ⟨hc, hxs⟩ := hkeep
    exact ⟨fun heq => h.isDecimalComma (digit_head?_append hafter) (hc heq), ih hxs (h.cons c)⟩

/-- Texts after which the same commas separate arguments have the same decimal commas after them. -/
theorem pointCommasAfter_congr (h : SeparatesAfter before before') (h' : SeparatesAfter before' before) :
    pointCommasAfter before (openGroups before) cs = pointCommasAfter before' (openGroups before') cs := by
  induction cs generalizing before before' with
  | nil => rfl
  | cons c cs ih =>
    have hdecimal : isDecimalComma before cs = isDecimalComma before' cs := by
      cases hb : isDecimalComma before cs with
      | false => exact (h.isDecimalComma id hb).symm
      | true =>
        cases hb' : isDecimalComma before' cs with
        | true => rfl
        | false =>
          rw [h'.isDecimalComma id hb'] at hb
          cases hb
    have hpointed : pointed before c cs = pointed before' c cs := by
      unfold pointed
      rw [hdecimal]
    rw [pointCommasAfter_cons, pointCommasAfter_cons, hpointed, ih (h.cons _) (h'.cons _)]

theorem keepsCommas_congr_after (h : after.head?.any Char.isDigit = after'.head?.any Char.isDigit) :
    KeepsCommas before xs after ↔ KeepsCommas before xs after' :=
  ⟨fun hk => hk.mono (.refl _) (fun h' => h ▸ h'), fun hk => hk.mono (.refl _) (fun h' => h ▸ h')⟩

/-- In a balanced text only the innermost group around it matters. -/
theorem keepsCommas_balanced (h : Balanced '(' ')' xs)
    (hgroup : (openGroups before).headD false = (openGroups before').headD false)
    (hopens : ∀ zs, opensTwoArguments (zs ++ before) = opensTwoArguments (zs ++ before'))
    (hdigit : before.head?.any Char.isDigit = before'.head?.any Char.isDigit)
    (hkeep : KeepsCommas before xs after) : KeepsCommas before' xs after := by
  induction h generalizing before before' after with
  | nil => trivial
  | @plain c cs ho hc _ ih =>
    rw [keepsCommas_cons] at hkeep ⊢
    refine ⟨fun heq => ?_, ih ?_ (fun zs => ?_) ?_ hkeep.2⟩
    · have := hkeep.1 heq
      rwa [isDecimalComma, ← hdigit, ← hgroup]
    · rw [openGroups_cons ho hc, openGroups_cons ho hc, hgroup]
    · simpa using hopens (zs ++ [c])
    · rfl
  | @group xs ys hx _ ihx ihy =>
    rw [List.cons_append, keepsCommas_cons, keepsCommas_append, keepsCommas_cons] at hkeep ⊢
    obtain ⟨-, hxs, -, hys⟩ := hkeep
    have hcons : ∀ zs c, opensTwoArguments (zs ++ c :: before) = opensTwoArguments (zs ++ c :: before') := by
      intro zs c
      simpa using hopens (zs ++ [c])
    refine ⟨nofun, ihx ?_ (fun zs => hcons zs '(') ?_ hxs, nofun, ihy ?_ (fun zs => ?_) ?_ hys⟩
    · exact hopens []
    · rfl
    · rw [openGroups_closeParen, openGroups_closeParen, openGroups_balanced hx, openGroups_balanced hx]
      exact hgroup
    · have := hcons (zs ++ ')' :: xs.reverse) '('
      simpa using this
    · rfl

end Contexts

end Numerics.Formula
