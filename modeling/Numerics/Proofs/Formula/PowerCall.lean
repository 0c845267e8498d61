import Numerics.Proofs.Formula.Commas

/-!
# Commas in calls for powers

A call for a power brings a comma of its own and a group around its operands.  All other commas stay what they are: those
of the operands stand in groups of the operands.  The comma of the call is a decimal comma in one case (`cutsName`): a left
operand that is cut off the end of a name, as the `2` of `x2`, makes the name go on with `pow`, and with a digit on each
side of the comma nothing tells it from a decimal comma.
-/

namespace Numerics.Formula

open Text

/-- The power sign between the texts cuts a number off the end of a name and has a digit on either side. -/
def cutsName (before after : List Char) : Bool :=
  before.head?.any Char.isDigit && (before.dropWhile isNumberChar).head?.any isNameChar && after.head?.any Char.isDigit

/-! ### Names of functions -/

theorem mem_of_takesTwo {name : String} (h : Function.takesTwo name = true) :
    name ∈ ["log", "ln", "pow", "round", "min", "max"] := by
  obtain ⟨f, hf, hbinary⟩ := (Option.any_eq_true _ _).mp h
  unfold Function.named? at hf
  have hname := List.find?_some hf
  have hmem : f ∈ Function.all.filter (·.binary.isSome) := List.mem_filter.mpr ⟨List.mem_of_find?_eq_some hf, hbinary⟩
  simp only [Function.all, Option.isSome_some, Option.isSome_none, List.filter_cons_of_pos, List.filter_cons_of_neg,
    Bool.false_eq_true, not_false_eq_true, List.filter_nil, List.mem_cons, List.not_mem_nil, or_false] at hmem
  rcases hmem with rfl | rfl | rfl | rfl | rfl <;> simp [Function.answersTo] at hname
  · rcases hname with rfl | rfl <;> simp
  all_goals simp [← hname]

/-- No function of two arguments has a longer name that ends in `pow`. -/
theorem takesTwo_append_pow (c : Char) (cs : List Char) :
    Function.takesTwo (.ofList ('w' :: 'o' :: 'p' :: c :: cs).reverse) = false := by
  rw [Bool.eq_false_iff]
  intro h
  obtain ⟨name, hname, heq⟩ : ∃ name ∈ ["log", "ln", "pow", "round", "min", "max"],
      ('w' :: 'o' :: 'p' :: c :: cs) = name.toList.reverse :=
    ⟨_, mem_of_takesTwo h, by simp⟩
  simp only [List.mem_cons, List.not_mem_nil, or_false] at hname
  rcases hname with rfl | rfl | rfl | rfl | rfl | rfl <;> simp at heq

/-- A parenthesis after `pow` starts the arguments of a function that takes two unless the name starts before `pow`. -/
theorem opensTwoArguments_pow (before : List Char) :
    opensTwoArguments ('w' :: 'o' :: 'p' :: before) = !before.head?.any isNameChar := by
  have hw : isNameChar 'w' = true := by decide
  have ho : isNameChar 'o' = true := by decide
  have hp : isNameChar 'p' = true := by decide
  have halone : opensTwoArguments ['w', 'o', 'p'] = true := by decide
  cases before with
  | nil => exact halone
  | cons c cs =>
    cases hc : isNameChar c with
    | false =>
      have := @opensTwoArguments_append (c :: cs) ['w', 'o', 'p'] (startsOutside_cons.mpr hc)
      rw [halone] at this
      simpa [hc] using this
    | true =>
      simp only [opensTwoArguments, nameBefore?, List.takeWhile_cons, hw, ho, hp, hc, if_true]
      split
      · simp only [Option.any_some, takesTwo_append_pow, List.head?_cons, hc, Bool.not_true]
      · simp [hc]

/-! ### Characters of operands -/

section Characters

variable {c : Char}

theorem ne_of_isNameChar (h : isNameChar c = true) : c ≠ ',' ∧ c ≠ '(' ∧ c ≠ ')' ∧ c ≠ '^' := by
  refine ⟨?_, ?_, ?_, ?_⟩ <;> rintro rfl <;> exact absurd h (by decide)

theorem ne_of_isNumberChar (h : isNumberChar c = true) : c ≠ ',' ∧ c ≠ '(' ∧ c ≠ ')' ∧ c ≠ '^' := by
  refine ⟨?_, ?_, ?_, ?_⟩ <;> rintro rfl <;> exact absurd h (by decide)

end Characters

/-! ### Operands are balanced -/

section Balance

variable {start rest xs inner : List Char}

theorem Balanced.enclosed (h : Balanced '(' ')' inner) : Balanced '(' ')' (enclosed inner) := .group h .nil

theorem balanced_name (h : ∀ c ∈ xs, isNameChar c = true) : Balanced '(' ')' xs :=
  balanced_of_forall fun c hc => ⟨(ne_of_isNameChar (h c hc)).2.1, (ne_of_isNameChar (h c hc)).2.2.1⟩

theorem balanced_literal (h : ∀ c ∈ xs, isNumberChar c = true) : Balanced '(' ')' xs :=
  balanced_of_forall fun c hc => ⟨(ne_of_isNumberChar (h c hc)).2.1, (ne_of_isNumberChar (h c hc)).2.2.1⟩

theorem IsLeftOperand.balanced (h : IsLeftOperand start xs) : Balanced '(' ')' xs := by
  cases h with
  | literal _ hall _ => exact balanced_literal hall
  | name hall hc _ => exact (balanced_name hall).append (balanced_name (by simpa using isNameChar_of_isNameStart hc))
  | call hc hname hinner _ =>
    have := isNameChar_of_isNameStart (isNameStart_of_isAlphabetic hc)
    exact (balanced_name (List.forall_mem_cons.mpr ⟨this, hname⟩)).append hinner.enclosed
  | group hinner _ => exact hinner.enclosed

theorem IsUnsignedOperand.balanced (h : IsUnsignedOperand rest xs) : Balanced '(' ')' xs := by
  cases h with
  | literal _ hall _ => exact balanced_literal hall
  | name hc hname _ _ => exact balanced_name (List.forall_mem_cons.mpr ⟨isNameChar_of_isNameStart hc, hname⟩)
  | call hc hname hinner =>
    exact (balanced_name (List.forall_mem_cons.mpr ⟨isNameChar_of_isNameStart hc, hname⟩)).append hinner.enclosed
  | group hinner => exact hinner.enclosed

theorem IsRightOperand.balanced (h : IsRightOperand rest xs) : Balanced '(' ')' xs := by
  cases h with
  | unsigned h => exact h.balanced
  | signed hsign h => rcases hsign with rfl | rfl <;> exact .plain (by decide) (by decide) h.balanced

end Balance

/-! ### Commas of the operands -/

section Operands

variable {start rest left right before before' after after' inner p : List Char}

/-- The commas of a group and of a name before it depend on what the name says of the group. -/
theorem keepsCommas_enclosed (hp : ',' ∉ p) (hinner : Balanced '(' ')' inner)
    (hopens : opensTwoArguments (p.reverse ++ before) = opensTwoArguments (p.reverse ++ before'))
    (h : KeepsCommas before (p ++ enclosed inner) after) : KeepsCommas before' (p ++ enclosed inner) after' := by
  have houtside {b : List Char} : StartsOutside isNameChar ('(' :: b) := startsOutside_cons.mpr (by decide)
  rw [enclosed, List.cons_append, keepsCommas_append, keepsCommas_cons, keepsCommas_append] at h ⊢
  refine ⟨keepsCommas_of_not_mem hp, fun h => absurd h (by decide), ?_, keepsCommas_of_not_mem (by decide)⟩
  have hkeep : KeepsCommas ('(' :: (p.reverse ++ before')) inner ([')'] ++ after) := by
    refine keepsCommas_balanced hinner ?_ (fun zs => ?_) ?_ h.2.2.1
    · exact hopens
    · rw [opensTwoArguments_append houtside, opensTwoArguments_append houtside]
    · rfl
  exact (keepsCommas_congr_after (by rfl)).mp hkeep

theorem not_mem_comma_name {name : List Char} (h : ∀ c ∈ name, isNameChar c = true) : ',' ∉ name :=
  fun hmem => (ne_of_isNameChar (h _ hmem)).1 rfl

theorem not_mem_comma_literal {xs : List Char} (h : ∀ c ∈ xs, isNumberChar c = true) : ',' ∉ xs :=
  fun hmem => (ne_of_isNumberChar (h _ hmem)).1 rfl

/-- The commas of a left operand stay what they are in the call. -/
theorem IsLeftOperand.keepsCommas_iff (h : IsLeftOperand start left) :
    KeepsCommas ('(' :: 'w' :: 'o' :: 'p' :: start) left after' ↔ KeepsCommas start left after := by
  have houtside : StartsOutside isNameChar ('(' :: 'w' :: 'o' :: 'p' :: start) := startsOutside_cons.mpr (by decide)
  cases h with
  | literal _ hall _ =>
    have := not_mem_comma_literal hall
    exact iff_of_true (keepsCommas_of_not_mem this) (keepsCommas_of_not_mem this)
  | @name xs c hall hc _ =>
    have : ',' ∉ xs ++ [c] := by
      refine not_mem_comma_name fun d hd => ?_
      rcases List.mem_append.mp hd with hd | hd
      · exact hall d hd
      · exact List.mem_singleton.mp hd ▸ isNameChar_of_isNameStart hc
    exact iff_of_true (keepsCommas_of_not_mem this) (keepsCommas_of_not_mem this)
  | @call c name inner hc hname hinner hstart =>
    have hcomma : ',' ∉ c :: name := by
      refine not_mem_comma_name (List.forall_mem_cons.mpr ⟨?_, hname⟩)
      exact isNameChar_of_isNameStart (isNameStart_of_isAlphabetic hc)
    have hopens : opensTwoArguments ((c :: name).reverse ++ '(' :: 'w' :: 'o' :: 'p' :: start) =
        opensTwoArguments ((c :: name).reverse ++ start) := by
      rw [opensTwoArguments_append houtside, opensTwoArguments_append hstart]
    exact ⟨keepsCommas_enclosed hcomma hinner hopens, keepsCommas_enclosed hcomma hinner hopens.symm⟩
  | @group inner hinner hends =>
    have hopens : opensTwoArguments ('(' :: 'w' :: 'o' :: 'p' :: start) = opensTwoArguments start := by
      rw [opensTwoArguments_of_startsOutside houtside, opensTwoArguments_of_endsOutsideName hends]
    exact ⟨@keepsCommas_enclosed _ _ _ _ _ [] (by decide) hinner hopens,
      @keepsCommas_enclosed _ _ _ _ _ [] (by decide) hinner hopens.symm⟩

theorem IsUnsignedOperand.keepsCommas (h : IsUnsignedOperand rest right) (hbefore : StartsOutside isNameChar before)
    (hbefore' : StartsOutside isNameChar before') (hkeep : KeepsCommas before right after) :
    KeepsCommas before' right after' := by
  have hopens (xs) : opensTwoArguments (xs ++ before) = opensTwoArguments (xs ++ before') := by
    rw [opensTwoArguments_append hbefore, opensTwoArguments_append hbefore']
  cases h with
  | literal _ hall _ => exact keepsCommas_of_not_mem (not_mem_comma_literal hall)
  | name hc hname _ _ =>
    exact keepsCommas_of_not_mem (not_mem_comma_name (List.forall_mem_cons.mpr ⟨isNameChar_of_isNameStart hc, hname⟩))
  | call hc hname hinner =>
    have := not_mem_comma_name (List.forall_mem_cons.mpr ⟨isNameChar_of_isNameStart hc, hname⟩)
    exact keepsCommas_enclosed this hinner (hopens _) hkeep
  | group hinner => exact @keepsCommas_enclosed _ _ _ _ _ [] (by decide) hinner (hopens []) hkeep

/-- The commas of a right operand stay what they are in the call. -/
theorem IsRightOperand.keepsCommas (h : IsRightOperand rest right) (hkeep : KeepsCommas ('^' :: before) right after) :
    KeepsCommas (',' :: before') right after' := by
  cases h with
  | unsigned h =>
    exact h.keepsCommas (startsOutside_cons.mpr (by decide)) (startsOutside_cons.mpr (by decide)) hkeep
  | @signed sign xs hsign h =>
    have hname : isNameChar sign = false := by rcases hsign with rfl | rfl <;> decide
    have hcomma : sign ≠ ',' := by rcases hsign with rfl | rfl <;> decide
    rw [keepsCommas_cons] at hkeep ⊢
    exact ⟨fun heq => absurd heq hcomma,
      h.keepsCommas (startsOutside_cons.mpr hname) (startsOutside_cons.mpr hname) hkeep.2⟩

end Operands

/-! ### Commas after the call -/

section Rest

variable {start rest left right before before' after after' xs ys : List Char}

/-- A name that a digit starts is none. -/
theorem opensTwoArguments_of_literal (hys : ∀ c ∈ ys, isNumberChar c = true) (hbefore : StartsOutside isNameChar before)
    (h : opensTwoArguments (xs ++ (ys ++ before)) = true) : opensTwoArguments xs = true := by
  have hrun : (ys ++ before).takeWhile isNameChar = ys.takeWhile isNameChar :=
    takeWhile_append_of_startsOutside hbefore
  by_cases hxs : ∀ c ∈ xs, isNameChar c = true
  · have hall : (xs ++ (ys ++ before)).takeWhile isNameChar = xs ++ ys.takeWhile isNameChar := by
      rw [List.takeWhile_append_of_pos hxs, hrun]
    cases hlast : (ys.takeWhile isNameChar).getLast? with
    | none =>
      rw [List.getLast?_eq_none_iff] at hlast
      have hself : xs.takeWhile isNameChar = xs := by simpa using hxs
      rw [hlast, List.append_nil] at hall
      simpa only [opensTwoArguments, nameBefore?, hall, hself] using h
    | some d =>
      have hmem := List.mem_of_getLast? hlast
      have hname := List.mem_takeWhile_imp hmem
      have hnumber := hys d (List.takeWhile_subset _ hmem)
      have hdigit : isAlphabetic d = false := by
        rcases Bool.or_eq_true_iff.mp hnumber with hd | hd
        · exact isAlphabetic_of_isDigit hd
        · rw [beq_iff_eq.mp hd] at hname
          exact absurd hname (by decide)
      have hends : EndsOutsideName (xs ++ (ys ++ before)) := by
        rw [EndsOutsideName, hall, List.getLast?_append, hlast]
        simpa using hdigit
      rw [opensTwoArguments_of_endsOutsideName hends] at h
      cases h
  · -- the name before the place lies within `xs`
    have : (xs ++ (ys ++ before)).takeWhile isNameChar = xs.takeWhile isNameChar := by
      rw [List.takeWhile_append, if_neg]
      intro hlength
      exact hxs (List.takeWhile_eq_self_iff.mp ((List.takeWhile_prefix _).eq_of_length hlength))
    simpa only [opensTwoArguments, nameBefore?, this] using h

/-- Unless a name ends right before it, what follows an operand is after a closed group what it is after the operand. -/
theorem IsUnsignedOperand.opens (h : IsUnsignedOperand rest right) (hbefore : StartsOutside isNameChar before) :
    (∀ xs, opensTwoArguments (xs ++ (right.reverse ++ before)) = true → opensTwoArguments xs = true) ∨
      (StartsOutside isNameChar rest ∧ rest.head? ≠ some '(') := by
  have hclosed (p inner xs : List Char) (hopens : opensTwoArguments (xs ++ ((p ++ enclosed inner).reverse ++ before)) = true) :
      opensTwoArguments xs = true := by
    have : StartsOutside isNameChar ((p ++ enclosed inner).reverse ++ before) := by
      simp [enclosed, StartsOutside]
      decide
    rwa [opensTwoArguments_append this] at hopens
  cases h with
  | literal _ hall _ =>
    exact .inl fun xs => opensTwoArguments_of_literal (fun c hc => hall c (List.mem_reverse.mp hc)) hbefore
  | name _ _ hrest hopen => exact .inr ⟨hrest, hopen⟩
  | call => exact .inl (hclosed _ _)
  | group => exact .inl (hclosed [] _)

theorem IsRightOperand.opens (h : IsRightOperand rest right) :
    (∀ xs, opensTwoArguments (xs ++ (right.reverse ++ '^' :: before)) = true → opensTwoArguments xs = true) ∨
      (StartsOutside isNameChar rest ∧ rest.head? ≠ some '(') := by
  cases h with
  | unsigned h => exact h.opens (startsOutside_cons.mpr (by decide))
  | @signed sign ys hsign h =>
    have hname : isNameChar sign = false := by rcases hsign with rfl | rfl <;> decide
    simpa using h.opens (startsOutside_cons.mpr hname : StartsOutside isNameChar (sign :: '^' :: before))

/-- Commas after the operands stay what they are after the call. -/
theorem IsRightOperand.keepsCommas_rest (h : IsRightOperand rest right)
    (hgroups : (openGroups before').tail = openGroups before)
    (hkeep : KeepsCommas (right.reverse ++ '^' :: before) rest after) :
    KeepsCommas (')' :: (right.reverse ++ ',' :: before')) rest after := by
  have houtside : StartsOutside isNameChar (')' :: (right.reverse ++ ',' :: before')) := startsOutside_cons.mpr (by decide)
  have hgroups' : openGroups (')' :: (right.reverse ++ ',' :: before')) = openGroups (right.reverse ++ '^' :: before) := by
    rw [openGroups_closeParen, openGroups_balanced h.balanced, openGroups_balanced h.balanced,
      openGroups_cons (by decide) (by decide), openGroups_cons (by decide) (by decide), hgroups]
  rcases h.opens with hopens | ⟨hname, hopen⟩
  · refine hkeep.mono ⟨fun i => ?_, fun xs hxs => ?_, ?_⟩ id
    · rw [hgroups']
      exact id
    · rw [opensTwoArguments_append houtside]
      exact hopens xs hxs
    · intro hdigit
      cases hdigit
  · -- the operand may be a name, but what follows neither goes on with it nor gives it arguments
    cases rest with
    | nil => trivial
    | cons c rest =>
      have hc : isNameChar c = false := startsOutside_cons.mp hname
      have ho : c ≠ '(' := by simpa using hopen
      rw [keepsCommas_cons] at hkeep ⊢
      refine ⟨fun _ => by simp [isDecimalComma], hkeep.2.mono ⟨fun i => ?_, fun xs hxs => ?_, id⟩ id⟩
      · by_cases hclose : c = ')'
        · subst hclose
          rw [openGroups_closeParen, openGroups_closeParen, hgroups']
          exact id
        · rw [openGroups_cons ho hclose, openGroups_cons ho hclose, hgroups']
          exact id
      · rw [opensTwoArguments_append (startsOutside_cons.mpr hc)] at hxs ⊢
        exact hxs

end Rest

/-! ### The comma of the call -/

section Comma

variable {start left right rest rest' : List Char}

theorem IsLeftOperand.ne_nil (h : IsLeftOperand start left) : left ≠ [] := by
  cases h <;> simp_all [enclosed]

theorem IsRightOperand.ne_nil (h : IsRightOperand rest right) : right ≠ [] := by
  cases h with
  | unsigned h =>
    obtain ⟨c, cs, rfl, -⟩ := h.head
    exact List.cons_ne_nil _ _
  | signed => exact List.cons_ne_nil _ _

theorem getLast?_enclosed (xs inner : List Char) : (xs ++ enclosed inner).getLast? = some ')' := by
  rw [enclosed, ← List.append_assoc, List.getLast?_concat]

/-- An operand that ends in a digit is a literal. -/
theorem IsLeftOperand.dropWhile_of_isDigit (h : IsLeftOperand start left)
    (hdigit : left.getLast?.any Char.isDigit = true) : (left.reverse ++ start).dropWhile isNumberChar = start := by
  cases h with
  | literal _ hall hstart =>
    exact congrArg Prod.snd (splitRun_eq_iff.mpr ⟨rfl, fun d hd => hall d (List.mem_reverse.mp hd), hstart⟩)
  | name _ hc _ =>
    have hnumber := isNumberChar_of_isNameStart hc
    rw [isNumberChar_of_isDigit (by simpa using hdigit)] at hnumber
    cases hnumber
  | call =>
    rw [getLast?_enclosed] at hdigit
    cases hdigit
  | group =>
    rw [← List.nil_append (enclosed _), getLast?_enclosed] at hdigit
    cases hdigit

/-- **The comma of a call** is a decimal comma exactly if the power cuts a name. -/
theorem IsLeftOperand.isDecimalComma_eq (hl : IsLeftOperand start left) (hr : right ≠ []) :
    isDecimalComma (left.reverse ++ '(' :: 'w' :: 'o' :: 'p' :: start) (right ++ rest) =
      cutsName (left.reverse ++ start) (right ++ rest') := by
  obtain ⟨c, cs, hcs⟩ := List.exists_cons_of_ne_nil (mt List.reverse_eq_nil_iff.mp hl.ne_nil)
  obtain ⟨d, ds, rfl⟩ := List.exists_cons_of_ne_nil hr
  have hgroup : (openGroups (left.reverse ++ '(' :: 'w' :: 'o' :: 'p' :: start)).headD false =
      !start.head?.any isNameChar := by
    rw [openGroups_balanced hl.balanced, openGroups_openParen, List.headD_cons, opensTwoArguments_pow]
  have hlast : left.getLast? = some c := by rw [← List.head?_reverse, hcs, List.head?_cons]
  rw [isDecimalComma, hgroup, cutsName, Bool.not_not, Bool.and_right_comm]
  cases hc : c.isDigit with
  | false => simp [hcs, hc]
  | true =>
    rw [hl.dropWhile_of_isDigit (by rw [hlast, Option.any_some, hc]), hcs]
    rfl

end Comma

/-! ### One pass -/

section Pass

variable {before after cs : List Char}

/-- **Kept commas.** A power that does not cut a name makes no decimal comma. -/
theorem keepsCommas_replacePower (hpower : replacePower before after = .ok cs) (hcut : cutsName before after = false)
    (hkeep : KeepsCommas [] (before.reverse ++ '^' :: after) []) : KeepsCommas [] cs [] := by
  obtain ⟨start, left, right, rest, rfl, hl, rfl, hr, rfl⟩ := replacePower_eq_ok_iff.mp hpower
  rw [List.reverse_append, List.reverse_reverse, List.append_assoc] at hkeep
  simp only [keepsCommas_append, keepsCommas_cons, List.reverse_reverse, List.append_nil] at hkeep ⊢
  obtain ⟨hstart, hleft, -, hright, hrest⟩ := hkeep
  refine ⟨?_, nofun, nofun, nofun, nofun, hl.keepsCommas_iff.mpr hleft, fun _ => ?_, hr.keepsCommas hright, nofun, ?_⟩
  · exact hstart.mono (.refl _) nofun
  · exact (hl.isDecimalComma_eq hr.ne_nil).trans hcut
  · refine hr.keepsCommas_rest ?_ hrest
    rw [openGroups_balanced hl.balanced, openGroups_balanced hl.balanced]
    rfl

/-- A decimal comma stands in a text before a parenthesis that no power sign precedes. -/
def HasDecimalComma (cs : List Char) : Prop :=
  ∃ xs ys, cs = xs ++ ')' :: ys ∧ '^' ∉ xs ∧ ¬ KeepsCommas [] xs [')']

theorem HasDecimalComma.not_keepsCommas (h : HasDecimalComma cs) : ¬ KeepsCommas [] cs [] := by
  obtain ⟨xs, ys, rfl, -, hxs⟩ := h
  intro hkeep
  rw [keepsCommas_append] at hkeep
  exact hxs ((keepsCommas_congr_after (by rfl)).mp hkeep.1)

/-- A right operand that a digit starts is a literal. -/
theorem IsRightOperand.not_mem_caret {rest right : List Char} (h : IsRightOperand rest right)
    (hdigit : right.head?.any Char.isDigit = true) : '^' ∉ right := by
  have hstart {c : Char} (hc : isNameStart c = true) (hd : c.isDigit = true) : False := by
    have := isNumberChar_of_isNameStart hc
    rw [isNumberChar_of_isDigit hd] at this
    cases this
  cases h with
  | unsigned h =>
    cases h with
    | literal _ hall _ => exact fun hmem => (ne_of_isNumberChar (hall _ hmem)).2.2.2 rfl
    | name hc _ _ _ => exact (hstart hc (by simpa using hdigit)).elim
    | call hc _ _ => exact (hstart hc (by simpa using hdigit)).elim
    | group _ => cases hdigit
  | signed hsign _ => rcases hsign with rfl | rfl <;> cases hdigit

theorem hasDecimalComma_of_cutsName (hpower : replacePower before after = .ok cs) (hcaret : '^' ∉ before)
    (hcut : cutsName before after = true) : HasDecimalComma cs := by
  obtain ⟨start, left, right, rest, rfl, hl, rfl, hr, rfl⟩ := replacePower_eq_ok_iff.mp hpower
  refine ⟨start.reverse ++ ('p' :: 'o' :: 'w' :: '(' :: (left ++ ',' :: right)), rest, by simp, ?_, ?_⟩
  · have hright : '^' ∉ right := by
      obtain ⟨d, ds, rfl⟩ := List.exists_cons_of_ne_nil hr.ne_nil
      exact hr.not_mem_caret (Bool.and_eq_true_iff.mp hcut).2
    simp only [List.mem_append, List.mem_reverse, not_or] at hcaret
    simp [hcaret, hright]
  · intro hkeep
    simp only [keepsCommas_append, keepsCommas_cons, List.reverse_reverse, List.append_nil] at hkeep
    have := hkeep.2.2.2.2.2.2.1 trivial
    rw [hl.isDecimalComma_eq hr.ne_nil, hcut] at this
    cases this

/-- A left operand with a closing parenthesis is a group or a call. -/
theorem IsLeftOperand.eq_enclosed {start left : List Char} (h : IsLeftOperand start left) (hmem : ')' ∈ left) :
    ∃ p inner, left = p ++ enclosed inner ∧ left.head?.any Char.isDigit = false := by
  cases h with
  | literal _ hall _ => exact absurd (hall _ hmem) (by decide)
  | @name xs c hall hc _ =>
    rcases List.mem_append.mp hmem with hmem | hmem
    · exact absurd (hall _ hmem) (by decide)
    · rw [← List.mem_singleton.mp hmem] at hc
      exact absurd hc (by decide)
  | @call c name inner hc _ _ _ =>
    refine ⟨c :: name, inner, rfl, ?_⟩
    rw [List.cons_append, List.head?_cons, Option.any_some, Bool.eq_false_iff]
    intro hdigit
    rw [isAlphabetic_of_isDigit hdigit] at hc
    cases hc
  | @group inner _ _ => exact ⟨[], inner, rfl, rfl⟩

/-- A parenthesis that no power sign precedes stands before every power sign. -/
theorem exists_append_of_not_mem {xs ys : List Char} (hxs : '^' ∉ xs) (h : before ++ '^' :: after = xs ++ ')' :: ys) :
    ∃ zs, before = xs ++ ')' :: zs := by
  rcases List.append_eq_append_iff.mp h with ⟨as, rfl, has⟩ | ⟨as, has, hys⟩
  · cases as with
    | nil => cases has
    | cons a as =>
      obtain ⟨rfl, -⟩ := List.cons.inj has
      simp at hxs
  · cases as with
    | nil => cases hys
    | cons a as =>
      obtain ⟨rfl, -⟩ := List.cons.inj hys
      exact ⟨as, has⟩

/-- The next powers leave a decimal comma of a call what it is. -/
theorem HasDecimalComma.replacePower (h : HasDecimalComma (before.reverse ++ '^' :: after)) (hcaret : '^' ∉ before)
    (hpower : replacePower before after = .ok cs) : HasDecimalComma cs := by
  obtain ⟨start, left, right, rest, rfl, hl, rfl, hr, rfl⟩ := replacePower_eq_ok_iff.mp hpower
  obtain ⟨xs, ys, heq, hxs, hcomma⟩ := h
  rw [List.reverse_append, List.reverse_reverse] at heq
  obtain ⟨zs, hbefore⟩ := exists_append_of_not_mem hxs heq
  rcases List.append_eq_append_iff.mp hbefore with ⟨as, rfl, rfl⟩ | ⟨as, hstart, hzs⟩
  · -- the parenthesis belongs to the operand, a group or a call that goes into the new call as a whole
    obtain ⟨p, inner, hleft, hhead⟩ := hl.eq_enclosed (by simp)
    refine ⟨start.reverse ++ ('p' :: 'o' :: 'w' :: '(' :: (p ++ '(' :: inner)), ',' :: (right ++ ')' :: rest), ?_, ?_, ?_⟩
    · simp [hleft, enclosed]
    · simp only [hleft, enclosed, List.mem_append, List.mem_reverse, List.mem_cons, not_or] at hcaret
      simp [hcaret]
    · intro hkeep
      rw [keepsCommas_append, List.reverse_reverse, List.append_nil, keepsCommas_cons, keepsCommas_cons, keepsCommas_cons,
        keepsCommas_cons] at hkeep
      obtain ⟨hstart, -, -, -, -, hgroup⟩ := hkeep
      have hnew : KeepsCommas ('(' :: 'w' :: 'o' :: 'p' :: start) (p ++ '(' :: inner ++ [')']) [] :=
        keepsCommas_append.mpr ⟨hgroup, keepsCommas_of_not_mem (by decide)⟩
      have hold : KeepsCommas start (as ++ ')' :: zs) [] := by
        rw [hleft]
        rw [hleft] at hl
        exact hl.keepsCommas_iff.mp (by simpa [enclosed] using hnew)
      refine hcomma (keepsCommas_append.mpr ⟨(keepsCommas_congr_after ?_).mp hstart, ?_⟩)
      · cases as with
        | nil => rfl
        | cons a as => exact hhead.symm
      · rw [List.reverse_reverse, List.append_nil]
        exact (keepsCommas_congr_after (by rfl)).mp (keepsCommas_append.mp hold).1
  · cases as with
    | nil =>
      rw [List.nil_append] at hzs
      have hbalanced := hl.balanced
      rw [← hzs] at hbalanced
      cases hbalanced
      contradiction
    | cons a as =>
      obtain ⟨rfl, -⟩ := List.cons.inj hzs
      exact ⟨xs, as ++ 'p' :: 'o' :: 'w' :: '(' :: (left ++ ',' :: (right ++ ')' :: rest)), by simp [hstart], hxs, hcomma⟩

end Pass

end Numerics.Formula
