import Numerics.Proofs.Formula.Nesting
import Numerics.Proofs.Outcome
import Numerics.Proofs.Text.Letter

/-!
# Operands of power signs

What stands on the two sides of a power sign, as shapes of texts: a literal, a name, a call or a group.  A scan outward
from the sign finds an operand exactly if the text next to the sign has one of these shapes and cannot be made longer
(`leftOperand_eq_ok_iff`, `rightOperand_eq_ok_iff`).
-/

namespace Numerics.Formula

open Text

/-- A text in parentheses. -/
def enclosed (inner : List Char) : List Char := '(' :: inner ++ [')']

/-- The text, nearest character first, does not end in a name that a letter starts. -/
def EndsOutsideName (before : List Char) : Prop := (before.takeWhile isNameChar).getLast?.any isAlphabetic = false

/-- The shapes of a left operand after the text `start`, which is kept nearest character first. -/
inductive IsLeftOperand (start : List Char) : List Char → Prop where
  | literal {xs : List Char} :
      xs ≠ [] → (∀ c ∈ xs, isNumberChar c = true) → StartsOutside isNumberChar start → IsLeftOperand start xs
  | name {xs : List Char} {c : Char} :
      (∀ c ∈ xs, isNameChar c = true) → isNameStart c = true → StartsOutside isNameChar start →
      IsLeftOperand start (xs ++ [c])
  | call {c : Char} {name inner : List Char} :
      isAlphabetic c = true → (∀ c ∈ name, isNameChar c = true) → Balanced '(' ')' inner →
      StartsOutside isNameChar start → IsLeftOperand start (c :: name ++ enclosed inner)
  | group {inner : List Char} :
      Balanced '(' ')' inner → EndsOutsideName start → IsLeftOperand start (enclosed inner)

/-- The shapes of a right operand without a sign of its own before the text `rest`. -/
inductive IsUnsignedOperand (rest : List Char) : List Char → Prop where
  | literal {xs : List Char} :
      xs ≠ [] → (∀ c ∈ xs, isNumberChar c = true) → StartsOutside isNumberChar rest → IsUnsignedOperand rest xs
  | name {c : Char} {xs : List Char} :
      isNameStart c = true → (∀ c ∈ xs, isNameChar c = true) → StartsOutside isNameChar rest →
      rest.head? ≠ some '(' → IsUnsignedOperand rest (c :: xs)
  | call {c : Char} {name inner : List Char} :
      isNameStart c = true → (∀ c ∈ name, isNameChar c = true) → Balanced '(' ')' inner →
      IsUnsignedOperand rest (c :: name ++ enclosed inner)
  | group {inner : List Char} : Balanced '(' ')' inner → IsUnsignedOperand rest (enclosed inner)

/-- The shapes of a right operand before the text `rest`. -/
inductive IsRightOperand (rest : List Char) : List Char → Prop where
  | unsigned {xs : List Char} : IsUnsignedOperand rest xs → IsRightOperand rest xs
  | signed {sign : Char} {xs : List Char} :
      sign = '-' ∨ sign = '+' → IsUnsignedOperand rest xs → IsRightOperand rest (sign :: xs)

/-! ### The left operand -/

section Left

variable {before xs ys start : List Char}

/-- The run of name characters right before a place is a callee if a letter starts it, and else there is none. -/
theorem splitCallee_eq_iff :
    splitCallee before = (xs, start) ↔ before = xs ++ start ∧
      ((∃ c name, xs = name ++ [c] ∧ isAlphabetic c = true ∧ (∀ d ∈ name, isNameChar d = true) ∧
        StartsOutside isNameChar start) ∨ (xs = [] ∧ EndsOutsideName start)) := by
  -- a callee is the whole run
  have hcallee : ∀ {c name}, isAlphabetic c = true → (∀ d ∈ name, isNameChar d = true) →
      StartsOutside isNameChar start → before = (name ++ [c]) ++ start →
      splitRun isNameChar before = (name ++ [c], start) := by
    intro c name hc hname hstart heq
    refine splitRun_eq_iff.mpr ⟨heq, fun d hd => ?_, hstart⟩
    rcases List.mem_append.mp hd with hd | hd
    · exact hname d hd
    · exact List.mem_singleton.mp hd ▸ isNameChar_of_isNameStart (isNameStart_of_isAlphabetic hc)
  unfold splitCallee
  split
  next run rest hrun =>
  have htake : before.takeWhile isNameChar = run := congrArg Prod.fst hrun
  split
  · next hlast =>
    obtain ⟨c, hc, halpha⟩ := (Option.any_eq_true _ _).mp hlast
    obtain ⟨name, rfl⟩ := List.getLast?_eq_some_iff.mp hc
    constructor
    · rintro ⟨⟩
      obtain ⟨heq, hall, hstart⟩ := splitRun_eq_iff.mp hrun
      exact ⟨heq, .inl ⟨c, name, rfl, halpha, fun d hd => hall d (List.mem_append_left _ hd), hstart⟩⟩
    · rintro ⟨heq, ⟨d, name', rfl, hd, hname, hstart⟩ | ⟨rfl, hends⟩⟩
      · exact hrun.symm.trans (hcallee hd hname hstart heq)
      · rw [EndsOutsideName, ← List.nil_append start, ← heq, htake, hlast] at hends
        cases hends
  · next hlast =>
    constructor
    · rintro ⟨⟩
      refine ⟨rfl, .inr ⟨rfl, ?_⟩⟩
      rw [EndsOutsideName, htake]
      simpa using hlast
    · rintro ⟨heq, ⟨d, name', rfl, hd, hname, hstart⟩ | ⟨rfl, -⟩⟩
      · cases hrun.symm.trans (hcallee hd hname hstart heq)
        simp [hd] at hlast
      · rw [heq, List.nil_append]

theorem isLeftOperand_of_leftOperand (h : leftOperand before = .ok (xs, start)) :
    before = xs ++ start ∧ IsLeftOperand start xs.reverse := by
  cases before with
  | nil => cases h
  | cons c cs =>
    simp only [leftOperand] at h
    split at h
    · next hc =>
      obtain ⟨heq, hall, hstart⟩ := splitRun_eq_iff.mp (Except.ok.inj h)
      refine ⟨heq, .literal ?_ (fun d hd => hall d (List.mem_reverse.mp hd)) hstart⟩
      rintro hxs
      rw [List.reverse_eq_nil_iff.mp hxs, List.nil_append] at heq
      rw [← heq, startsOutside_cons, hc] at hstart
      cases hstart
    · split at h
      · next hc =>
        obtain ⟨heq, hall, hstart⟩ := splitRun_eq_iff.mp (Except.ok.inj h)
        cases xs with
        | nil =>
          rw [List.nil_append] at heq
          rw [← heq, startsOutside_cons, isNameChar_of_isNameStart hc] at hstart
          cases hstart
        | cons d xs =>
          obtain ⟨rfl, -⟩ := List.cons.inj heq
          refine ⟨heq, List.reverse_cons ▸ .name (fun d hd => hall d ?_) hc hstart⟩
          exact List.mem_cons_of_mem _ (List.mem_reverse.mp hd)
      · split at h
        · next hc =>
          subst hc
          split at h
          · cases h
          · next group rest hgroup =>
            obtain ⟨inner, hinner, rfl, rfl⟩ := (splitGroup?_eq_some_iff (by decide)).mp hgroup
            obtain ⟨name, start', hname⟩ : ∃ name start', splitCallee rest = (name, start') := ⟨_, _, rfl⟩
            rw [hname] at h
            cases h
            obtain ⟨rfl, hcallee⟩ := splitCallee_eq_iff.mp hname
            refine ⟨by simp, ?_⟩
            rcases hcallee with ⟨c, name, rfl, hc, hall, hstart⟩ | ⟨rfl, hends⟩
            · have := IsLeftOperand.call hc (fun d hd => hall d (List.mem_reverse.mp hd)) hinner.reverse hstart
              simpa [enclosed] using this
            · have := IsLeftOperand.group hinner.reverse hends
              simpa [enclosed] using this
        · cases h

theorem leftOperand_enclosed {inner : List Char} (h : Balanced '(' ')' inner) (before : List Char) :
    leftOperand ((enclosed inner).reverse ++ before) =
      .ok ((enclosed inner).reverse ++ (splitCallee before).1, (splitCallee before).2) := by
  have hgroup : splitGroup? ')' '(' 0 (')' :: (inner.reverse ++ '(' :: before)) =
      some (')' :: inner.reverse ++ ['('], before) :=
    (splitGroup?_eq_some_iff (by decide)).mpr ⟨inner.reverse, h.reverse, rfl, rfl⟩
  have hrev : (enclosed inner).reverse = ')' :: inner.reverse ++ ['('] := by simp [enclosed]
  have : (enclosed inner).reverse ++ before = ')' :: (inner.reverse ++ '(' :: before) := by simp [hrev]
  have hnumber : isNumberChar ')' = false := by decide
  have hname : isNameStart ')' = false := by decide
  rw [this]
  simp only [leftOperand, hnumber, hname, hgroup, hrev, if_true, Bool.false_eq_true, if_false]

theorem IsLeftOperand.found (h : IsLeftOperand start xs) : leftOperand (xs.reverse ++ start) = .ok (xs.reverse, start) := by
  cases h with
  | literal hne hall hstart =>
    obtain ⟨c, cs, hcs⟩ := List.exists_cons_of_ne_nil (mt List.reverse_eq_nil_iff.mp hne)
    have hc : isNumberChar c = true := hall c (List.mem_reverse.mp (hcs ▸ List.mem_cons_self))
    rw [hcs, List.cons_append]
    simp only [leftOperand, hc, if_true]
    exact congrArg _ (splitRun_eq_iff.mpr ⟨rfl, fun d hd => hall d (List.mem_reverse.mp (hcs ▸ hd)), hstart⟩)
  | @name ys c hall hc hstart =>
    rw [List.reverse_append, List.reverse_singleton, List.singleton_append, List.cons_append]
    simp only [leftOperand, isNumberChar_of_isNameStart hc, hc, if_true, Bool.false_eq_true, if_false]
    refine congrArg _ (splitRun_eq_iff.mpr ⟨rfl, fun d hd => ?_, hstart⟩)
    rcases List.mem_cons.mp hd with rfl | hd
    · exact isNameChar_of_isNameStart hc
    · exact hall d (List.mem_reverse.mp hd)
  | @call c name inner hc hname hinner hstart =>
    have hcallee : splitCallee (name.reverse ++ [c] ++ start) = (name.reverse ++ [c], start) :=
      splitCallee_eq_iff.mpr ⟨rfl, .inl ⟨c, _, rfl, hc, fun d hd => hname d (List.mem_reverse.mp hd), hstart⟩⟩
    have := leftOperand_enclosed hinner (name.reverse ++ [c] ++ start)
    rw [hcallee] at this
    simpa using this
  | @group inner hinner hends =>
    have hcallee : splitCallee start = ([], start) := splitCallee_eq_iff.mpr ⟨rfl, .inr ⟨rfl, hends⟩⟩
    have := leftOperand_enclosed hinner start
    rw [hcallee] at this
    simpa using this

/-- **Left operands.** The scan to the left finds the text before the sign that has the shape of an operand. -/
theorem leftOperand_eq_ok_iff :
    leftOperand before = .ok (xs, start) ↔ before = xs ++ start ∧ IsLeftOperand start xs.reverse := by
  constructor
  · exact isLeftOperand_of_leftOperand
  · rintro ⟨rfl, h⟩
    simpa using h.found

end Left

/-! ### The right operand -/

section Right

variable {after xs rest : List Char}

theorem leadingGroup_eq_ok_iff {cs : List Char} :
    leadingGroup ('(' :: cs) = .ok (xs, rest) ↔
      '(' :: cs = xs ++ rest ∧ ∃ inner, Balanced '(' ')' inner ∧ xs = enclosed inner := by
  have hsplit : splitGroup? '(' ')' 0 ('(' :: cs) = some (xs, rest) ↔ _ := splitGroup?_eq_some_iff (by decide)
  unfold leadingGroup
  constructor
  · intro h
    split at h
    · cases h
    · next parts hparts =>
      cases h
      obtain ⟨inner, hinner, rfl, rfl⟩ := hsplit.mp hparts
      exact ⟨by simp, inner, hinner, rfl⟩
  · rintro ⟨heq, inner, hinner, rfl⟩
    rw [hsplit.mpr ⟨inner, hinner, rfl, by simpa [enclosed] using heq⟩]

theorem isUnsignedOperand_of_unsignedOperand (h : unsignedOperand after = .ok (xs, rest)) :
    after = xs ++ rest ∧ IsUnsignedOperand rest xs := by
  cases after with
  | nil => cases h
  | cons c cs =>
    simp only [unsignedOperand] at h
    split at h
    · next hc =>
      obtain ⟨heq, hall, hrest⟩ := splitRun_eq_iff.mp (Except.ok.inj h)
      refine ⟨heq, .literal ?_ hall hrest⟩
      rintro rfl
      rw [← List.nil_append rest, ← heq, startsOutside_cons, hc] at hrest
      cases hrest
    · split at h
      · next hc =>
        obtain ⟨name, rest', hrun⟩ : ∃ name rest', splitRun isNameChar (c :: cs) = (name, rest') := ⟨_, _, rfl⟩
        rw [hrun] at h
        obtain ⟨heq, hall, hrest⟩ := splitRun_eq_iff.mp hrun
        obtain ⟨name, rfl⟩ : ∃ name', name = c :: name' := by
          cases name with
          | nil =>
            rw [← List.nil_append rest', ← heq, startsOutside_cons, isNameChar_of_isNameStart hc] at hrest
            cases hrest
          | cons d name => exact ⟨name, (List.cons.inj heq).1 ▸ rfl⟩
        have hname := fun d hd => hall d (List.mem_cons_of_mem _ hd)
        simp only at h
        split at h
        · next hopen =>
          obtain ⟨cs', rfl⟩ := List.head?_eq_some_iff.mp hopen
          obtain ⟨⟨group, rest''⟩, hgroup, hparts⟩ := map_eq_ok_iff.mp h
          cases hparts
          obtain ⟨heq', inner, hinner, rfl⟩ := leadingGroup_eq_ok_iff.mp hgroup
          exact ⟨by rw [heq, heq', List.append_assoc], .call hc hname hinner⟩
        · next hopen =>
          cases h
          exact ⟨heq, .name hc hname hrest hopen⟩
      · split at h
        · next hc =>
          obtain ⟨heq, inner, hinner, rfl⟩ := leadingGroup_eq_ok_iff.mp (hc ▸ h)
          exact ⟨hc ▸ heq, .group hinner⟩
        · cases h

theorem IsUnsignedOperand.found (h : IsUnsignedOperand rest xs) : unsignedOperand (xs ++ rest) = .ok (xs, rest) := by
  have hopen {inner : List Char} (h : Balanced '(' ')' inner) :
      leadingGroup (enclosed inner ++ rest) = .ok (enclosed inner, rest) :=
    leadingGroup_eq_ok_iff.mpr ⟨rfl, inner, h, rfl⟩
  cases h with
  | literal hne hall hrest =>
    obtain ⟨c, cs, rfl⟩ := List.exists_cons_of_ne_nil hne
    have hc : isNumberChar c = true := hall c List.mem_cons_self
    simp only [unsignedOperand, List.cons_append, hc, if_true]
    exact congrArg _ (splitRun_eq_iff.mpr ⟨rfl, hall, hrest⟩)
  | @name c name hc hname hrest hne =>
    have hrun : splitRun isNameChar (c :: (name ++ rest)) = (c :: name, rest) :=
      splitRun_eq_iff.mpr ⟨rfl, List.forall_mem_cons.mpr ⟨isNameChar_of_isNameStart hc, hname⟩, hrest⟩
    simp only [unsignedOperand, List.cons_append, isNumberChar_of_isNameStart hc, hc, hrun, if_true, Bool.false_eq_true,
      if_false, if_neg hne]
  | @call c name inner hc hname hinner =>
    have hrun : splitRun isNameChar (c :: (name ++ enclosed inner ++ rest)) = (c :: name, enclosed inner ++ rest) :=
      splitRun_eq_iff.mpr ⟨by simp, List.forall_mem_cons.mpr ⟨isNameChar_of_isNameStart hc, hname⟩,
        startsOutside_cons.mpr (by decide)⟩
    have hhead : (enclosed inner ++ rest).head? = some '(' := rfl
    simp only [unsignedOperand, List.cons_append, isNumberChar_of_isNameStart hc, hc, hrun, if_true, Bool.false_eq_true,
      if_false, hhead, hopen hinner]
    rfl
  | @group inner hinner =>
    have hnumber : isNumberChar '(' = false := by decide
    have hname : isNameStart '(' = false := by decide
    rw [← hopen hinner]
    simp only [unsignedOperand, enclosed, List.cons_append, hnumber, hname, if_true, Bool.false_eq_true, if_false]

theorem unsignedOperand_eq_ok_iff :
    unsignedOperand after = .ok (xs, rest) ↔ after = xs ++ rest ∧ IsUnsignedOperand rest xs := by
  constructor
  · exact isUnsignedOperand_of_unsignedOperand
  · rintro ⟨rfl, h⟩
    exact h.found

/-- An operand does not start with a sign of its own. -/
theorem IsUnsignedOperand.head (h : IsUnsignedOperand rest xs) :
    ∃ c cs, xs = c :: cs ∧ (isNumberChar c = true ∨ isNameStart c = true ∨ c = '(') := by
  cases h with
  | literal hne hall _ =>
    obtain ⟨c, cs, rfl⟩ := List.exists_cons_of_ne_nil hne
    exact ⟨c, cs, rfl, .inl (hall c List.mem_cons_self)⟩
  | name hc _ _ _ => exact ⟨_, _, rfl, .inr (.inl hc)⟩
  | call hc _ _ => exact ⟨_, _, rfl, .inr (.inl hc)⟩
  | group _ => exact ⟨_, _, rfl, .inr (.inr rfl)⟩

/-- **Right operands.** The scan to the right finds the text after the sign that has the shape of an operand. -/
theorem rightOperand_eq_ok_iff :
    rightOperand after = .ok (xs, rest) ↔ after = xs ++ rest ∧ IsRightOperand rest xs := by
  constructor
  · intro h
    cases after with
    | nil => cases h
    | cons c cs =>
      simp only [rightOperand] at h
      split at h
      · next hc =>
        obtain ⟨⟨operand, rest'⟩, hoperand, hparts⟩ := map_eq_ok_iff.mp h
        cases hparts
        obtain ⟨rfl, hshape⟩ := unsignedOperand_eq_ok_iff.mp hoperand
        exact ⟨rfl, .signed (by simpa using hc) hshape⟩
      · obtain ⟨heq, hshape⟩ := unsignedOperand_eq_ok_iff.mp h
        exact ⟨heq, .unsigned hshape⟩
  · rintro ⟨rfl, h⟩
    cases h with
    | unsigned h =>
      obtain ⟨c, cs, rfl, hc⟩ := h.head
      have hsign : (c = '-' || c = '+') = false := by
        rw [Bool.eq_false_iff]
        intro hsign
        rcases (by simpa using hsign : c = '-' ∨ c = '+') with rfl | rfl <;> exact absurd hc (by decide)
      have := h.found
      simpa only [rightOperand, List.cons_append, hsign, Bool.false_eq_true, if_false] using this
    | @signed sign ys hsign h =>
      have : (sign = '-' || sign = '+') = true := by simpa using hsign
      simp only [rightOperand, List.cons_append, this, if_true, h.found]
      rfl

end Right

/-! ### One power -/

/-- The text with a call for one power: what stands before the operands, the operands, and what follows them. -/
theorem replacePower_eq_ok_iff {before after cs : List Char} :
    replacePower before after = .ok cs ↔ ∃ start left right rest,
      before = left.reverse ++ start ∧ IsLeftOperand start left ∧ after = right ++ rest ∧ IsRightOperand rest right ∧
      cs = start.reverse ++ ('p' :: 'o' :: 'w' :: '(' :: (left ++ ',' :: (right ++ ')' :: rest))) := by
  unfold replacePower
  constructor
  · intro h
    obtain ⟨⟨left, start⟩, hleft, hrest⟩ := bind_eq_ok_iff.mp h
    obtain ⟨⟨right, rest⟩, hright, hcs⟩ := bind_eq_ok_iff.mp hrest
    obtain ⟨rfl, hl⟩ := leftOperand_eq_ok_iff.mp hleft
    obtain ⟨rfl, hr⟩ := rightOperand_eq_ok_iff.mp hright
    obtain rfl := Except.ok.inj hcs
    exact ⟨start, left.reverse, right, rest, by simp, hl, rfl, hr, by simp⟩
  · rintro ⟨start, left, right, rest, rfl, hl, rfl, hr, rfl⟩
    rw [hl.found, rightOperand_eq_ok_iff.mpr ⟨rfl, hr⟩]
    simp

/-! ### Passes -/

section Passes

variable {passes : Nat} {before after cs replaced : List Char}

/-- A power sign of a text is preceded by a first one. -/
theorem exists_first_caret (h : '^' ∈ cs) : ∃ before after : List Char, '^' ∉ before ∧ cs = before.reverse ++ '^' :: after := by
  obtain ⟨xs, after, rfl, hxs⟩ := List.eq_append_cons_of_mem h
  exact ⟨xs.reverse, after, by simpa using hxs, by simp⟩

theorem splitRun_caret (h : '^' ∉ before) :
    splitRun (· != '^') (before.reverse ++ '^' :: after) = (before.reverse, '^' :: after) := by
  refine splitRun_eq_iff.mpr ⟨rfl, fun c hc => ?_, startsOutside_cons.mpr (by decide)⟩
  rw [bne_iff_ne]
  rintro rfl
  exact h (List.mem_reverse.mp hc)

theorem dropWhile_of_not_mem (h : '^' ∉ cs) : cs.dropWhile (· != '^') = [] := by
  refine List.dropWhile_eq_nil_iff.mpr fun c hc => ?_
  rw [bne_iff_ne]
  rintro rfl
  exact h hc

/-- A text without power signs is left as it is. -/
theorem replacePasses_of_not_mem (h : '^' ∉ cs) : replacePasses (passes + 1) cs = .ok cs := by
  rw [replacePasses, dropWhile_of_not_mem h]

/-- A pass replaces the first power. -/
theorem replacePasses_caret (h : '^' ∉ before) :
    replacePasses (passes + 1) (before.reverse ++ '^' :: after) = replacePower before after >>= replacePasses passes := by
  have htake := congrArg Prod.fst (splitRun_caret h : splitRun _ (before.reverse ++ '^' :: after) = _)
  have hdrop := congrArg Prod.snd (splitRun_caret h : splitRun _ (before.reverse ++ '^' :: after) = _)
  simp only [splitRun] at htake hdrop
  rw [replacePasses, hdrop, htake, List.reverse_reverse]

/-- What holds of a text, and goes on to hold as its first power is replaced, holds when no power is left. -/
theorem replacePasses_induction {motive : List Char → Prop}
    (step : ∀ {before after replaced : List Char}, '^' ∉ before → replacePower before after = .ok replaced →
      motive (before.reverse ++ '^' :: after) → motive replaced)
    (h : replacePasses passes cs = .ok replaced) (hcs : motive cs) : motive replaced ∧ '^' ∉ replaced := by
  induction passes generalizing cs with
  | zero => cases h
  | succ passes ih =>
    by_cases hcaret : '^' ∈ cs
    · obtain ⟨before, after, hbefore, rfl⟩ := exists_first_caret hcaret
      rw [replacePasses_caret hbefore] at h
      obtain ⟨next, hpower, hnext⟩ := bind_eq_ok_iff.mp h
      exact ih hnext (step hbefore hpower hcs)
    · rw [replacePasses_of_not_mem hcaret] at h
      cases h
      exact ⟨hcs, hcaret⟩

end Passes

end Numerics.Formula
