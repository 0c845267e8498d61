import Numerics.Proofs.Text.Spacing
import Numerics.Text.Letter

/-!
# Lower case and what stands around a letter

The small form of a letter is a letter, and nothing else changes (`lowerChar_eq_or_isAlphabetic`).  It depends on what stands
around the letter only as far as the next characters that case neither ignores nor has: a text in which such a character
stands falls apart there (`lowerCase_append_neutral`).  All blanks are such characters, so that blanks may as well be
collapsed after the letters are lowered (`lowerCase_collapseBlanks`).
-/

namespace Numerics.Text

/-! ### Letters -/

/-- The code points from `first` on, as many as in the range, are those of letters, or the ones that the range steps on. -/
def CaseRange.isAlphabetic (r : CaseRange) (first : Nat) : Bool :=
  alphabeticRanges.any (fun a => a.1.ble first && (first + (r.last - r.first)).ble a.2) ||
    (List.range (r.last - r.first + 1)).all fun i => !(i % r.step).beq 0 || Text.isAlphabetic (Char.ofNat (first + i))

theorem capitals_isAlphabetic :
    capitals.all (fun r => r.isAlphabetic r.first && r.isAlphabetic r.image) = true := by decide +kernel

theorem alphabeticRanges_not_ascii : ∀ a ∈ alphabeticRanges, 128 ≤ a.1 := by decide +kernel

section Letters

variable {r : CaseRange} {c : Char} {n first i : Nat}

theorem isAlphabetic_of_isAlphabetic (hr : r.isAlphabetic first = true) (hi : i ≤ r.last - r.first) (hstep : i % r.step = 0)
    (hn : (Char.ofNat (first + i)).toNat = first + i) : isAlphabetic (Char.ofNat (first + i)) = true := by
  rw [CaseRange.isAlphabetic, Bool.or_eq_true, List.any_eq_true, List.all_eq_true] at hr
  rcases hr with ⟨a, ha, hspan⟩ | hall
  · simp only [Bool.and_eq_true, Nat.ble_eq] at hspan
    have hascii := alphabeticRanges_not_ascii a ha
    simp only [isAlphabetic, covers, hn, Bool.or_eq_true, Bool.and_eq_true, decide_eq_true_eq, List.any_eq_true]
    exact .inr ⟨by omega, a, ha, by omega, by omega⟩
  · simpa [hstep] using hall i (List.mem_range.mpr (by omega))

/-- A letter has a letter for its small form, and any other character itself. -/
theorem lowerChar_eq_or_isAlphabetic :
    lowerChar c = c ∨ isAlphabetic c = true ∧ isAlphabetic (lowerChar c) = true := by
  by_cases hascii : c.toNat < 128
  · have hall : ∀ n < 128, lowerChar (Char.ofNat n) = Char.ofNat n ∨
        isAlphabetic (Char.ofNat n) = true ∧ isAlphabetic (lowerChar (Char.ofNat n)) = true := by decide +kernel
    have := hall c.toNat hascii
    rwa [Char.ofNat_toNat] at this
  · cases himage : capitals.findSome? (·.lower? c.toNat) with
    | none => exact .inl (by rw [lowerChar, if_neg hascii, himage])
    | some m =>
      obtain ⟨r, hr, h⟩ := List.exists_of_findSome?_eq_some himage
      have hlower : lowerChar c = Char.ofNat m := by rw [lowerChar, if_neg hascii, himage]
      have halphabetic := List.all_eq_true.mp capitals_isAlphabetic r hr
      rw [Bool.and_eq_true] at halphabetic
      have hm := toNat_ofNat_image hr h
      obtain ⟨hfirst, hlast, hstep, rfl⟩ := CaseRange.lower?_eq_some_iff.mp h
      refine .inr ⟨?_, ?_⟩
      · have hc : r.first + (c.toNat - r.first) = c.toNat := by omega
        have := @isAlphabetic_of_isAlphabetic r r.first (c.toNat - r.first) halphabetic.1 (by omega) hstep
        rw [hc, Char.ofNat_toNat] at this
        exact this rfl
      · rw [hlower]
        exact isAlphabetic_of_isAlphabetic halphabetic.2 (by omega) hstep hm

end Letters

/-! ### Contexts -/

/-- A character that case neither ignores nor has. -/
def isNeutral (c : Char) : Bool := !covers caseIgnorableRanges c && !covers casedRanges c

section Contexts

variable {x c : Char} {before rest us vs : List Char}

/-- Whether case is met is decided before a neutral character. -/
theorem meetsCased_append (hx : isNeutral x = true) : meetsCased (us ++ x :: vs) = meetsCased us := by
  simp only [isNeutral, Bool.and_eq_true, Bool.not_eq_true'] at hx
  induction us with
  | nil => simp [meetsCased, hx.1, hx.2]
  | cons u us ih =>
    unfold meetsCased at ih ⊢
    rw [List.cons_append, List.dropWhile_cons, List.dropWhile_cons]
    cases covers caseIgnorableRanges u with
    | true => exact ih
    | false => rfl

theorem lowerAt_congr {before before' after after' : List Char} (hbefore : meetsCased before = meetsCased before')
    (hafter : meetsCased after = meetsCased after') : lowerAt before c after = lowerAt before' c after' := by
  unfold lowerAt
  rw [hbefore, hafter]

theorem lowerAt_of_isSmall {after : List Char} (h : IsSmall c) : lowerAt before c after = [c] := by
  rw [lowerAt, if_neg h.1, if_neg h.2.1, h.2.2]

/-- What stands before a neutral character does not matter after it. -/
theorem lowerAfter_neutral (hx : isNeutral x = true) : lowerAfter (us ++ x :: before) vs = lowerAfter us vs := by
  induction vs generalizing us with
  | nil => rfl
  | cons c vs ih =>
    rw [lowerAfter, lowerAfter, lowerAt_congr (meetsCased_append hx) rfl, ← List.cons_append, ih]

theorem lowerAfter_append_neutral (hx : isNeutral x = true) :
    lowerAfter before (us ++ x :: vs) = lowerAfter before us ++ lowerAfter (us.reverse ++ before) (x :: vs) := by
  induction us generalizing before with
  | nil => rfl
  | cons u us ih =>
    rw [List.cons_append, lowerAfter, lowerAfter, lowerAt_congr rfl (meetsCased_append hx), ih, List.append_assoc,
      List.reverse_cons, List.append_assoc]
    rfl

/-- **Neutral characters.** A text falls apart where one stands that is its own small form. -/
theorem lowerCase_append_neutral (hx : isNeutral x = true) (hsmall : IsSmall x) :
    lowerCase (us ++ x :: vs) = lowerCase us ++ x :: lowerCase vs := by
  have hright : lowerAfter (x :: (us.reverse ++ [])) vs = lowerCase vs := @lowerAfter_neutral x _ [] vs hx
  rw [lowerCase, lowerAfter_append_neutral hx, lowerAfter, lowerAt_of_isSmall hsmall, hright]
  rfl

end Contexts

/-! ### Blanks -/

section Blanks

variable {c : Char} {before before' cs : List Char}

theorem blanks_neutral : ∀ b ∈ blankRanges, ∀ n ∈ List.range' b.1 (b.2 + 1 - b.1),
    isNeutral (Char.ofNat n) = true ∧ IsSmall (Char.ofNat n) := by decide +kernel

theorem neutral_of_isBlank (h : isBlank c = true) : isNeutral c = true ∧ IsSmall c := by
  obtain ⟨b, hb, hc⟩ := List.any_eq_true.mp h
  have hrange : b.1 ≤ c.toNat ∧ c.toNat ≤ b.2 := by simpa using hc
  have := blanks_neutral b hb c.toNat (List.mem_range'_1.mpr ⟨hrange.1, by omega⟩)
  rwa [Char.ofNat_toNat] at this

theorem squeeze_true_cases (cs : List Char) : squeeze true cs = [] ∨ ∃ ys, squeeze true cs = ' ' :: ys := by
  induction cs with
  | nil => exact .inl rfl
  | cons c cs ih =>
    rw [squeeze]
    split
    · exact ih
    · exact .inr ⟨_, rfl⟩

/-- Which case is met does not depend on how many blanks stand together. -/
theorem meetsCased_squeeze : meetsCased (squeeze false cs) = meetsCased cs := by
  induction cs with
  | nil => rfl
  | cons c cs ih =>
    rw [squeeze]
    split
    · next hc =>
      have hblank : meetsCased (c :: cs) = false := @meetsCased_append c [] cs (neutral_of_isBlank hc).1
      rw [hblank]
      rcases squeeze_true_cases cs with h | ⟨ys, h⟩
      · rw [h]
        rfl
      · rw [h]
        exact @meetsCased_append ' ' [] ys (neutral_of_isBlank isBlank_space).1
    · unfold meetsCased at ih ⊢
      rw [if_neg Bool.false_ne_true, List.dropWhile_cons, List.dropWhile_cons]
      cases covers caseIgnorableRanges c with
      | true => exact ih
      | false => rfl

theorem isBlank_of_mem_lowerAt {d : Char} {after : List Char} (hc : isBlank c = false) (hd : d ∈ lowerAt before c after) :
    isBlank d = false := by
  rw [Bool.eq_false_iff]
  intro hblank
  rw [eq_of_isBlank_of_mem_lowerAt hd hblank, hc] at hblank
  cases hblank

/-- The blanks before the text are still to be written if `gap` says so. -/
theorem lowerAfter_squeeze {gap : Bool}
    (h : ∀ ws, meetsCased (ws ++ before') = meetsCased (ws ++ if gap then ' ' :: before else before)) :
    lowerAfter before (squeeze gap cs) = squeeze gap (lowerAfter before' cs) := by
  induction cs generalizing gap before before' with
  | nil => rfl
  | cons c cs ih =>
    cases hc : isBlank c with
    | true =>
      obtain ⟨hneutral, hsmall⟩ := neutral_of_isBlank hc
      rw [lowerAfter, lowerAt_of_isSmall hsmall, squeeze, if_pos hc, List.singleton_append, squeeze, if_pos hc]
      refine ih fun ws => ?_
      rw [if_pos rfl, meetsCased_append hneutral, meetsCased_append (neutral_of_isBlank isBlank_space).1]
    | false =>
      obtain ⟨d, ds, hlower⟩ := List.exists_cons_of_ne_nil (@lowerAt_ne_nil c before' cs)
      have hsolid : ∀ e ∈ d :: ds, isBlank e = false := fun e he => isBlank_of_mem_lowerAt hc (hlower ▸ he)
      have hds := fun e he => hsolid e (List.mem_cons_of_mem _ he)
      have hcontext : ∀ ws, meetsCased (ws ++ c :: before') =
          meetsCased (ws ++ c :: if gap then ' ' :: before else before) := by
        intro ws
        simpa using h (ws ++ [c])
      have hrest := @ih (c :: if gap then ' ' :: before else before) (c :: before') false hcontext
      have hsame : lowerAt (if gap then ' ' :: before else before) c (squeeze false cs) = d :: ds := by
        rw [← hlower]
        exact lowerAt_congr (h []).symm meetsCased_squeeze
      have hgap : squeeze gap (lowerAfter before' (c :: cs)) =
          (if gap then [' '] else []) ++ d :: ds ++ squeeze false (lowerAfter (c :: before') cs) := by
        rw [lowerAfter, hlower, List.cons_append, squeeze, if_neg (by simp [hsolid d List.mem_cons_self]),
          squeeze_append hds]
        cases gap <;> rfl
      rw [hgap, ← hrest, squeeze, if_neg (by simp [hc])]
      cases gap with
      | true =>
        rw [if_pos rfl] at hsame ⊢
        rw [lowerAfter, lowerAfter, lowerAt_of_isSmall (neutral_of_isBlank isBlank_space).2, hsame]
        simp
      | false =>
        rw [if_neg Bool.false_ne_true] at hsame ⊢
        rw [lowerAfter, hsame]
        simp

/-- **Blanks and letters.** Blanks may as well be collapsed after the letters are lowered. -/
theorem lowerCase_collapseBlanks (cs : List Char) : lowerCase (collapseBlanks cs) = collapseBlanks (lowerCase cs) := by
  have hblanks : ∀ before, (∀ ws, meetsCased (ws ++ before) = meetsCased ws) →
      lowerAfter [] (squeeze false (cs.dropWhile isBlank)) =
        squeeze false ((lowerAfter before cs).dropWhile isBlank) := by
    induction cs with
    | nil => exact fun _ _ => rfl
    | cons c cs ih =>
      intro before hbefore
      cases hc : isBlank c with
      | true =>
        obtain ⟨hneutral, hsmall⟩ := neutral_of_isBlank hc
        rw [lowerAfter, lowerAt_of_isSmall hsmall, List.dropWhile_cons, if_pos hc, List.singleton_append, List.dropWhile_cons, if_pos hc]
        exact ih _ fun ws => meetsCased_append hneutral
      | false =>
        obtain ⟨d, ds, hlower⟩ := List.exists_cons_of_ne_nil (@lowerAt_ne_nil c before cs)
        have hd := isBlank_of_mem_lowerAt hc (hlower ▸ List.mem_cons_self)
        have hdrop : (lowerAfter before (c :: cs)).dropWhile isBlank = lowerAfter before (c :: cs) := by
          rw [lowerAfter, hlower, List.cons_append, List.dropWhile_cons, if_neg (by simp [hd])]
        rw [hdrop, List.dropWhile_cons, if_neg (by simp [hc])]
        refine lowerAfter_squeeze fun ws => ?_
        rw [hbefore ws, if_neg Bool.false_ne_true, List.append_nil]
  exact hblanks [] fun ws => by rw [List.append_nil]

end Blanks

end Numerics.Text
