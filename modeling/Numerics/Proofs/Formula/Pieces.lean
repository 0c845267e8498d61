import Numerics.Proofs.Formula.Phrase
import Numerics.Proofs.Formula.PlainText
import Numerics.Proofs.Formula.PowerCall

/-!
# The stages on pieces

A text made of pieces in which operands and operators alternate goes through the stages before the replacement of powers
piece by piece: spaces are squeezed, letters lowered, decimal commas pointed, `**` made `^`, and the spaces around power
signs taken (`tightenCarets_plainText_textOf`).
-/

namespace Numerics.Formula

open Text

namespace Piece

/-- The piece is made of the characters it should be made of. -/
def Fits : Piece → Prop
  | literal _ _ => True
  | word cs => IsWord cs
  | callee cs => IsWord cs
  | mark c => c ∈ ['(', ')', '+', '-']
  | between _ c _ => c ∈ ['+', '-', '*', '/', ',']
  | caret _ _ _ => True

/-- No spaces belong to the piece. -/
def isTight : Piece → Bool
  | between _ _ _ => false
  | caret _ _ _ => false
  | _ => true

/-- The piece is read as its tokens: no decimal comma, no power sign. -/
def isRead : Piece → Bool
  | literal _ comma => !comma
  | caret _ _ _ => false
  | _ => true

/-- An operand starts with the piece. -/
def startsOperand : Piece → Bool
  | literal _ _ => true
  | word _ => true
  | callee _ => true
  | mark c => c != ')'
  | between _ _ _ => false
  | caret _ _ _ => false

/-- An operand ends with the piece. -/
def endsOperand : Piece → Bool
  | literal _ _ => true
  | word _ => true
  | callee _ => false
  | mark c => c == ')'
  | between _ _ _ => false
  | caret _ _ _ => false

end Piece

/-- Operators stand between operands; `operand` says that an operand has to come first. -/
def Alternates : Bool → List Piece → Prop
  | operand, [] => operand = false
  | operand, p :: ps => p.startsOperand = operand ∧ Alternates (!p.endsOperand) ps

/-! ### Solid characters -/

/-- The characters of pieces that no stage but lower case changes. -/
def IsSolid (c : Char) : Prop := isBlank c = false ∧ c ≠ '*' ∧ c ≠ '^' ∧ c.toNat < 128

section Solid

variable {c : Char} {cs : List Char} {p : Piece}

theorem toNat_of_isWordChar (h : isWordChar c = true) :
    48 ≤ c.toNat ∧ c.toNat ≤ 57 ∨ 65 ≤ c.toNat ∧ c.toNat ≤ 90 ∨ 97 ≤ c.toNat ∧ c.toNat ≤ 122 ∨ c.toNat = 95 := by
  simp only [isWordChar, Char.isAlphanum, Char.isAlpha, Char.isUpper, Char.isLower, Char.isDigit, Bool.or_eq_true,
    Bool.and_eq_true, decide_eq_true_eq, UInt32.le_iff_toNat_le, ge_iff_le, beq_iff_eq] at h
  have : c.val.toNat = c.toNat := rfl
  rcases h with ((h | h) | h) | rfl
  · simp at h
    omega
  · simp at h
    omega
  · simp at h
    omega
  · decide

theorem isSolid_of_isWordChar (h : isWordChar c = true) : IsSolid c := by
  have hrange := toNat_of_isWordChar h
  refine ⟨?_, ?_, ?_, by omega⟩
  · simp only [isBlank, covers, blankRanges, List.any_cons, List.any_nil, Bool.or_false, Bool.or_eq_false_iff,
      Bool.and_eq_false_iff, decide_eq_false_iff_not]
    omega
  · rintro rfl
    exact absurd hrange (by decide)
  · rintro rfl
    exact absurd hrange (by decide)

theorem isWordChar_of_isAlpha (h : c.isAlpha = true) : isWordChar c = true := by
  simp [isWordChar, Char.isAlphanum, h]

theorem isWordChar_of_isDigit (h : c.isDigit = true) : isWordChar c = true := by
  simp [isWordChar, Char.isAlphanum, h]

theorem IsWord.isWordChar (h : IsWord cs) : ∀ c ∈ cs, isWordChar c = true := by
  obtain ⟨c, ds, rfl, hc, hds⟩ := h
  exact List.forall_mem_cons.mpr ⟨isWordChar_of_isAlpha hc, hds⟩

theorem Literal.mem_text {l : Literal} {comma : Bool} (h : c ∈ l.text comma) :
    c.isDigit = true ∨ c = if comma then ',' else '.' := by
  have hdigit := l.isDigit c
  unfold Literal.text at h
  split at h
  · exact .inl (hdigit (List.mem_append_left _ h))
  · rcases List.mem_append.mp h with h | h
    · exact .inl (hdigit (List.mem_append_left _ h))
    · rcases List.mem_cons.mp h with h | h
      · exact .inr h
      · exact .inl (hdigit (List.mem_append_right _ h))

theorem Piece.mem_text_caret {b a : Nat} {s : Bool} (h : c ∈ (Piece.caret b s a).text) : c = ' ' ∨ c = '*' ∨ c = '^' := by
  cases s <;> simp [Piece.text, Piece.gap] at h <;> tauto

theorem Piece.gap_reverse (n : Nat) : (Piece.gap n).reverse = Piece.gap n := List.reverse_replicate

theorem Piece.Fits.mark_cases (h : (Piece.mark c).Fits) : c = '(' ∨ c = ')' ∨ c = '+' ∨ c = '-' := by
  simpa [Piece.Fits] using h

theorem Piece.Fits.between_cases {b a : Nat} (h : (Piece.between b c a).Fits) :
    c = '+' ∨ c = '-' ∨ c = '*' ∨ c = '/' ∨ c = ',' := by
  simpa [Piece.Fits] using h

theorem Piece.isSolid (h : p.Fits) (htight : p.isTight = true) : ∀ c ∈ p.text, IsSolid c := by
  intro c hc
  cases p with
  | literal l comma =>
    rcases Literal.mem_text hc with hc | rfl
    · exact isSolid_of_isWordChar (isWordChar_of_isDigit hc)
    · cases comma <;> exact ⟨by decide, by decide, by decide, by decide⟩
  | word cs => exact isSolid_of_isWordChar (IsWord.isWordChar h c hc)
  | callee cs =>
    rcases List.mem_append.mp hc with hc | hc
    · exact isSolid_of_isWordChar (IsWord.isWordChar h c hc)
    · rw [List.mem_singleton.mp hc]
      exact ⟨by decide, by decide, by decide, by decide⟩
  | mark d =>
    rw [List.mem_singleton.mp hc]
    rcases h.mark_cases with rfl | rfl | rfl | rfl <;> exact ⟨by decide, by decide, by decide, by decide⟩
  | between b d a => cases htight
  | caret b s a => cases htight

end Solid

/-! ### Ends of operands -/

section Ends

variable {p : Piece} {ps : List Piece}

theorem textOf_cons : textOf (p :: ps) = p.text ++ textOf ps := List.flatMap_cons

theorem textOf_append {qs : List Piece} : textOf (ps ++ qs) = textOf ps ++ textOf qs := List.flatMap_append

theorem Piece.text_ne_nil (h : p.Fits) : p.text ≠ [] := by
  cases p with
  | literal l comma =>
    rw [Piece.text, Literal.text]
    split
    · exact l.whole_ne_nil
    · simp
  | word cs =>
    obtain ⟨c, ds, rfl, -⟩ := h
    exact List.cons_ne_nil _ _
  | callee cs => simp [Piece.text]
  | mark c => simp [Piece.text]
  | between b c a => simp [Piece.text]
  | caret b s a => cases s <;> simp [Piece.text]

/-- Where an operand has to come a solid character comes. -/
theorem Alternates.exists_solid (h : Alternates true ps) (hfits : ∀ p ∈ ps, p.Fits) :
    ∃ c cs, textOf ps = c :: cs ∧ IsSolid c := by
  cases ps with
  | nil => cases h
  | cons p ps =>
    obtain ⟨hp, -⟩ := List.forall_mem_cons.mp hfits
    obtain ⟨c, cs, hc⟩ := List.exists_cons_of_ne_nil (Piece.text_ne_nil hp)
    refine ⟨c, cs ++ textOf ps, by rw [textOf_cons, hc, List.cons_append], ?_⟩
    refine Piece.isSolid hp ?_ c (hc ▸ List.mem_cons_self)
    cases p with
    | between b d a => cases h.1
    | caret b s a => cases h.1
    | _ => rfl

/-- The characters of operands' ends. -/
def isOperandChar (c : Char) : Bool := isNameChar c || isNumberChar c

/-- What the stages ask of the sign between two operands. -/
structure IsBetween (c : Char) : Prop where
  isBlank : isBlank c = false
  isOperandChar : isOperandChar c = false
  toNat_lt : c.toNat < 65
  ne_paren : c ≠ '(' ∧ c ≠ ')'
  ne_caret : c ≠ '^'

theorem Piece.Fits.isBetween {b a : Nat} {c : Char} (h : (Piece.between b c a).Fits) : IsBetween c := by
  rcases h.between_cases with rfl | rfl | rfl | rfl | rfl
  all_goals exact ⟨by decide, by decide, by decide, by decide, by decide⟩

theorem StartsOutside.name {cs : List Char} (h : StartsOutside isOperandChar cs) : StartsOutside isNameChar cs :=
  fun c hc => (Bool.or_eq_false_iff.mp (h c hc)).1

theorem StartsOutside.number {cs : List Char} (h : StartsOutside isOperandChar cs) : StartsOutside isNumberChar cs :=
  fun c hc => (Bool.or_eq_false_iff.mp (h c hc)).2

theorem startsOutside_gap (n : Nat) {c : Char} {cs : List Char} (hc : isOperandChar c = false) :
    StartsOutside isOperandChar (Piece.gap n ++ c :: cs) := by
  cases n with
  | zero => exact startsOutside_cons.mpr hc
  | succ n => exact startsOutside_cons.mpr (by decide)

theorem head?_gap_ne (n : Nat) {c d : Char} {cs : List Char} (hc : c ≠ d) (hspace : ' ' ≠ d) :
    (Piece.gap n ++ c :: cs).head? ≠ some d := by
  cases n with
  | zero => simpa [Piece.gap] using hc
  | succ n => simpa [Piece.gap, List.replicate_succ] using hspace

/-- What follows an operand does not go on with it. -/
theorem Alternates.startsOutside (h : Alternates false ps) (hfits : ∀ p ∈ ps, p.Fits) :
    StartsOutside isOperandChar (textOf ps) ∧ (textOf ps).head? ≠ some '(' := by
  cases ps with
  | nil => exact ⟨startsOutside_nil, nofun⟩
  | cons p ps =>
    obtain ⟨hp, -⟩ := List.forall_mem_cons.mp hfits
    rw [textOf_cons]
    cases p with
    | literal l comma => cases h.1
    | word cs => cases h.1
    | callee cs => cases h.1
    | mark c =>
      obtain rfl : c = ')' := by simpa [Piece.startsOperand] using h.1
      exact ⟨startsOutside_cons.mpr (by decide), by simp [Piece.text]⟩
    | between b c a =>
      rw [Piece.text, List.append_assoc, List.append_assoc]
      exact ⟨startsOutside_gap b hp.isBetween.isOperandChar, head?_gap_ne b hp.isBetween.ne_paren.1 (by decide)⟩
    | caret b s a =>
      rw [Piece.text, List.append_assoc, List.append_assoc]
      cases s with
      | true => exact ⟨startsOutside_gap b (by decide), head?_gap_ne b (by decide) (by decide)⟩
      | false => exact ⟨startsOutside_gap b (by decide), head?_gap_ne b (by decide) (by decide)⟩

theorem alternates_map {f : Piece → Piece} {operand : Bool}
    (hf : ∀ p, (f p).startsOperand = p.startsOperand ∧ (f p).endsOperand = p.endsOperand) :
    Alternates operand (ps.map f) ↔ Alternates operand ps := by
  induction ps generalizing operand with
  | nil => exact Iff.rfl
  | cons p ps ih => rw [List.map_cons, Alternates, Alternates, (hf p).1, (hf p).2, ih]

end Ends

/-! ### Spaces -/

namespace Piece

/-- The piece with at most one space on each side. -/
def squeezed : Piece → Piece
  | between before c after => between (min before 1) c (min after 1)
  | caret before stars after => caret (min before 1) stars (min after 1)
  | p => p

end Piece

section Spaces

variable {p : Piece} {ps : List Piece} {xs ys : List Char}

theorem squeeze_gap_true (n : Nat) (ys : List Char) : squeeze true (Piece.gap n ++ ys) = squeeze true ys := by
  induction n with
  | zero => rfl
  | succ n ih =>
    rw [Piece.gap, List.replicate_succ, List.cons_append, squeeze, isBlank_space, if_pos rfl]
    exact ih

/-- Spaces before a character become one. -/
theorem squeeze_gap (n : Nat) (h : ∃ c cs, ys = c :: cs ∧ isBlank c = false) :
    squeeze false (Piece.gap n ++ ys) = Piece.gap (min n 1) ++ squeeze false ys := by
  obtain ⟨c, cs, rfl, hc⟩ := h
  cases n with
  | zero => rfl
  | succ n =>
    have hmin : min (n + 1) 1 = 1 := by omega
    have hone : squeeze false (Piece.gap (n + 1) ++ c :: cs) = squeeze true (Piece.gap n ++ c :: cs) := by
      rw [Piece.gap, List.replicate_succ, List.cons_append, squeeze, isBlank_space, if_pos rfl]
      rfl
    rw [hone, squeeze_gap_true, hmin]
    simp [squeeze, hc, Piece.gap]

/-- The spaces on both sides of a sign become one each. -/
theorem squeeze_spaced (n m : Nat) (hne : xs ≠ []) (hxs : ∀ c ∈ xs, isBlank c = false)
    (hys : ∃ c cs, ys = c :: cs ∧ isBlank c = false) :
    squeeze false (Piece.gap n ++ xs ++ Piece.gap m ++ ys) =
      Piece.gap (min n 1) ++ xs ++ Piece.gap (min m 1) ++ squeeze false ys := by
  obtain ⟨c, cs, rfl⟩ := List.exists_cons_of_ne_nil hne
  have hnext : ∃ d ds, c :: cs ++ (Piece.gap m ++ ys) = d :: ds ∧ isBlank d = false :=
    ⟨c, _, rfl, hxs c List.mem_cons_self⟩
  rw [List.append_assoc, List.append_assoc, squeeze_gap n hnext, squeeze_append hxs, squeeze_gap m hys,
    List.append_assoc, List.append_assoc]

theorem squeeze_textOf {operand : Bool} (h : Alternates operand ps) (hfits : ∀ p ∈ ps, p.Fits) :
    squeeze false (textOf ps) = textOf (ps.map Piece.squeezed) := by
  induction ps generalizing operand with
  | nil => rfl
  | cons p ps ih =>
    obtain ⟨hp, hps⟩ := List.forall_mem_cons.mp hfits
    have hnext (hends : p.endsOperand = false) : ∃ c cs, textOf ps = c :: cs ∧ isBlank c = false := by
      have halternates := h.2
      rw [hends] at halternates
      obtain ⟨c, cs, heq, hc⟩ := halternates.exists_solid hps
      exact ⟨c, cs, heq, hc.1⟩
    rw [textOf_cons, List.map_cons, textOf_cons, ← ih h.2 hps]
    cases p with
    | between b c a =>
      have hsign : ∀ d ∈ [c], isBlank d = false := List.forall_mem_singleton.mpr hp.isBetween.isBlank
      exact squeeze_spaced b a (List.cons_ne_nil _ _) hsign (hnext rfl)
    | caret b s a =>
      have hsign : ∀ c ∈ (if s then ['*', '*'] else ['^']), isBlank c = false := by
        intro c hc
        have : c = '*' ∨ c = '^' := by cases s <;> simp at hc <;> simp [hc]
        rcases this with rfl | rfl <;> decide
      exact squeeze_spaced b a (by cases s <;> exact List.cons_ne_nil _ _) hsign (hnext rfl)
    | _ => exact squeeze_append fun c hc => (Piece.isSolid hp rfl c hc).1

/-- **Spaces.** A formula's blanks collapse around its signs. -/
theorem collapseBlanks_textOf (h : Alternates true ps) (hfits : ∀ p ∈ ps, p.Fits) :
    collapseBlanks (textOf ps) = textOf (ps.map Piece.squeezed) := by
  obtain ⟨c, cs, heq, hc⟩ := h.exists_solid hfits
  rw [← squeeze_textOf h hfits, collapseBlanks, heq, List.dropWhile_cons, hc.1]
  rfl

end Spaces

/-! ### Letters -/

namespace Piece

/-- The piece in lower case. -/
def lowered : Piece → Piece
  | word cs => word (cs.map Char.toLower)
  | callee cs => callee (cs.map Char.toLower)
  | p => p

end Piece

section Letters

variable {c : Char} {p : Piece} {ps : List Piece} {before cs : List Char}

theorem lowerAfter_of_ascii (h : ∀ c ∈ cs, c.toNat < 128) : lowerAfter before cs = cs.map Char.toLower := by
  induction cs generalizing before with
  | nil => rfl
  | cons c cs ih =>
    obtain ⟨hc, hcs⟩ := List.forall_mem_cons.mp h
    have hsigma : c ≠ 'Σ' := by
      rintro rfl
      exact absurd hc (by decide)
    have hdot : c ≠ 'İ' := by
      rintro rfl
      exact absurd hc (by decide)
    rw [lowerAfter, ih hcs, lowerAt, if_neg hsigma, if_neg hdot, lowerChar, if_pos hc]
    rfl

theorem toLower_of_lt (h : c.toNat < 65) : c.toLower = c := by
  refine Char.toLower_eq_of_not_isUpper fun hupper => ?_
  have : 65 ≤ c.toNat ∧ c.toNat ≤ 90 := by simpa [Char.isUpper, UInt32.le_iff_toNat_le] using hupper
  omega

/-- The characters of a piece are ASCII, and small outside names. -/
theorem Piece.ascii (h : p.Fits) :
    ∀ c ∈ p.text, c.toNat < 128 ∧ (c.toLower = c ∨ ∃ cs, p = .word cs ∨ p = .callee cs) := by
  intro c hc
  cases p with
  | literal l comma =>
    have hsmall : c.toNat < 65 := by
      rcases Literal.mem_text hc with hc | rfl
      · have := toNat_of_isDigit hc
        omega
      · cases comma <;> decide
    exact ⟨by omega, .inl (toLower_of_lt hsmall)⟩
  | word cs => exact ⟨(Piece.isSolid h rfl c hc).2.2.2, .inr ⟨cs, .inl rfl⟩⟩
  | callee cs => exact ⟨(Piece.isSolid h rfl c hc).2.2.2, .inr ⟨cs, .inr rfl⟩⟩
  | mark d =>
    rw [List.mem_singleton.mp hc]
    rcases h.mark_cases with rfl | rfl | rfl | rfl <;> exact ⟨by decide, .inl rfl⟩
  | between b d a =>
    simp only [Piece.text, Piece.gap, List.mem_append, List.mem_replicate, List.mem_singleton] at hc
    rcases hc with (⟨-, rfl⟩ | rfl) | ⟨-, rfl⟩
    · exact ⟨by decide, .inl rfl⟩
    · have := h.isBetween.toNat_lt
      exact ⟨by omega, .inl (toLower_of_lt this)⟩
    · exact ⟨by decide, .inl rfl⟩
  | caret b s a =>
    rcases Piece.mem_text_caret hc with rfl | rfl | rfl <;> exact ⟨by decide, .inl rfl⟩

theorem map_toLower_text (h : p.Fits) : p.text.map Char.toLower = p.lowered.text := by
  have hsmall (hword : ∀ cs, p ≠ .word cs ∧ p ≠ .callee cs) : p.text.map Char.toLower = p.text := by
    refine (List.map_congr_left fun c hc => ?_).trans (List.map_id _)
    rcases (Piece.ascii h c hc).2 with hc | ⟨cs, heq | heq⟩
    · exact hc
    · exact absurd heq (hword cs).1
    · exact absurd heq (hword cs).2
  cases p with
  | word cs => rfl
  | callee cs =>
    rw [Piece.lowered, Piece.text, Piece.text, List.map_append]
    rfl
  | _ => exact hsmall fun cs => ⟨nofun, nofun⟩

/-- **Letters.** A formula's letters are lowered in its names. -/
theorem lowerCase_textOf (hfits : ∀ p ∈ ps, p.Fits) : lowerCase (textOf ps) = textOf (ps.map Piece.lowered) := by
  have hascii : ∀ c ∈ textOf ps, c.toNat < 128 := by
    intro c hc
    obtain ⟨p, hp, hcp⟩ := List.mem_flatMap.mp hc
    exact (Piece.ascii (hfits p hp) c hcp).1
  rw [lowerCase, lowerAfter_of_ascii hascii]
  clear hascii
  induction ps with
  | nil => rfl
  | cons p ps ih =>
    obtain ⟨hp, hps⟩ := List.forall_mem_cons.mp hfits
    rw [textOf_cons, List.map_append, map_toLower_text hp, ih hps, List.map_cons, textOf_cons]

end Letters

/-! ### Decimal commas -/

namespace Piece

/-- The piece with a point for a decimal comma. -/
def pointed : Piece → Piece
  | literal l _ => literal l false
  | p => p

end Piece

/-- Decimal commas and commas between arguments stand in groups in which they are read as such; `groups` tells of each open
group, innermost first, whether it holds the arguments of a function that takes two. -/
def CommasFit : List Bool → List Piece → Prop
  | _, [] => True
  | groups, .literal _ comma :: ps => (comma = true → groups.headD false = false) ∧ CommasFit groups ps
  | groups, .word _ :: ps => CommasFit groups ps
  | groups, .callee cs :: ps => CommasFit (Function.takesTwo (.ofList (cs.map Char.toLower)) :: groups) ps
  | groups, .mark c :: ps => CommasFit (if c = '(' then false :: groups else if c = ')' then groups.tail else groups) ps
  | groups, .between _ c _ :: ps => (c = ',' → groups.headD false = true) ∧ CommasFit groups ps
  | groups, .caret _ _ _ :: ps => CommasFit groups ps

section Commas

variable {c : Char} {ps : List Piece} {before cs xs ys : List Char} {groups : List Bool}

theorem isNameChar_of_isWordChar (h : isWordChar c = true) : isNameChar c = true := by
  simp only [isWordChar, Char.isAlphanum, Bool.or_eq_true, beq_iff_eq] at h
  rcases h with (h | h) | rfl
  · exact isNameChar_of_isNameStart (isNameStart_of_isAlphabetic (by simp [isAlphabetic, h]))
  · exact isNameChar_of_isDigit h
  · decide

theorem IsWord.ne (h : IsWord cs) : ∀ c ∈ cs, c ≠ ',' ∧ c ≠ '(' ∧ c ≠ ')' := by
  intro c hc
  have hne := ne_of_isNameChar (isNameChar_of_isWordChar (h.isWordChar c hc))
  exact ⟨hne.1, hne.2.1, hne.2.2.1⟩

theorem IsWord.isAlphabetic_head? (h : IsWord cs) : cs.head?.any isAlphabetic = true := by
  obtain ⟨c, ds, rfl, hc, -⟩ := h
  simp [isAlphabetic, hc]

/-- A parenthesis after a word starts the arguments of the function that it names. -/
theorem opensTwoArguments_word (h : IsWord cs) (hbefore : StartsOutside isNameChar before) :
    opensTwoArguments (cs.reverse ++ before) = Function.takesTwo (.ofList cs) := by
  have hrun : cs.reverse.takeWhile isNameChar = cs.reverse :=
    List.takeWhile_eq_self_iff.mpr fun c hc => isNameChar_of_isWordChar (h.isWordChar c (List.mem_reverse.mp hc))
  rw [opensTwoArguments_append hbefore, opensTwoArguments, nameBefore?, hrun]
  simp only [List.reverse_reverse, h.isAlphabetic_head?, if_true, Option.any_some]

theorem pointCommasAfter_of_ne (hc : c ≠ ',' ∧ c ≠ '(' ∧ c ≠ ')') :
    pointCommasAfter before groups (c :: ys) = c :: pointCommasAfter (c :: before) groups ys := by
  rw [pointCommasAfter, if_neg hc.2.1, if_neg hc.2.2, if_neg (by simp [hc.1])]

theorem pointCommasAfter_append (h : ∀ c ∈ xs, c ≠ ',' ∧ c ≠ '(' ∧ c ≠ ')') :
    pointCommasAfter before groups (xs ++ ys) = xs ++ pointCommasAfter (xs.reverse ++ before) groups ys := by
  induction xs generalizing before with
  | nil => rfl
  | cons c xs ih =>
    obtain ⟨hc, hxs⟩ := List.forall_mem_cons.mp h
    rw [List.cons_append, pointCommasAfter_of_ne hc, ih hxs]
    simp

theorem ne_of_isDigit (h : c.isDigit = true) : c ≠ ',' ∧ c ≠ '(' ∧ c ≠ ')' := by
  refine ⟨?_, ?_, ?_⟩ <;> rintro rfl <;> exact absurd h (by decide)

/-- Outside the arguments of a function that takes two, the comma of a literal becomes a point. -/
theorem pointCommasAfter_literal (l : Literal) {comma : Bool} (h : comma = true → groups.headD false = false) :
    pointCommasAfter before groups (l.text comma ++ ys) =
      l.text false ++ pointCommasAfter ((l.text false).reverse ++ before) groups ys := by
  have hwhole : ∀ c ∈ l.whole, c ≠ ',' ∧ c ≠ '(' ∧ c ≠ ')' :=
    fun c hc => ne_of_isDigit (l.isDigit c (List.mem_append_left _ hc))
  have hfraction : ∀ c ∈ l.fraction, c ≠ ',' ∧ c ≠ '(' ∧ c ≠ ')' :=
    fun c hc => ne_of_isDigit (l.isDigit c (List.mem_append_right _ hc))
  have hpoint : ∀ c ∈ l.text false, c ≠ ',' ∧ c ≠ '(' ∧ c ≠ ')' := by
    intro c hc
    rcases Literal.mem_text hc with hc | rfl
    · exact ne_of_isDigit hc
    · decide
  cases comma with
  | false => exact pointCommasAfter_append hpoint
  | true =>
    unfold Literal.text
    split
    · exact pointCommasAfter_append hwhole
    · next hne =>
      obtain ⟨d, ds, hd⟩ := List.exists_cons_of_ne_nil (by simpa using hne)
      have hlast : (l.whole.reverse ++ before).head?.any Char.isDigit = true := by
        obtain ⟨c, cs, hc⟩ := List.exists_cons_of_ne_nil (mt List.reverse_eq_nil_iff.mp l.whole_ne_nil)
        have : c ∈ l.whole := List.mem_reverse.mp (hc ▸ List.mem_cons_self)
        simpa [hc] using l.isDigit c (List.mem_append_left _ this)
      have hnext : (l.fraction ++ ys).head?.any Char.isDigit = true := by
        have : d ∈ l.fraction := hd ▸ List.mem_cons_self
        simpa [hd] using l.isDigit d (List.mem_append_right _ this)
      rw [if_pos rfl, List.append_assoc, pointCommasAfter_append hwhole, List.cons_append, pointCommasAfter,
        if_neg (by decide), if_neg (by decide), if_pos (by rw [hlast, hnext, h rfl]; rfl), pointCommasAfter_append hfraction]
      simp

theorem pointCommasAfter_gap (n : Nat) :
    pointCommasAfter before groups (Piece.gap n ++ ys) =
      Piece.gap n ++ pointCommasAfter ((Piece.gap n).reverse ++ before) groups ys := by
  refine pointCommasAfter_append fun c hc => ?_
  rw [List.eq_of_mem_replicate hc]
  decide

/-- The comma between two arguments of a function stays. -/
theorem pointCommasAfter_sign (hc : c ≠ '(' ∧ c ≠ ')') (hcomma : c = ',' → groups.headD false = true) :
    pointCommasAfter before groups (c :: ys) = c :: pointCommasAfter (c :: before) groups ys := by
  rw [pointCommasAfter, if_neg hc.1, if_neg hc.2, if_neg]
  intro h
  simp only [Bool.and_eq_true, Bool.not_eq_true', decide_eq_true_eq] at h
  rw [hcomma h.1.1.1] at h
  cases h.2

theorem pointCommasAfter_mark (h : (Piece.mark c).Fits) (hbefore : c = '(' → StartsOutside isNameChar before) :
    pointCommasAfter before groups (c :: ys) = c :: pointCommasAfter (c :: before)
      (if c = '(' then false :: groups else if c = ')' then groups.tail else groups) ys := by
  rcases h.mark_cases with rfl | rfl | rfl | rfl
  · rw [pointCommasAfter, if_pos rfl, if_pos rfl, opensTwoArguments_of_startsOutside (hbefore rfl)]
  · rw [pointCommasAfter, if_neg (by decide), if_pos rfl, if_neg (by decide), if_pos rfl]
  · rw [pointCommasAfter_of_ne (by decide), if_neg (by decide), if_neg (by decide)]
  · rw [pointCommasAfter_of_ne (by decide), if_neg (by decide), if_neg (by decide)]

theorem pointCommasAfter_textOf {operand : Bool} (h : Alternates operand ps) (hfits : ∀ p ∈ ps, p.Fits)
    (hlower : ∀ cs, .callee cs ∈ ps → cs.map Char.toLower = cs) (hcommas : CommasFit groups ps)
    (hbefore : operand = true → StartsOutside isNameChar before) :
    pointCommasAfter before groups (textOf ps) = textOf (ps.map Piece.pointed) := by
  induction ps generalizing operand groups before with
  | nil => rfl
  | cons p ps ih =>
    obtain ⟨hp, hps⟩ := List.forall_mem_cons.mp hfits
    have hlower' := fun cs hcs => hlower cs (List.mem_cons_of_mem _ hcs)
    rw [textOf_cons, List.map_cons, textOf_cons]
    cases p with
    | literal l comma =>
      rw [Piece.text, pointCommasAfter_literal l hcommas.1, ih h.2 hps hlower' hcommas.2 nofun]
      rfl
    | word cs =>
      rw [Piece.text, pointCommasAfter_append (IsWord.ne hp), ih h.2 hps hlower' hcommas nofun]
      rfl
    | callee cs =>
      rw [CommasFit, hlower cs List.mem_cons_self] at hcommas
      rw [Piece.text, List.append_assoc, pointCommasAfter_append (IsWord.ne hp), List.singleton_append, pointCommasAfter,
        if_pos rfl, opensTwoArguments_word hp (hbefore h.1.symm),
        ih h.2 hps hlower' hcommas (fun _ => startsOutside_cons.mpr (by decide))]
      simp [Piece.pointed, Piece.text]
    | mark c =>
      have hopening : c = '(' → StartsOutside isNameChar before := by
        rintro rfl
        exact hbefore h.1.symm
      have hc : isNameChar c = false := by
        rcases hp.mark_cases with rfl | rfl | rfl | rfl <;> decide
      rw [Piece.text, List.singleton_append, pointCommasAfter_mark hp hopening,
        ih h.2 hps hlower' hcommas (fun _ => startsOutside_cons.mpr hc)]
      rfl
    | between b c a =>
      have hspace : StartsOutside isNameChar ((Piece.gap a).reverse ++ c :: ((Piece.gap b).reverse ++ before)) := by
        rw [Piece.gap_reverse]
        exact (startsOutside_gap a hp.isBetween.isOperandChar).name
      rw [Piece.text, List.append_assoc, List.append_assoc, pointCommasAfter_gap, List.singleton_append,
        pointCommasAfter_sign hp.isBetween.ne_paren hcommas.1, pointCommasAfter_gap,
        ih h.2 hps hlower' hcommas.2 (fun _ => hspace)]
      simp [Piece.pointed, Piece.text]
    | caret b s a =>
      have hne : ∀ c ∈ (Piece.caret b s a).text, c ≠ ',' ∧ c ≠ '(' ∧ c ≠ ')' := by
        intro c hc
        rcases Piece.mem_text_caret hc with rfl | rfl | rfl <;> decide
      have hspace : StartsOutside isNameChar ((Piece.caret b s a).text.reverse ++ before) := by
        cases s with
        | true => simpa [Piece.text, Piece.gap_reverse] using (startsOutside_gap a (by decide : isOperandChar '*' = false)).name
        | false => simpa [Piece.text, Piece.gap_reverse] using (startsOutside_gap a (by decide : isOperandChar '^' = false)).name
      rw [pointCommasAfter_append hne, ih h.2 hps hlower' hcommas (fun _ => hspace)]
      rfl

end Commas

/-! ### Power signs -/

namespace Piece

/-- The piece with `^` for `**`. -/
def careted : Piece → Piece
  | caret before _ after => caret before false after
  | p => p

/-- The piece without spaces around a power sign. -/
def tightened : Piece → Piece
  | caret _ stars _ => caret 0 stars 0
  | p => p

end Piece

section Carets

variable {c : Char} {ps : List Piece} {xs ys : List Char} {afterCaret : Bool}

theorem caretStars_cons (h : c ≠ '*' ∨ ys.head? ≠ some '*') : caretStars (c :: ys) = c :: caretStars ys := by
  cases ys with
  | nil => simp [caretStars]
  | cons d ds =>
    rw [caretStars]
    rintro e rfl heq
    cases heq
    simp at h

theorem caretStars_append (h : ∀ c ∈ xs, c ≠ '*') : caretStars (xs ++ ys) = xs ++ caretStars ys := by
  induction xs with
  | nil => rfl
  | cons c xs ih =>
    obtain ⟨hc, hxs⟩ := List.forall_mem_cons.mp h
    rw [List.cons_append, caretStars_cons (.inl hc), ih hxs, List.cons_append]

theorem caretStars_gap (n : Nat) : caretStars (Piece.gap n ++ ys) = Piece.gap n ++ caretStars ys := by
  refine caretStars_append fun c hc => ?_
  rw [List.eq_of_mem_replicate hc]
  decide

/-- **Double stars.** The `**` of a formula are its power signs. -/
theorem caretStars_textOf {operand : Bool} (h : Alternates operand ps) (hfits : ∀ p ∈ ps, p.Fits) :
    caretStars (textOf ps) = textOf (ps.map Piece.careted) := by
  induction ps generalizing operand with
  | nil => rfl
  | cons p ps ih =>
    obtain ⟨hp, hps⟩ := List.forall_mem_cons.mp hfits
    rw [textOf_cons, List.map_cons, textOf_cons, ← ih h.2 hps]
    cases p with
    | between b c a =>
      have hnext : (Piece.gap a ++ textOf ps).head? ≠ some '*' := by
        obtain ⟨d, ds, heq, hd⟩ := Alternates.exists_solid h.2 hps
        cases a with
        | zero => simpa [Piece.gap, heq] using hd.2.1
        | succ n => simp [Piece.gap, List.replicate_succ]
      rw [Piece.text, List.append_assoc, List.append_assoc, caretStars_gap, List.singleton_append,
        caretStars_cons (.inr hnext), caretStars_gap]
      simp [Piece.careted, Piece.text]
    | caret b s a =>
      rw [Piece.text, List.append_assoc, List.append_assoc, caretStars_gap]
      cases s with
      | true =>
        simp only [if_true, List.cons_append, List.nil_append]
        rw [caretStars, caretStars_gap]
        simp [Piece.careted, Piece.text]
      | false =>
        simp only [Bool.false_eq_true, if_false, List.cons_append, List.nil_append]
        rw [caretStars_cons (.inl (by decide)), caretStars_gap]
        simp [Piece.careted, Piece.text]
    | _ => exact caretStars_append fun c hc => (Piece.isSolid hp rfl c hc).2.1

theorem tightenCarets_append (hne : xs ≠ []) (h : ∀ c ∈ xs, IsSolid c) :
    tightenCarets afterCaret (xs ++ ys) = xs ++ tightenCarets false ys := by
  induction xs generalizing afterCaret with
  | nil => exact absurd rfl hne
  | cons c xs ih =>
    obtain ⟨hc, hxs⟩ := List.forall_mem_cons.mp h
    rw [List.cons_append, tightenCarets_cons (ne_space_of_isBlank hc.1), beq_eq_false_iff_ne.mpr hc.2.2.1]
    cases xs with
    | nil => rfl
    | cons d ds =>
      rw [ih (List.cons_ne_nil _ _) hxs]
      rfl

/-- Spaces stay before other characters than power signs. -/
theorem tightenCarets_gap (n : Nat) (h : ys.head? ≠ some '^') :
    tightenCarets false (Piece.gap n ++ ys) = Piece.gap n ++ tightenCarets false ys := by
  induction n with
  | zero => rfl
  | succ n ih =>
    have hnext : (Piece.gap n ++ ys).head? ≠ some '^' := by
      cases n with
      | zero => exact h
      | succ n => simp [Piece.gap, List.replicate_succ]
    have hsucc (zs : List Char) : Piece.gap (n + 1) ++ zs = ' ' :: (Piece.gap n ++ zs) := rfl
    rw [hsucc, hsucc, tightenCarets, if_neg (by simpa using hnext), ← ih]
    rfl

/-- The spaces after a power sign go. -/
theorem tightenCarets_gap_true (n : Nat) : tightenCarets true (Piece.gap n ++ ys) = tightenCarets true ys := by
  induction n with
  | zero => rfl
  | succ n ih =>
    have hsucc : Piece.gap (n + 1) ++ ys = ' ' :: (Piece.gap n ++ ys) := rfl
    rw [hsucc, tightenCarets, if_pos (by simp), ih]

theorem Piece.not_mem_caret {p : Piece} (h : p.Fits) (hread : p.isRead = true) : '^' ∉ p.text := by
  cases p with
  | between b c a =>
    simp [Piece.text, Piece.gap, h.isBetween.ne_caret.symm]
  | caret b s a => cases hread
  | _ => exact fun hmem => (Piece.isSolid h rfl _ hmem).2.2.1 rfl

/-- **Power signs.** The single spaces around the power signs of a formula go. -/
theorem tightenCarets_textOf {operand : Bool} (h : Alternates operand ps) (hfits : ∀ p ∈ ps, p.Fits)
    (hcarets : ∀ b s a, .caret b s a ∈ ps → b ≤ 1 ∧ s = false) (hafter : operand = false → afterCaret = false) :
    tightenCarets afterCaret (textOf ps) = textOf (ps.map Piece.tightened) := by
  induction ps generalizing operand afterCaret with
  | nil => rfl
  | cons p ps ih =>
    obtain ⟨hp, hps⟩ := List.forall_mem_cons.mp hfits
    have hcarets' := fun b s a hmem => hcarets b s a (List.mem_cons_of_mem _ hmem)
    rw [textOf_cons, List.map_cons, textOf_cons]
    cases p with
    | between b c a =>
      have hc : c ≠ ' ' ∧ c ≠ '^' := ⟨ne_space_of_isBlank hp.isBetween.isBlank, hp.isBetween.ne_caret⟩
      obtain ⟨d, ds, heq, hd⟩ := Alternates.exists_solid h.2 hps
      rw [hafter h.1.symm, Piece.text, List.append_assoc, List.append_assoc, tightenCarets_gap b (by simpa using hc.2),
        List.singleton_append, tightenCarets_cons hc.1, beq_eq_false_iff_ne.mpr hc.2,
        tightenCarets_gap a (by simpa [heq] using hd.2.2.1), ih h.2 hps hcarets' (fun _ => rfl)]
      simp [Piece.tightened, Piece.text]
    | caret b s a =>
      obtain ⟨hb, rfl⟩ := hcarets b s a List.mem_cons_self
      have hspaces : tightenCarets false (Piece.gap b ++ '^' :: (Piece.gap a ++ textOf ps)) =
          '^' :: tightenCarets true (Piece.gap a ++ textOf ps) := by
        have hcaret : tightenCarets false ('^' :: (Piece.gap a ++ textOf ps)) =
            '^' :: tightenCarets true (Piece.gap a ++ textOf ps) := tightenCarets_cons (by decide)
        obtain rfl | rfl : b = 0 ∨ b = 1 := by omega
        · exact hcaret
        · have hone : Piece.gap 1 ++ '^' :: (Piece.gap a ++ textOf ps) = ' ' :: '^' :: (Piece.gap a ++ textOf ps) := rfl
          rw [hone, tightenCarets, if_pos (by simp), hcaret]
      rw [hafter h.1.symm, Piece.text, List.append_assoc, List.append_assoc]
      simp only [Bool.false_eq_true, if_false, List.cons_append, List.nil_append]
      rw [hspaces, tightenCarets_gap_true, ih h.2 hps hcarets' (by simp [Piece.endsOperand])]
      rfl
    | _ =>
      rw [tightenCarets_append (Piece.text_ne_nil hp) (Piece.isSolid hp rfl), ih h.2 hps hcarets' (fun _ => rfl)]
      rfl

end Carets

/-! ### All stages -/

/-- The piece as the stages leave it. -/
def Piece.plain (p : Piece) : Piece := p.squeezed.lowered.pointed.careted.tightened

section Stages

variable {c : Char} {cs : List Char} {p : Piece} {ps : List Piece} {groups : List Bool}

theorem isWordChar_toLower (h : isWordChar c = true) : isWordChar c.toLower = true := by
  by_cases hupper : c.isUpper
  · refine isWordChar_of_isAlpha ?_
    rw [Char.isAlpha_toLower_eq_isAlpha]
    simp [Char.isAlpha, hupper]
  · rwa [Char.toLower_eq_of_not_isUpper hupper]

theorem IsWord.toLower (h : IsWord cs) : IsWord (cs.map Char.toLower) := by
  obtain ⟨c, ds, rfl, hc, hds⟩ := h
  refine ⟨c.toLower, ds.map Char.toLower, rfl, by rwa [Char.isAlpha_toLower_eq_isAlpha], fun d hd => ?_⟩
  obtain ⟨e, he, rfl⟩ := List.mem_map.mp hd
  exact isWordChar_toLower (hds e he)

theorem Piece.fits_squeezed (h : p.Fits) : p.squeezed.Fits := by cases p <;> exact h

theorem Piece.fits_lowered (h : p.Fits) : p.lowered.Fits := by
  cases p with
  | word cs => exact IsWord.toLower h
  | callee cs => exact IsWord.toLower h
  | _ => exact h

theorem Piece.fits_pointed (h : p.Fits) : p.pointed.Fits := by cases p <;> exact h

theorem Piece.fits_careted (h : p.Fits) : p.careted.Fits := by cases p <;> exact h

theorem CommasFit.map (h : CommasFit groups ps) : CommasFit groups (ps.map fun p => p.squeezed.lowered) := by
  induction ps generalizing groups with
  | nil => trivial
  | cons p ps ih =>
    cases p with
    | literal l comma => exact ⟨h.1, ih h.2⟩
    | between b c a => exact ⟨h.1, ih h.2⟩
    | callee cs =>
      have hlower : (cs.map Char.toLower).map Char.toLower = cs.map Char.toLower := by
        rw [List.map_map]
        exact List.map_congr_left fun c _ => Char.toLower_toLower_eq_toLower c
      simp only [List.map_cons, Piece.squeezed, Piece.lowered, CommasFit, hlower]
      exact ih h
    | word cs => exact ih h
    | mark c => exact ih h
    | caret b s a => exact ih h

/-- **The stages.** The text of a formula becomes that of its pieces as the stages leave them. -/
theorem tightenCarets_plainText_textOf (h : Alternates true ps) (hfits : ∀ p ∈ ps, p.Fits) (hcommas : CommasFit [] ps) :
    tightenCarets false (plainText (textOf ps)) = textOf (ps.map Piece.plain) := by
  have hmap {qs : List Piece} {f : Piece → Piece} (hqs : ∀ p ∈ qs, p.Fits) (hf : ∀ p, p.Fits → (f p).Fits) :
      ∀ p ∈ qs.map f, p.Fits := by
    intro p hp
    obtain ⟨q, hq, rfl⟩ := List.mem_map.mp hp
    exact hf q (hqs q hq)
  have hsqueezed := (alternates_map (f := Piece.squeezed) fun p => by cases p <;> exact ⟨rfl, rfl⟩).mpr h
  have hlowered := (alternates_map (f := Piece.lowered) fun p => by cases p <;> exact ⟨rfl, rfl⟩).mpr hsqueezed
  have hpointed := (alternates_map (f := Piece.pointed) fun p => by cases p <;> exact ⟨rfl, rfl⟩).mpr hlowered
  have hcareted := (alternates_map (f := Piece.careted) fun p => by cases p <;> exact ⟨rfl, rfl⟩).mpr hpointed
  have hfits₁ := hmap hfits fun _ => Piece.fits_squeezed
  have hfits₂ := hmap hfits₁ fun _ => Piece.fits_lowered
  have hfits₃ := hmap hfits₂ fun _ => Piece.fits_pointed
  have hfits₄ := hmap hfits₃ fun _ => Piece.fits_careted
  have hlower : ∀ cs, .callee cs ∈ (ps.map Piece.squeezed).map Piece.lowered → cs.map Char.toLower = cs := by
    intro cs hcs
    obtain ⟨q, -, hq⟩ := List.mem_map.mp hcs
    cases q with
    | callee ds =>
      obtain rfl := Piece.callee.inj hq
      rw [List.map_map]
      exact List.map_congr_left fun c _ => Char.toLower_toLower_eq_toLower c
    | _ => cases hq
  have hfit : CommasFit [] ((ps.map Piece.squeezed).map Piece.lowered) := by
    rw [List.map_map]
    exact hcommas.map
  have hcarets : ∀ b s a, .caret b s a ∈ (((ps.map Piece.squeezed).map Piece.lowered).map Piece.pointed).map Piece.careted →
      b ≤ 1 ∧ s = false := by
    intro b s a hmem
    simp only [List.map_map] at hmem
    obtain ⟨q, -, hq⟩ := List.mem_map.mp hmem
    cases q with
    | caret b' s' a' =>
      obtain ⟨rfl, rfl, rfl⟩ := Piece.caret.inj hq
      exact ⟨Nat.min_le_right _ _, rfl⟩
    | _ => cases hq
  rw [plainText, collapseBlanks_textOf h hfits, lowerCase_textOf hfits₁, pointCommas,
    pointCommasAfter_textOf hlowered hfits₂ hlower hfit (fun _ => startsOutside_nil), caretStars_textOf hpointed hfits₃,
    tightenCarets_textOf hcareted hfits₄ hcarets nofun]
  simp only [List.map_map]
  rfl

end Stages

end Numerics.Formula
