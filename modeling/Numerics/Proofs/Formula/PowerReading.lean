import Numerics.Formula.Basic
import Numerics.Proofs.Formula.Grammar
import Numerics.Proofs.Formula.PowerPasses

/-!
# The reading of powers

A formula in any case, with `^` or `**`, with spaces and with decimal commas where they may stand, is read as its tree, in
which powers are calls that group to the left (`parse_normalize_written`).  The stages leave the text of `Phrase.plain`, the
passes turn its powers to calls, the text falls into the tokens of its pieces, and these derive the tree.
-/

namespace Numerics.Formula

open Text Decimal

/-! ### Tokens -/

section Tokens

variable {c : Char} {cs ds : List Char} {ps : List Piece} {position : Nat}

theorem tokensFrom_gap (n : Nat) : tokensFrom position (Piece.gap n ++ cs) = tokensFrom (position + n) cs := by
  induction n generalizing position with
  | zero => rfl
  | succ n ih =>
    have hsucc : Piece.gap (n + 1) ++ cs = ' ' :: (Piece.gap n ++ cs) := rfl
    have hposition : position + (n + 1) = position + 1 + n := by omega
    rw [hsucc, tokensFrom, isBlank_space, if_pos rfl, ih, hposition]

theorem tokensFrom_sign {token : Token} (h : Token.ofSign? c = some token) :
    tokensFrom position (c :: cs) = (tokensFrom (position + 1) cs).map (token :: ·) := by
  have hc : isBlank c = false ∧ isNumberChar c = false ∧ isNameStart c = false := by
    unfold Token.ofSign? at h
    split at h
    all_goals first | exact ⟨by decide, by decide, by decide⟩ | cases h
  rw [tokensFrom]
  simp only [hc, h, Bool.false_eq_true, if_false]

theorem Literal.literalParts?_text (l : Literal) : literalParts? (l.text false) = some (l.whole, l.fraction) := by
  have hwhole : ∀ c ∈ l.whole, c.isDigit = true := fun c hc => l.isDigit c (List.mem_append_left _ hc)
  have hfraction : ∀ c ∈ l.fraction, c.isDigit = true := fun c hc => l.isDigit c (List.mem_append_right _ hc)
  unfold Literal.text
  split
  · next hempty =>
    have hsplit : splitRun Char.isDigit l.whole = (l.whole, []) :=
      splitRun_eq_iff.mpr ⟨(List.append_nil _).symm, hwhole, startsOutside_nil⟩
    obtain ⟨htake, hdrop⟩ := Prod.mk.inj hsplit
    rw [literalParts?, htake, hdrop, List.isEmpty_iff.mp hempty]
    simp [l.whole_ne_nil]
  · have hsplit : splitRun Char.isDigit (l.whole ++ '.' :: l.fraction) = (l.whole, '.' :: l.fraction) :=
      splitRun_eq_iff.mpr ⟨rfl, hwhole, startsOutside_cons.mpr (by decide)⟩
    obtain ⟨htake, hdrop⟩ := Prod.mk.inj hsplit
    simp only [Bool.false_eq_true, if_false]
    rw [literalParts?, htake, hdrop]
    simpa [l.whole_ne_nil] using hfraction

theorem Literal.readLiteral?_text (l : Literal) : readLiteral? (l.text false) = some l.value := by
  rw [readLiteral?, l.literalParts?_text]
  rfl

theorem tokensFrom_literal (l : Literal) (h : StartsOutside isNumberChar cs) :
    tokensFrom position (l.text false ++ cs) =
      (tokensFrom (position + (l.text false).length) cs).map (.number l.value :: ·) := by
  obtain ⟨c, ds, heq⟩ := List.exists_cons_of_ne_nil (l.text_ne_nil false)
  have hread := l.readLiteral?_text
  have hnumber := l.forall_isNumberChar
  have hsolid := Piece.isSolid (p := .literal l false) trivial rfl
  rw [Piece.text] at hsolid
  rw [heq] at hread hnumber hsolid ⊢
  obtain ⟨hc, hds⟩ := List.forall_mem_cons.mp hnumber
  obtain ⟨htake, hdrop⟩ := Prod.mk.inj (splitRun_eq_iff.mpr ⟨rfl, hds, h⟩ : splitRun isNumberChar (ds ++ cs) = (ds, cs))
  rw [List.cons_append, tokensFrom]
  simp only [(hsolid c List.mem_cons_self).1, hc, htake, hdrop, hread, Bool.false_eq_true, if_false, if_true]

theorem tokensFrom_word (hword : IsWord ds) (h : StartsOutside isNameChar cs) :
    tokensFrom position (ds ++ cs) = (tokensFrom (position + ds.length) cs).map (.name (.ofList ds) :: ·) := by
  have hsolid := Piece.isSolid (p := .word ds) hword rfl
  rw [Piece.text] at hsolid
  obtain ⟨c, es, rfl, halpha, hes⟩ := hword
  have hc : isNameStart c = true := isNameStart_of_isAlphabetic (by simp [isAlphabetic, halpha])
  have hname : ∀ d ∈ es, isNameChar d = true := fun d hd => isNameChar_of_isWordChar (hes d hd)
  obtain ⟨htake, hdrop⟩ := Prod.mk.inj (splitRun_eq_iff.mpr ⟨rfl, hname, h⟩ : splitRun isNameChar (es ++ cs) = (es, cs))
  rw [List.cons_append, tokensFrom]
  simp only [(hsolid c List.mem_cons_self).1, isNumberChar_of_isNameStart hc, hc, htake, hdrop, Bool.false_eq_true,
    if_false, if_true]

/-- **Tokens.** A text of pieces falls into the tokens of its pieces. -/
theorem tokensFrom_textOf {operand : Bool} (h : Alternates operand ps) (hfits : ∀ p ∈ ps, p.Fits)
    (hread : ∀ p ∈ ps, p.isRead = true) : tokensFrom position (textOf ps) = .ok (ps.flatMap Piece.tokens) := by
  induction ps generalizing operand position with
  | nil => simp [textOf, tokensFrom]
  | cons p ps ih =>
    obtain ⟨hp, hps⟩ := List.forall_mem_cons.mp hfits
    obtain ⟨hread, hread'⟩ := List.forall_mem_cons.mp hread
    have hrest {position : Nat} := @ih position _ h.2 hps hread'
    rw [textOf_cons, List.flatMap_cons]
    cases p with
    | literal l comma =>
      obtain rfl : comma = false := by simpa [Piece.isRead] using hread
      rw [Piece.text, tokensFrom_literal l (Alternates.startsOutside h.2 hps).1.number, hrest]
      rfl
    | word cs =>
      rw [Piece.text, tokensFrom_word hp (Alternates.startsOutside h.2 hps).1.name, hrest]
      rfl
    | callee cs =>
      have hopen : StartsOutside isNameChar (['('] ++ textOf ps) := startsOutside_cons.mpr (by decide)
      rw [Piece.text, List.append_assoc, tokensFrom_word hp hopen, List.singleton_append, tokensFrom_sign rfl, hrest]
      rfl
    | mark c =>
      rw [Piece.text, List.singleton_append]
      rcases hp.mark_cases with rfl | rfl | rfl | rfl
      all_goals
        rw [tokensFrom_sign rfl, hrest]
        rfl
    | between b c a =>
      rw [Piece.text, List.append_assoc, List.append_assoc, tokensFrom_gap, List.singleton_append]
      rcases hp.between_cases with rfl | rfl | rfl | rfl | rfl
      all_goals
        rw [tokensFrom_sign rfl, tokensFrom_gap, hrest]
        rfl
    | caret b s a => cases hread

end Tokens

/-! ### Trees -/

section Trees

variable {rank : Nat} {ts : List Token} {e : Expr}

/-- The tokens are a phrase of a rank with this tree. -/
def IsRanked : Nat → List Token → Expr → Prop
  | 0 => IsExpression
  | 1 => IsTerm
  | 2 => IsUnary
  | _ => IsPrimary

theorem IsRanked.weaken (h : IsRanked (rank + 1) ts e) : IsRanked rank ts e := by
  match rank with
  | 0 => exact IsExpression.term h
  | 1 => exact IsTerm.unary h
  | 2 => exact IsUnary.primary h
  | _ + 3 => exact h

theorem flatMap_tokens_callee {cs : List Char} {ps : List Piece} :
    (Piece.callee cs :: ps ++ [Piece.mark ')']).flatMap Piece.tokens =
      .name (.ofList cs) :: .openParen :: ps.flatMap Piece.tokens ++ [.closeParen] := by
  simp [Piece.tokens, Token.ofSign?]

theorem flatMap_tokens_parens {ps : List Piece} :
    (Piece.mark '(' :: ps ++ [Piece.mark ')']).flatMap Piece.tokens =
      .openParen :: ps.flatMap Piece.tokens ++ [.closeParen] := by
  simp [Piece.tokens, Token.ofSign?]

theorem isExpression_of_isPrimary (h : IsPrimary ts e) : IsExpression ts e := .term (.unary (.primary h))

theorem isPrimary_call_two (function : String) {us : List Token} {e' : Expr} (h : IsExpression ts e)
    (h' : IsExpression us e') :
    IsPrimary (.name function :: .openParen :: (ts ++ .comma :: us) ++ [.closeParen]) (.call function [e, e']) :=
  .call function (.some (.more h (.one h')))

theorem IsUnary.signed (sign : Sign) (h : IsUnary ts e) :
    IsUnary ((Piece.mark sign.char).tokens ++ ts) (sign.apply e) := by
  cases sign with
  | plus => exact .plus h
  | minus => exact .minus h

theorem IsPrimary.maybe_signed (sign : Option Sign) (h : IsPrimary ts e) :
    IsUnary ((signPieces sign).flatMap Piece.tokens ++ ts) (sign.elim e (Sign.apply e)) := by
  cases sign with
  | none => exact .primary h
  | some sign => simpa [signPieces] using (IsUnary.primary h).signed sign

theorem IsRanked.binary (op : Operator) (b a : Nat) {us : List Token} {left right : Expr} (h : IsRanked op.rank ts left)
    (h' : IsRanked (op.rank + 1) us right) :
    IsRanked op.rank (ts ++ ((Piece.between b op.char a).tokens ++ us)) (.binary left op.char right) := by
  cases op with
  | plus => exact IsExpression.plus h h'
  | minus => exact IsExpression.minus h h'
  | star => exact IsTerm.star h h'
  | slash => exact IsTerm.slash h h'

/-- **Trees.** The tokens of a phrase with calls for powers derive its tree. -/
theorem Phrase.isRanked_plain (e : Phrase rank) : IsRanked rank ((e.plain true).flatMap Piece.tokens) e.tree := by
  induction e with
  | literal l comma => exact IsPrimary.number l.value
  | name x => exact IsPrimary.name _
  | call f argument ih =>
    rw [Phrase.plain, flatMap_tokens_callee]
    exact IsPrimary.call _ (.some (.one ih))
  | callTwo f h first b a second ih₁ ih₂ =>
    rw [Phrase.plain, List.cons_append, flatMap_tokens_callee, List.flatMap_append, List.flatMap_cons]
    exact isPrimary_call_two _ ih₁ ih₂
  | group inner ih =>
    rw [Phrase.plain, flatMap_tokens_parens]
    exact IsPrimary.group ih
  | power base b s a sign exponent ih₁ ih₂ =>
    have hexponent : IsExpression _ _ := .term (.unary (IsPrimary.maybe_signed sign ih₂))
    have hpow : String.ofList ['p', 'o', 'w'] = "pow" := rfl
    have hpieces : (Phrase.power base b s a sign exponent).plain true = .callee ['p', 'o', 'w'] ::
        (base.plain true ++ .between 0 ',' 0 :: (signPieces sign ++ exponent.plain true)) ++ [.mark ')'] := by
      simp [Phrase.plain]
    rw [hpieces, flatMap_tokens_callee, List.flatMap_append, List.flatMap_cons, List.flatMap_append, hpow]
    exact isPrimary_call_two _ (isExpression_of_isPrimary ih₁) hexponent
  | signed sign operand ih =>
    rw [Phrase.plain, List.flatMap_cons]
    exact IsUnary.signed sign ih
  | binary op left b a right ih₁ ih₂ =>
    rw [Phrase.plain, List.flatMap_append, List.flatMap_cons]
    exact IsRanked.binary op _ _ ih₁ ih₂
  | weaken e ih => exact ih.weaken

end Trees

/-! ### The reading -/

section Reading

theorem Phrase.tokens_rewritten (e : Phrase 0) : tokens e.rewritten = .ok ((e.plain true).flatMap Piece.tokens) := by
  have halternates : Alternates true (e.plain true ++ []) := e.alternates_plain true rfl
  rw [List.append_nil] at halternates
  exact tokensFrom_textOf halternates (fun p hp => (e.fits_plain true p hp).1) fun p hp => (e.fits_plain true p hp).2 rfl

theorem Phrase.replacePasses_written (e : Phrase 0) (h : e.powers < maxPasses) :
    replacePasses maxPasses (textOf (e.plain false)) = .ok e.rewritten := by
  have hpasses : maxPasses = maxPasses - 1 - e.powers + 1 + e.powers := by omega
  have hleft : IsBefore [] := ⟨List.not_mem_nil, startsOutside_nil⟩
  have hafter : IsAfter [] := ⟨startsOutside_nil, nofun⟩
  have hreplaced := e.turnsInto_plain (maxPasses - 1 - e.powers + 1) hleft hafter
  simp only [List.nil_append, List.append_nil] at hreplaced
  rw [hpasses, hreplaced]
  exact replacePasses_of_not_mem e.not_mem_caret

theorem Phrase.normalChars_written (e : Phrase 0) (h : e.powers < maxPasses) : normalChars e.written = .ok e.rewritten := by
  have halternates := e.alternates_pieces false
  have hfits := e.fits_pieces false
  have hcommas : CommasFit [] (e.pieces false ++ []) := @Phrase.commasFit_pieces _ _ [] e trivial
  rw [List.append_nil] at hcommas
  have hblanks : (collapseBlanks e.written).isEmpty = false := by
    obtain ⟨c, cs, heq, hc⟩ := halternates.exists_solid hfits
    rw [Phrase.written, heq, collapseBlanks, List.dropWhile_cons, hc.1]
    simp [squeeze, hc.1]
  rw [normalChars, hblanks, if_neg Bool.false_ne_true, replacePowers, Phrase.written,
    tightenCarets_plainText_textOf halternates hfits hcommas, e.map_plain_pieces false]
  exact e.replacePasses_written h

/-- **The reading of powers.** A formula with fewer powers than there are passes has a normal form, in which powers are
calls, and the normal form has the formula's tree. -/
theorem parse_normalize_written (e : Phrase 0) (h : e.powers < maxPasses) :
    normalize (.ofList e.written) = .ok (.ofList e.rewritten) ∧ Expr.parse (.ofList e.rewritten) = .ok e.tree := by
  constructor
  · rw [normalize, String.toList_ofList, e.normalChars_written h]
    rfl
  · rw [Expr.parse, String.toList_ofList, e.tokens_rewritten]
    exact ofTokens_iff.mpr e.isRanked_plain

/-- The phrase of `2,5^-X ** sin(Y)`. -/
def chainedPhrase : Phrase 0 :=
  let x : BareName := ⟨['X'], ⟨'X', [], rfl, rfl, nofun⟩, rfl⟩
  let y : BareName := ⟨['Y'], ⟨'Y', [], rfl, rfl, nofun⟩, rfl⟩
  let literal : Phrase 4 := .literal ⟨['2'], ['5'], List.cons_ne_nil _ _, List.all_eq_true.mp rfl⟩ true
  let sine : Phrase 4 := .call ⟨['s', 'i', 'n'], by decide⟩ (.weaken (.weaken (.weaken (.weaken (.name y)))))
  let first : Phrase 3 := .power (.weaken literal) 0 false 0 (some .minus) (.name x)
  .weaken (.weaken (.weaken (.power first 1 true 1 none sine)))

theorem parse_normalize_chained :
    normalize "2,5^-X ** sin(Y)" = .ok "pow(pow(2.5,-x),sin(y))" ∧
      Expr.parse "pow(pow(2.5,-x),sin(y))" = .ok (.call "pow" [
        .call "pow" [.number (Float.ofScientific 25 true 1), .unary '-' (.symbol "x")], .call "sin" [.symbol "y"]]) :=
  parse_normalize_written chainedPhrase (by decide)

end Reading

end Numerics.Formula
