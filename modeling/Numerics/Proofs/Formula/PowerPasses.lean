import Numerics.Proofs.Formula.Pieces

/-!
# Passes over formulas

The pieces of a phrase fit: operators stand between operands, commas where they are read as what they are, and groups are
closed.  So both operands of a power are found by the scans around its sign, and as many passes as a phrase has powers
replace them all, from the innermost left operand on and whatever stands around the phrase (`Phrase.turnsInto_plain`).
-/

namespace Numerics.Formula

open Text

/-! ### Pieces of phrases -/

section Pieces

variable {rank : Nat} {c : Char} {cs : List Char} {qs : List Piece} {groups : List Bool}

theorem isWordChar_of_toLower (h : isWordChar c.toLower = true) : isWordChar c = true := by
  by_cases hupper : c.isUpper
  · exact isWordChar_of_isAlpha (by simp [Char.isAlpha, hupper])
  · rwa [Char.toLower_eq_of_not_isUpper hupper] at h

theorem isWord_names : ∀ f ∈ Function.all, ∀ name ∈ f.name :: f.aliases,
    name.toList.head?.any Char.isAlpha = true ∧ name.toList.all isWordChar = true := by decide

theorem isWord_of_named? {name : String} (h : (Function.named? name).isSome = true) : IsWord name.toList := by
  obtain ⟨f, hf⟩ := Option.isSome_iff_exists.mp h
  obtain ⟨hmem, hname⟩ := mem_names_of_named? hf
  obtain ⟨hhead, hall⟩ := isWord_names f hmem name hname
  obtain ⟨c, hc, halpha⟩ := (Option.any_eq_true _ _).mp hhead
  obtain ⟨cs, hcs⟩ := List.head?_eq_some_iff.mp hc
  rw [hcs, List.all_cons, Bool.and_eq_true] at hall
  exact ⟨c, cs, hcs, halpha, List.all_eq_true.mp hall.2⟩

theorem isWord_of_toLower (h : IsWord (cs.map Char.toLower)) : IsWord cs := by
  obtain ⟨c, ds, heq, hc, hds⟩ := h
  obtain ⟨d, es, rfl, rfl, rfl⟩ := List.map_eq_cons_iff.mp heq
  rw [Char.isAlpha_toLower_eq_isAlpha] at hc
  exact ⟨d, es, rfl, hc, fun e he => isWordChar_of_toLower (hds _ (List.mem_map_of_mem he))⟩

theorem FunctionName.isWord (f : FunctionName) : IsWord f.text := by
  have h := isWord_of_named? f.isSome_named?
  rw [String.toList_ofList] at h
  exact isWord_of_toLower h

theorem Sign.fits (sign : Sign) : (Piece.mark sign.char).Fits := by cases sign <;> simp [Sign.char, Piece.Fits]

theorem fits_signPieces (sign : Option Sign) : ∀ p ∈ signPieces sign, p.Fits ∧ p.isRead = true := by
  cases sign with
  | none => nofun
  | some sign => exact List.forall_mem_cons.mpr ⟨⟨sign.fits, rfl⟩, nofun⟩

theorem Operator.fits (op : Operator) (before after : Nat) : (Piece.between before op.char after).Fits := by
  cases op <;> simp [Operator.char, Piece.Fits]

theorem fits_parens : (Piece.mark '(').Fits ∧ (Piece.mark ')').Fits := ⟨by simp [Piece.Fits], by simp [Piece.Fits]⟩

theorem fits_comma (before after : Nat) : (Piece.between before ',' after).Fits := by simp [Piece.Fits]

/-- The plain pieces of a phrase fit, and with calls for powers they are read as tokens. -/
theorem Phrase.fits_plain (e : Phrase rank) (calls : Bool) :
    ∀ p ∈ e.plain calls, p.Fits ∧ (calls = true → p.isRead = true) := by
  have hsign (sign : Option Sign) : ∀ p ∈ signPieces sign, p.Fits ∧ (calls = true → p.isRead = true) :=
    fun p hp => ⟨(fits_signPieces sign p hp).1, fun _ => (fits_signPieces sign p hp).2⟩
  induction e with
  | literal l comma => exact List.forall_mem_cons.mpr ⟨⟨trivial, fun _ => rfl⟩, nofun⟩
  | name x => exact List.forall_mem_cons.mpr ⟨⟨x.isWord.toLower, fun _ => rfl⟩, nofun⟩
  | call f argument ih =>
    simp only [Phrase.plain, List.forall_mem_append, List.forall_mem_cons]
    exact ⟨⟨⟨f.isWord.toLower, fun _ => rfl⟩, ih⟩, ⟨fits_parens.2, fun _ => rfl⟩, nofun⟩
  | callTwo f h first b a second ih₁ ih₂ =>
    simp only [Phrase.plain, List.forall_mem_append, List.forall_mem_cons]
    exact ⟨⟨⟨⟨f.isWord.toLower, fun _ => rfl⟩, ih₁⟩, ⟨fits_comma _ _, fun _ => rfl⟩, ih₂⟩,
      ⟨fits_parens.2, fun _ => rfl⟩, nofun⟩
  | group inner ih =>
    simp only [Phrase.plain, List.forall_mem_append, List.forall_mem_cons]
    exact ⟨⟨⟨fits_parens.1, fun _ => rfl⟩, ih⟩, ⟨fits_parens.2, fun _ => rfl⟩, nofun⟩
  | power base b s a sign exponent ih₁ ih₂ =>
    rw [Phrase.plain]
    split
    · have hpow : (Piece.callee ['p', 'o', 'w']).Fits := isWord_of_named? (by decide : (Function.named? "pow").isSome = true)
      simp only [List.forall_mem_append, List.forall_mem_cons]
      exact ⟨⟨⟨⟨⟨hpow, fun _ => rfl⟩, ih₁⟩, ⟨fits_comma _ _, fun _ => rfl⟩, hsign sign⟩, ih₂⟩,
        ⟨fits_parens.2, fun _ => rfl⟩, nofun⟩
    · next hcalls =>
      simp only [List.forall_mem_append, List.forall_mem_cons]
      exact ⟨⟨ih₁, ⟨trivial, fun h => absurd h hcalls⟩, hsign sign⟩, ih₂⟩
  | signed sign operand ih => exact List.forall_mem_cons.mpr ⟨⟨sign.fits, fun _ => rfl⟩, ih⟩
  | binary op left b a right ih₁ ih₂ =>
    simp only [Phrase.plain, List.forall_mem_append, List.forall_mem_cons]
    exact ⟨ih₁, ⟨op.fits _ _, fun _ => rfl⟩, ih₂⟩
  | weaken e ih => exact ih

@[simp] theorem Piece.plain_literal (l : Literal) (comma : Bool) : (Piece.literal l comma).plain = .literal l false := rfl

@[simp] theorem Piece.plain_word (cs : List Char) : (Piece.word cs).plain = .word (cs.map Char.toLower) := rfl

@[simp] theorem Piece.plain_callee (cs : List Char) : (Piece.callee cs).plain = .callee (cs.map Char.toLower) := rfl

@[simp] theorem Piece.plain_mark (c : Char) : (Piece.mark c).plain = .mark c := rfl

@[simp] theorem Piece.plain_between (b : Nat) (c : Char) (a : Nat) :
    (Piece.between b c a).plain = .between (min b 1) c (min a 1) := rfl

@[simp] theorem Piece.plain_caret (b : Nat) (s : Bool) (a : Nat) : (Piece.caret b s a).plain = .caret 0 false 0 := rfl

@[simp] theorem map_plain_signPieces (sign : Option Sign) : (signPieces sign).map Piece.plain = signPieces sign := by
  cases sign <;> rfl

/-- The pieces of a phrase are left by the stages as `plain` has them. -/
theorem Phrase.map_plain_pieces (e : Phrase rank) (inTwo : Bool) : (e.pieces inTwo).map Piece.plain = e.plain false := by
  induction e generalizing inTwo with
  | literal l comma => rfl
  | name x => rfl
  | call f argument ih => simp [Phrase.pieces, Phrase.plain, ih]
  | callTwo f h first b a second ih₁ ih₂ => simp [Phrase.pieces, Phrase.plain, ih₁, ih₂]
  | group inner ih => simp [Phrase.pieces, Phrase.plain, ih]
  | power base b s a sign exponent ih₁ ih₂ => simp [Phrase.pieces, Phrase.plain, ih₁, ih₂]
  | signed sign operand ih => simp [Phrase.pieces, Phrase.plain, ih]
  | binary op left b a right ih₁ ih₂ => simp [Phrase.pieces, Phrase.plain, ih₁, ih₂]
  | weaken e ih => exact ih inTwo

theorem Piece.fits_of_plain {p : Piece} (h : p.plain.Fits) : p.Fits := by
  cases p with
  | word cs => exact isWord_of_toLower h
  | callee cs => exact isWord_of_toLower h
  | _ => exact h

theorem Phrase.fits_pieces (e : Phrase rank) (inTwo : Bool) : ∀ p ∈ e.pieces inTwo, p.Fits := by
  intro p hp
  have hplain : p.plain ∈ e.plain false := e.map_plain_pieces inTwo ▸ List.mem_map_of_mem hp
  exact Piece.fits_of_plain (e.fits_plain false _ hplain).1

theorem alternates_signPieces {sign : Option Sign} (h : Alternates true qs) : Alternates true (signPieces sign ++ qs) := by
  rcases sign with - | - | -
  · exact h
  · exact ⟨rfl, h⟩
  · exact ⟨rfl, h⟩

/-- Operators stand between operands. -/
theorem Phrase.alternates_plain (e : Phrase rank) (calls : Bool) (h : Alternates false qs) :
    Alternates true (e.plain calls ++ qs) := by
  have hclose {qs} (h : Alternates false qs) : Alternates false (.mark ')' :: qs) := ⟨rfl, h⟩
  induction e generalizing qs with
  | literal l comma => exact ⟨rfl, h⟩
  | name x => exact ⟨rfl, h⟩
  | call f argument ih =>
    simp only [Phrase.plain, List.cons_append, List.append_assoc, List.nil_append]
    exact ⟨rfl, ih (hclose h)⟩
  | callTwo f h' first b a second ih₁ ih₂ =>
    simp only [Phrase.plain, List.cons_append, List.append_assoc, List.nil_append]
    exact ⟨rfl, ih₁ ⟨rfl, ih₂ (hclose h)⟩⟩
  | group inner ih =>
    simp only [Phrase.plain, List.cons_append, List.append_assoc, List.nil_append]
    exact ⟨rfl, ih (hclose h)⟩
  | power base b s a sign exponent ih₁ ih₂ =>
    cases calls with
    | true =>
      simp only [Phrase.plain, if_true, List.cons_append, List.append_assoc, List.nil_append]
      exact ⟨rfl, ih₁ ⟨rfl, alternates_signPieces (ih₂ (hclose h))⟩⟩
    | false =>
      simp only [Phrase.plain, Bool.false_eq_true, if_false, List.cons_append, List.append_assoc]
      exact ih₁ ⟨rfl, alternates_signPieces (ih₂ h)⟩
  | signed sign operand ih =>
    cases sign <;> exact ⟨rfl, ih h⟩
  | binary op left b a right ih₁ ih₂ =>
    simp only [Phrase.plain, List.cons_append, List.append_assoc]
    exact ih₁ ⟨rfl, ih₂ h⟩
  | weaken e ih => exact ih h

theorem Phrase.alternates_pieces (e : Phrase rank) (inTwo : Bool) : Alternates true (e.pieces inTwo) := by
  have h : Alternates true (e.plain false ++ []) := e.alternates_plain false rfl
  rw [List.append_nil, ← e.map_plain_pieces inTwo] at h
  refine (alternates_map fun p => ?_).mp h
  cases p <;> exact ⟨rfl, rfl⟩

theorem commasFit_signPieces {sign : Option Sign} (h : CommasFit groups qs) :
    CommasFit groups (signPieces sign ++ qs) := by
  rcases sign with - | - | -
  · exact h
  · exact h
  · exact h

/-- Commas stand where they are read as what they are. -/
theorem Phrase.commasFit_pieces (e : Phrase rank) (h : CommasFit groups qs) :
    CommasFit groups (e.pieces (groups.headD false) ++ qs) := by
  induction e generalizing groups qs with
  | literal l comma =>
    refine ⟨fun hcomma => ?_, h⟩
    rw [Bool.and_eq_true, Bool.not_eq_true'] at hcomma
    exact hcomma.2
  | name x => exact h
  | call f argument ih =>
    simp only [Phrase.pieces, List.cons_append, List.append_assoc, List.nil_append, CommasFit]
    exact ih h
  | callTwo f htwo first b a second ih₁ ih₂ =>
    simp only [Phrase.pieces, List.cons_append, List.append_assoc, List.nil_append, CommasFit]
    have htrue : Function.takesTwo (.ofList (f.text.map Char.toLower)) = true := htwo
    rw [htrue]
    exact ih₁ ⟨fun _ => rfl, ih₂ h⟩
  | group inner ih =>
    simp only [Phrase.pieces, List.cons_append, List.append_assoc, List.nil_append, CommasFit]
    exact ih h
  | power base b s a sign exponent ih₁ ih₂ =>
    simp only [Phrase.pieces, List.cons_append, List.append_assoc]
    exact ih₁ (commasFit_signPieces (ih₂ h))
  | signed sign operand ih => cases sign <;> exact ih h
  | binary op left b a right ih₁ ih₂ =>
    simp only [Phrase.pieces, List.cons_append, List.append_assoc]
    refine ih₁ ⟨fun hcomma => ?_, ih₂ h⟩
    cases op <;> cases hcomma
  | weaken e ih => exact ih h

end Pieces

/-! ### Operands -/

section Operands

variable {rank : Nat} {cs xs start after : List Char} {ps : List Piece}

theorem textOf_callee : textOf (.callee cs :: ps ++ [.mark ')']) = cs ++ enclosed (textOf ps) := by
  simp [textOf, Piece.text, enclosed]

theorem textOf_parens : textOf (.mark '(' :: ps ++ [.mark ')']) = enclosed (textOf ps) := by
  simp [textOf, Piece.text, enclosed]

theorem textOf_callTwo {f : FunctionName} (h : f.takesTwo = true) (first : Phrase 0) (b a : Nat) (second : Phrase 0)
    (calls : Bool) :
    textOf ((Phrase.callTwo f h first b a second).plain calls) = f.text.map Char.toLower ++
      enclosed (textOf (first.plain calls) ++
        (Piece.gap (min b 1) ++ ',' :: (Piece.gap (min a 1) ++ textOf (second.plain calls)))) := by
  simp [Phrase.plain, textOf, Piece.text, enclosed]

theorem textOf_binary (op : Operator) (left : Phrase op.rank) (b a : Nat) (right : Phrase (op.rank + 1)) (calls : Bool) :
    textOf ((Phrase.binary op left b a right).plain calls) =
      textOf (left.plain calls) ++ (Piece.gap (min b 1) ++ op.char :: (Piece.gap (min a 1) ++ textOf (right.plain calls))) := by
  simp [Phrase.plain, textOf, Piece.text]

theorem textOf_power (base : Phrase 3) (b : Nat) (s : Bool) (a : Nat) (sign : Option Sign) (exponent : Phrase 4) :
    textOf ((Phrase.power base b s a sign exponent).plain false) =
      textOf (base.plain false) ++ '^' :: (textOf (signPieces sign) ++ textOf (exponent.plain false)) := by
  simp [Phrase.plain, textOf, Piece.text, Piece.gap]

theorem textOf_power_call (base : Phrase 3) (b : Nat) (s : Bool) (a : Nat) (sign : Option Sign) (exponent : Phrase 4) :
    textOf ((Phrase.power base b s a sign exponent).plain true) = 'p' :: ['o', 'w'] ++
      enclosed (textOf (base.plain true) ++ ',' :: (textOf (signPieces sign) ++ textOf (exponent.plain true))) := by
  simp [Phrase.plain, textOf, Piece.text, Piece.gap, enclosed]

theorem IsWord.forall_isNameChar (h : IsWord cs) : ∀ c ∈ cs, isNameChar c = true :=
  fun c hc => isNameChar_of_isWordChar (h.isWordChar c hc)

theorem Literal.forall_isNumberChar (l : Literal) : ∀ c ∈ l.text false, isNumberChar c = true := by
  intro c hc
  rcases Literal.mem_text hc with hc | rfl
  · exact isNumberChar_of_isDigit hc
  · decide

theorem Literal.text_ne_nil (l : Literal) (comma : Bool) : l.text comma ≠ [] :=
  Piece.text_ne_nil (p := .literal l comma) trivial

theorem balanced_of_not_mem (ho : '(' ∉ xs) (hc : ')' ∉ xs) : Balanced '(' ')' xs :=
  balanced_of_forall fun _ hmem => ⟨fun h => ho (h ▸ hmem), fun h => hc (h ▸ hmem)⟩

theorem balanced_between (b : Nat) {c : Char} (a : Nat) (h : c ≠ '(' ∧ c ≠ ')') :
    Balanced '(' ')' (Piece.between b c a).text := by
  refine balanced_of_not_mem ?_ ?_ <;> simp [Piece.text, Piece.gap, h.1.symm, h.2.symm]

theorem balanced_arguments {first second : List Char} (b a : Nat) (h : Balanced '(' ')' first) (h' : Balanced '(' ')' second) :
    Balanced '(' ')' (first ++ ((Piece.between b ',' a).text ++ second)) :=
  h.append ((balanced_between b a (by decide)).append h')

theorem balanced_signPieces (sign : Option Sign) : Balanced '(' ')' (textOf (signPieces sign)) := by
  rcases sign with - | - | - <;> exact balanced_of_not_mem (by decide) (by decide)

/-- Groups are closed where they are opened. -/
theorem Phrase.balanced (e : Phrase rank) (calls : Bool) : Balanced '(' ')' (textOf (e.plain calls)) := by
  have hword {cs : List Char} (h : IsWord cs) : Balanced '(' ')' (cs.map Char.toLower) :=
    balanced_name h.toLower.forall_isNameChar
  induction e with
  | literal l comma =>
    rw [Phrase.plain, textOf, List.flatMap_singleton]
    exact balanced_literal l.forall_isNumberChar
  | name x =>
    rw [Phrase.plain, textOf, List.flatMap_singleton]
    exact hword x.isWord
  | call f argument ih =>
    rw [Phrase.plain, textOf_callee]
    exact (hword f.isWord).append ih.enclosed
  | callTwo f h first b a second ih₁ ih₂ =>
    rw [Phrase.plain, List.cons_append, textOf_callee, textOf_append, textOf_cons]
    exact (hword f.isWord).append (balanced_arguments _ _ ih₁ ih₂).enclosed
  | group inner ih =>
    rw [Phrase.plain, textOf_parens]
    exact ih.enclosed
  | power base b s a sign exponent ih₁ ih₂ =>
    cases calls with
    | true =>
      rw [textOf_power_call]
      exact (balanced_of_not_mem (by decide) (by decide)).append
        (ih₁.append (.plain (by decide) (by decide) ((balanced_signPieces sign).append ih₂))).enclosed
    | false =>
      rw [textOf_power]
      exact ih₁.append (.plain (by decide) (by decide) ((balanced_signPieces sign).append ih₂))
  | signed sign operand ih =>
    rw [Phrase.plain, textOf_cons]
    cases sign <;> exact .plain (by decide) (by decide) ih
  | binary op left b a right ih₁ ih₂ =>
    rw [Phrase.plain, textOf_append, textOf_cons]
    exact ih₁.append ((balanced_between _ _ (by cases op <;> decide)).append ih₂)
  | weaken e ih => exact ih

theorem IsWord.exists_cons (h : IsWord cs) :
    ∃ c name, cs.map Char.toLower = c :: name ∧ isAlphabetic c = true ∧ ∀ d ∈ name, isNameChar d = true := by
  obtain ⟨c, name, heq, hc, hname⟩ := h.toLower
  exact ⟨c, name, heq, by simp [isAlphabetic, hc], fun d hd => isNameChar_of_isWordChar (hname d hd)⟩

/-- A name does not end in a digit, so its last character could start one. -/
theorem BareName.exists_concat (x : BareName) :
    ∃ name c, x.text.map Char.toLower = name ++ [c] ∧ isNameStart c = true ∧ ∀ d ∈ name, isNameChar d = true := by
  obtain ⟨c, ds, heq, -⟩ := x.isWord
  obtain ⟨name, d, hconcat⟩ : ∃ name d, x.text = name ++ [d] := by
    rcases List.eq_nil_or_concat x.text with hnil | ⟨name, d, hd⟩
    · rw [hnil] at heq
      cases heq
    · exact ⟨name, d, by simpa using hd⟩
  have hword := x.isWord.isWordChar
  have hdigit := x.isDigit_getLast?
  rw [hconcat, List.getLast?_concat, Option.any_some] at hdigit
  rw [hconcat] at hword
  refine ⟨name.map Char.toLower, d.toLower, by simp [hconcat], ?_, fun e he => ?_⟩
  · have hd := hword d (List.mem_append_right _ List.mem_cons_self)
    simp only [isWordChar, Char.isAlphanum, hdigit, Bool.or_false, Bool.or_eq_true, beq_iff_eq] at hd
    rcases hd with hd | rfl
    · exact isNameStart_of_isAlphabetic (by simp [isAlphabetic, Char.isAlpha_toLower_eq_isAlpha, hd])
    · decide
  · obtain ⟨c, hc, rfl⟩ := List.mem_map.mp he
    exact isNameChar_of_isWordChar (isWordChar_toLower (hword c (List.mem_append_left _ hc)))

/-- Phrases that bind as tightly as powers are left operands once their powers are calls. -/
theorem Phrase.isLeftOperand (e : Phrase rank) (hrank : 3 ≤ rank) (hstart : StartsOutside isOperandChar start) :
    IsLeftOperand start (textOf (e.plain true)) := by
  have hends : EndsOutsideName start := by
    have := @takeWhile_append_of_startsOutside start [] _ hstart.name
    rw [List.nil_append] at this
    rw [EndsOutsideName, this]
    rfl
  induction e with
  | literal l comma =>
    rw [Phrase.plain, textOf, List.flatMap_singleton]
    exact .literal (l.text_ne_nil false) l.forall_isNumberChar hstart.number
  | name x =>
    obtain ⟨name, c, heq, hc, hname⟩ := x.exists_concat
    rw [Phrase.plain, textOf, List.flatMap_singleton, Piece.text, heq]
    exact .name hname hc hstart.name
  | call f argument ih =>
    obtain ⟨c, name, heq, hc, hname⟩ := f.isWord.exists_cons
    rw [Phrase.plain, textOf_callee, heq]
    exact .call hc hname (argument.balanced true) hstart.name
  | callTwo f h first b a second ih₁ ih₂ =>
    obtain ⟨c, name, heq, hc, hname⟩ := f.isWord.exists_cons
    rw [Phrase.plain, List.cons_append, textOf_callee, heq, textOf_append, textOf_cons]
    exact .call hc hname (balanced_arguments _ _ (first.balanced true) (second.balanced true)) hstart.name
  | group inner ih =>
    rw [Phrase.plain, textOf_parens]
    exact .group (inner.balanced true) hends
  | power base b s a sign exponent ih₁ ih₂ =>
    have hname : ∀ c ∈ ['o', 'w'], isNameChar c = true :=
      List.forall_mem_cons.mpr ⟨by decide, List.forall_mem_cons.mpr ⟨by decide, List.forall_mem_nil _⟩⟩
    have hsigned := (balanced_signPieces sign).append (exponent.balanced true)
    rw [textOf_power_call]
    exact .call (by decide) hname ((base.balanced true).append (.plain (by decide) (by decide) hsigned)) hstart.name
  | signed sign operand ih => omega
  | binary op left b a right ih₁ ih₂ => cases op <;> simp [Operator.rank] at hrank
  | weaken e ih => exact ih (by omega)

/-- Primaries are right operands, perhaps with powers in their groups. -/
theorem Phrase.isUnsignedOperand (e : Phrase rank) (hrank : 4 ≤ rank) (hafter : StartsOutside isOperandChar after)
    (hopen : after.head? ≠ some '(') : IsUnsignedOperand after (textOf (e.plain false)) := by
  induction e with
  | literal l comma =>
    rw [Phrase.plain, textOf, List.flatMap_singleton]
    exact .literal (l.text_ne_nil false) l.forall_isNumberChar hafter.number
  | name x =>
    obtain ⟨c, name, heq, hc, hname⟩ := x.isWord.exists_cons
    rw [Phrase.plain, textOf, List.flatMap_singleton, Piece.text, heq]
    exact .name (isNameStart_of_isAlphabetic hc) hname hafter.name hopen
  | call f argument ih =>
    obtain ⟨c, name, heq, hc, hname⟩ := f.isWord.exists_cons
    rw [Phrase.plain, textOf_callee, heq]
    exact .call (isNameStart_of_isAlphabetic hc) hname (argument.balanced false)
  | callTwo f h first b a second ih₁ ih₂ =>
    obtain ⟨c, name, heq, hc, hname⟩ := f.isWord.exists_cons
    rw [Phrase.plain, List.cons_append, textOf_callee, heq, textOf_append, textOf_cons]
    exact .call (isNameStart_of_isAlphabetic hc) hname
      (balanced_arguments _ _ (first.balanced false) (second.balanced false))
  | group inner ih =>
    rw [Phrase.plain, textOf_parens]
    exact .group (inner.balanced false)
  | power base b s a sign exponent ih₁ ih₂ => omega
  | signed sign operand ih => omega
  | binary op left b a right ih₁ ih₂ => cases op <;> simp [Operator.rank] at hrank
  | weaken e ih => exact ih (by omega)

end Operands

/-! ### Passes -/

section Passes

variable {rank n n' : Nat} {c : Char} {left after xs ys xs' ys' : List Char}

theorem Phrase.not_mem_caret (e : Phrase rank) : '^' ∉ textOf (e.plain true) := by
  intro hmem
  obtain ⟨p, hp, hmem⟩ := List.mem_flatMap.mp hmem
  obtain ⟨hfits, hread⟩ := e.fits_plain true p hp
  exact Piece.not_mem_caret hfits (hread rfl) hmem

/-- A text that a phrase may follow. -/
structure IsBefore (left : List Char) : Prop where
  not_mem_caret : '^' ∉ left
  startsOutside : StartsOutside isOperandChar left.reverse

/-- A text that may follow a phrase. -/
structure IsAfter (after : List Char) : Prop where
  startsOutside : StartsOutside isOperandChar after
  ne_open : after.head? ≠ some '('

theorem isBefore_gap (n : Nat) (hleft : '^' ∉ left) (hc : isOperandChar c = false) (hcaret : '^' ≠ c) :
    IsBefore (left ++ c :: Piece.gap n) := by
  have hreverse : (left ++ c :: Piece.gap n).reverse = Piece.gap n ++ c :: left.reverse := by simp [Piece.gap]
  refine ⟨by simp [hleft, hcaret, Piece.gap], ?_⟩
  rw [hreverse]
  exact startsOutside_gap n hc

theorem isBefore_sign (sign : Sign) (hleft : '^' ∉ left) : IsBefore (left ++ [sign.char]) := by
  cases sign <;> exact isBefore_gap 0 hleft (by decide) (by decide)

theorem isBefore_signPieces (sign : Option Sign) (hleft : '^' ∉ left) :
    IsBefore (left ++ ',' :: textOf (signPieces sign)) := by
  cases sign with
  | none => exact isBefore_gap 0 hleft (by decide) (by decide)
  | some sign =>
    have hcomma : '^' ∉ left ++ [','] := by simp [hleft]
    simpa [signPieces, textOf, Piece.text] using isBefore_sign sign hcomma

theorem isAfter_gap (n : Nat) (hc : isOperandChar c = false) (hopen : c ≠ '(') : IsAfter (Piece.gap n ++ c :: after) :=
  ⟨startsOutside_gap n hc, head?_gap_ne n hopen (by decide)⟩

theorem isAfter_close : IsAfter (')' :: after) := isAfter_gap 0 (by decide) (by decide)

/-- A number of passes turns one text into the other, whatever stands around it. -/
def TurnsInto (n : Nat) (xs ys : List Char) : Prop :=
  ∀ (passes : Nat) {left after : List Char}, IsBefore left → IsAfter after →
    replacePasses (passes + n) (left ++ (xs ++ after)) = replacePasses passes (left ++ (ys ++ after))

theorem turnsInto_zero (xs : List Char) : TurnsInto 0 xs xs := fun _ _ _ _ _ => rfl

theorem TurnsInto.group {name : List Char} (h : TurnsInto n xs ys) (hname : '^' ∉ name) :
    TurnsInto n (name ++ enclosed xs) (name ++ enclosed ys) := by
  intro passes left after hleft _
  have hopened : IsBefore (left ++ name ++ ['(']) :=
    isBefore_gap 0 (by simp [hleft.not_mem_caret, hname]) (by decide) (by decide)
  simpa [enclosed] using h passes hopened (@isAfter_close after)

theorem TurnsInto.signed (h : TurnsInto n xs ys) (sign : Sign) : TurnsInto n (sign.char :: xs) (sign.char :: ys) := by
  intro passes left after hleft hafter
  simpa using h passes (isBefore_sign sign hleft.not_mem_caret) hafter

/-- Of two texts with a sign between them the first one is turned first. -/
theorem TurnsInto.between (h : TurnsInto n xs ys) (h' : TurnsInto n' xs' ys') (hys : '^' ∉ ys) (b : Nat) (hc : IsBetween c)
    (a : Nat) :
    TurnsInto (n + n') (xs ++ (Piece.gap b ++ c :: (Piece.gap a ++ xs'))) (ys ++ (Piece.gap b ++ c :: (Piece.gap a ++ ys'))) := by
  intro passes left after hleft hafter
  have hfirst := h (passes + n') hleft
    (@isAfter_gap _ (Piece.gap a ++ (xs' ++ after)) b hc.isOperandChar hc.ne_paren.1)
  have hbefore : IsBefore (left ++ (ys ++ Piece.gap b) ++ c :: Piece.gap a) :=
    isBefore_gap _ (by simp [hleft.not_mem_caret, hys, Piece.gap]) hc.isOperandChar hc.ne_caret.symm
  have hsecond := h' passes hbefore hafter
  have hsum : passes + (n + n') = passes + n' + n := by omega
  simp only [List.append_assoc, List.cons_append] at hfirst hsecond ⊢
  rw [hsum, hfirst, hsecond]

/-- One pass makes a power a call, if its left operand has no power sign. -/
theorem replacePasses_power {sign : Option Sign} {base right : List Char} {passes : Nat} (hleft : IsBefore left)
    (hbase : IsLeftOperand left.reverse base) (hcaret : '^' ∉ base) (hright : IsUnsignedOperand after right) :
    replacePasses (passes + 1) (left ++ (base ++ '^' :: (textOf (signPieces sign) ++ (right ++ after)))) =
      replacePasses passes
        (left ++ ('p' :: 'o' :: 'w' :: '(' :: (base ++ ',' :: (textOf (signPieces sign) ++ (right ++ ')' :: after))))) := by
  have hsigned : IsRightOperand after (textOf (signPieces sign) ++ right) := by
    rcases sign with - | - | -
    · exact .unsigned hright
    · exact .signed (.inr rfl) hright
    · exact .signed (.inl rfl) hright
  have hbefore : '^' ∉ base.reverse ++ left.reverse := by simp [hcaret, hleft.not_mem_caret]
  have hpower := replacePower_eq_ok_iff.mpr
    ⟨left.reverse, base, textOf (signPieces sign) ++ right, after, rfl, hbase, rfl, hsigned, rfl⟩
  have hpass := @replacePasses_caret passes _ (textOf (signPieces sign) ++ right ++ after) hbefore
  rw [hpower] at hpass
  simpa using hpass

/-- **A power becomes a call**: its base is turned first, then the power, then the exponent, which by now is in the call. -/
theorem TurnsInto.power (h : TurnsInto n xs ys) (h' : TurnsInto n' xs' ys') (hys : '^' ∉ ys) (sign : Option Sign)
    (hbase : ∀ start, StartsOutside isOperandChar start → IsLeftOperand start ys)
    (hexponent : ∀ after, IsAfter after → IsUnsignedOperand after xs') :
    TurnsInto (n + 1 + n') (xs ++ '^' :: (textOf (signPieces sign) ++ xs'))
      ('p' :: ['o', 'w'] ++ enclosed (ys ++ ',' :: (textOf (signPieces sign) ++ ys'))) := by
  intro passes left after hleft hafter
  have hfirst := h (passes + n' + 1) hleft
    (@isAfter_gap _ (textOf (signPieces sign) ++ (xs' ++ after)) 0 (by decide : isOperandChar '^' = false) (by decide))
  have hpower := @replacePasses_power _ _ sign _ _ (passes + n') hleft (hbase _ hleft.startsOutside) hys (hexponent _ hafter)
  have hcalled : '^' ∉ left ++ 'p' :: 'o' :: 'w' :: '(' :: ys := by simp [hleft.not_mem_caret, hys]
  have hsecond := h' passes (isBefore_signPieces sign hcalled) (@isAfter_close after)
  have hsum : passes + (n + 1 + n') = passes + n' + 1 + n := by omega
  simp only [enclosed, Piece.gap, List.replicate_zero, List.append_assoc, List.cons_append, List.nil_append]
    at hfirst hpower hsecond ⊢
  rw [hsum, hfirst, hpower, hsecond]

/-- **The passes** turn the powers of a phrase to calls, one pass for each. -/
theorem Phrase.turnsInto_plain (e : Phrase rank) : TurnsInto e.powers (textOf (e.plain false)) (textOf (e.plain true)) := by
  have hword {cs : List Char} (h : IsWord cs) : '^' ∉ cs.map Char.toLower := fun hmem =>
    absurd (h.toLower.forall_isNameChar _ hmem) (by decide)
  induction e with
  | literal l comma => exact turnsInto_zero _
  | name x => exact turnsInto_zero _
  | call f argument ih =>
    rw [Phrase.plain, Phrase.plain, textOf_callee, textOf_callee]
    exact ih.group (hword f.isWord)
  | callTwo f h first b a second ih₁ ih₂ =>
    rw [textOf_callTwo, textOf_callTwo]
    exact (ih₁.between ih₂ first.not_mem_caret _ (fits_comma b a).isBetween _).group (hword f.isWord)
  | group inner ih =>
    rw [Phrase.plain, Phrase.plain, textOf_parens, textOf_parens]
    exact @TurnsInto.group _ _ _ [] ih List.not_mem_nil
  | power base b s a sign exponent ih₁ ih₂ =>
    rw [textOf_power, textOf_power_call]
    exact ih₁.power ih₂ base.not_mem_caret sign (fun _ => base.isLeftOperand (Nat.le_refl 3))
      fun _ hafter => exponent.isUnsignedOperand (Nat.le_refl 4) hafter.startsOutside hafter.ne_open
  | signed sign operand ih =>
    rw [Phrase.plain, Phrase.plain, textOf_cons, textOf_cons]
    exact ih.signed sign
  | binary op left b a right ih₁ ih₂ =>
    rw [textOf_binary, textOf_binary]
    exact ih₁.between ih₂ left.not_mem_caret _ (op.fits b a).isBetween _
  | weaken e ih => exact ih

end Passes

end Numerics.Formula
