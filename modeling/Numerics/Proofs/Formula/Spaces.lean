import Numerics.Proofs.Formula.PowerReading
import Numerics.Proofs.Formula.SpacedStages
import Numerics.Proofs.Formula.Surface

/-!
# Spaces between tokens

A space between two surface tokens, neither of them a comma, changes neither whether the text is a formula nor its program,
unless it parts what a stage looks for side by side (`program_space`): a name and the parenthesis of its arguments, where the
function takes two and a comma between digits separates them, or where the call is an operand of a power; the sign of an exponent
and the exponent; or letters on the two sides of a power sign whose small forms depend on each other.
-/

namespace Numerics.Formula

open Text Decimal

/-- No blank stands where the texts meet. -/
def Touch (before after : List Char) : Prop :=
  (∀ c ∈ before.getLast?, isBlank c = false) ∧ ∀ c ∈ after.head?, isBlank c = false

/-- The text in which powers are replaced. -/
def tightText (cs : List Char) : List Char := tightenCarets false (plainText cs)

/-- A space between the texts parts what the stages look for side by side. -/
inductive Parts (before after : List Char) : Prop where
  /-- The name of a function that takes two arguments and their parenthesis, with a comma between two digits directly among the
  arguments: after the space it becomes a decimal point. -/
  | twoArguments {ts : List (List Char)} {name inner rest : List Char} : surface before = ts ++ [name] → IsName name →
      opensTwoArguments (tightText before).reverse = true → after = '(' :: (inner ++ ',' :: rest) → Balanced '(' ')' inner →
      inner.getLast?.any Char.isDigit = true → rest.head?.any Char.isDigit = true → Parts before after
  /-- A name and the parenthesis of its arguments, where the call is an operand of a power. -/
  | operand {ts : List (List Char)} {name rest : List Char} : surface before = ts ++ [name] → IsName name →
      after.head? = some '(' → tightText (before ++ after) = tightText before ++ rest →
      IsPowerOperand (tightText before).reverse rest → Parts before after
  /-- The sign of an exponent and the exponent. -/
  | exponent {ts : List (List Char)} {power : List Char} {sign : Char} : surface before = ts ++ [power, [sign]] →
      IsPowerSign power → sign = '-' ∨ sign = '+' → Parts before after
  /-- Letters whose small forms depend on each other, next to a power sign. -/
  | letters : before.getLast? = some '^' ∨ after.head? = some '^' →
      lowerCase (before ++ after) ≠ lowerCase before ++ lowerCase after → Parts before after

/-! ### Small letters at the ends of a text -/

section Letters

variable {c d : Char} {us vs before after : List Char}

/-- A character keeps its place in small letters, or a letter or mark takes it. -/
theorem mem_lowerAt (h : d ∈ lowerAt before c after) : d = c ∨ isNameChar d = true ∨ d = '\u0307' := by
  unfold lowerAt at h
  split at h
  · have : d = 'ς' ∨ d = 'σ' := by
      split at h
      · exact .inl (List.mem_singleton.mp h)
      · exact .inr (List.mem_singleton.mp h)
    rcases this with rfl | rfl <;> exact .inr (.inl (by decide +kernel))
  · split at h
    · have : d = 'i' ∨ d = '\u0307' := by simpa using h
      rcases this with rfl | rfl
      · exact .inr (.inl (by decide))
      · exact .inr (.inr rfl)
    · rw [List.mem_singleton.mp h]
      rcases @lowerChar_eq_or_isAlphabetic c with h | ⟨-, h⟩
      · exact .inl h
      · exact .inr (.inl (isNameChar_of_isNameStart (isNameStart_of_isAlphabetic h)))

theorem lowerAfter_concat (us : List Char) (c : Char) (before : List Char) :
    ∃ ws start, lowerAfter before (us ++ [c]) = ws ++ lowerAt start c [] := by
  induction us generalizing before with
  | nil => exact ⟨[], before, by simp [lowerAfter]⟩
  | cons a us ih =>
    obtain ⟨ws, start, h⟩ := ih (a :: before)
    exact ⟨lowerAt before a (us ++ [c]) ++ ws, start, by rw [List.cons_append, lowerAfter, h, List.append_assoc]⟩

/-- The character is a token by itself, or none. -/
def isSymbol (c : Char) : Bool := !isNameChar c && c != '\u0307'

/-- The last character in small letters: a symbol stays. -/
theorem lowerCase_concat (us : List Char) (c : Char) :
    ∃ ws c', lowerCase (us ++ [c]) = ws ++ [c'] ∧ (isSymbol c' = true → c' = c) ∧ (IsSmall c → c' = c) := by
  obtain ⟨ws, start, h⟩ := lowerAfter_concat us c []
  obtain ⟨xs, c', hc'⟩ := (List.eq_nil_or_concat' (lowerAt start c [])).resolve_left lowerAt_ne_nil
  refine ⟨ws ++ xs, c', by rw [lowerCase, h, hc', List.append_assoc], fun hsymbol => ?_, fun hsmall => ?_⟩
  · have hmem : c' ∈ lowerAt start c [] := hc' ▸ by simp
    simp only [isSymbol, Bool.and_eq_true, Bool.not_eq_true', bne_iff_ne] at hsymbol
    exact (mem_lowerAt hmem).resolve_right fun h => h.elim (fun h => by simp [hsymbol.1] at h) hsymbol.2
  · rw [lowerAt_of_isSmall hsmall] at hc'
    cases xs with
    | nil => exact (List.cons.inj hc').1.symm
    | cons x xs => simp at hc'

/-- The first character in small letters: a symbol stays. -/
theorem lowerCase_cons (c : Char) (vs : List Char) :
    ∃ c' ws, lowerCase (c :: vs) = c' :: ws ∧ (isSymbol c' = true → c' = c) ∧ (IsSmall c → c' = c) := by
  obtain ⟨c', xs, hc'⟩ := List.exists_cons_of_ne_nil (lowerAt_ne_nil : lowerAt [] c vs ≠ [])
  refine ⟨c', xs ++ lowerAfter [c] vs, by rw [lowerCase, lowerAfter, hc', List.cons_append], fun hsymbol => ?_, fun hsmall => ?_⟩
  · have hmem : c' ∈ lowerAt [] c vs := hc' ▸ List.mem_cons_self
    simp only [isSymbol, Bool.and_eq_true, Bool.not_eq_true', bne_iff_ne] at hsymbol
    exact (mem_lowerAt hmem).resolve_right fun h => h.elim (fun h => by simp [hsymbol.1] at h) hsymbol.2
  · rw [lowerAt_of_isSmall hsmall] at hc'
    exact (List.cons.inj hc').1.symm

end Letters

/-! ### What stands on the two sides of a place -/

section Sides

variable {callable : List Char → Bool} {s : Site} {c d : Char}

/-- Where an operand may follow a character that is no blank, it is a sign, a comma or an opening parenthesis. -/
theorem mem_openers_of_isFree (h : (s.next callable c).isFree = true) (hc : isBlank c = false) :
    c = ',' ∨ c ∈ '^' :: openers := by
  have hkind := describes_kindOf c
  rw [Site.next] at h
  generalize kindOf c = k at h hkind
  cases k with
  | blank =>
    rw [Kind.Describes, hc] at hkind
    cases hkind
  | opening => exact .inr (by rw [show c = '(' from hkind]; decide)
  | star => exact .inr (by rw [show c = '*' from hkind]; decide)
  | caret => exact .inr (by rw [show c = '^' from hkind]; decide)
  | sign => rcases hkind with rfl | rfl <;> exact .inr (by decide)
  | separator =>
    rcases hkind with rfl | rfl
    · exact .inr (by decide)
    · exact .inl rfl
  | _ => cases s <;> cases h

theorem next_ne_named (hc : isBlank c = false) (last : Char) (before : List Char) : s.next callable c ≠ .named last before := by
  have hkind := describes_kindOf c
  rw [Site.next]
  generalize kindOf c = k at hkind
  cases k with
  | blank =>
    rw [Kind.Describes, hc] at hkind
    cases hkind
  | opening =>
    cases s with
    | name _ _ =>
      simp only [Site.after]
      split <;> simp
    | named _ _ =>
      simp only [Site.after]
      split <;> simp
    | _ => simp [Site.after]
  | _ => cases s <;> simp [Site.after]

/-- After an operand a sign, a comma or a closing parenthesis follows, or operands meet, with a space between them or not. -/
theorem mem_closers_or_clash (hfree : s.isFree = false) (hnamed : ∀ last before, s ≠ .named last before)
    (hd : isBlank d = false) (hends : s.EndsBefore d) (hcall : ∀ last before, s = .name last before → d ≠ '(') :
    d = ',' ∨ d ∈ '^' :: closers ∨
      s.next callable d = .clash ∧ (s.next callable ' ').next callable d = .clash := by
  have hkind := describes_kindOf d
  have hspace : ∀ s : Site, s.next callable ' ' = s.after callable ' ' .blank := by
    intro s
    rw [Site.next, kindOf_of_isBlank isBlank_space]
  rw [hspace, Site.next, Site.next]
  cases hk : kindOf d with
  | blank =>
    rw [hk, Kind.Describes, hd] at hkind
    cases hkind
  | closing =>
    rw [hk] at hkind
    exact .inr (.inl (by rw [show d = ')' from hkind]; decide))
  | star =>
    rw [hk] at hkind
    exact .inr (.inl (by rw [show d = '*' from hkind]; decide))
  | caret =>
    rw [hk] at hkind
    exact .inr (.inl (by rw [show d = '^' from hkind]; decide))
  | sign =>
    rw [hk] at hkind
    rcases hkind with rfl | rfl <;> exact .inr (.inl (by decide))
  | separator =>
    rw [hk] at hkind
    rcases hkind with rfl | rfl
    · exact .inr (.inl (by decide))
    · exact .inl rfl
  | _ =>
    refine .inr (.inr ?_)
    cases s with
    | number =>
      rw [Site.EndsBefore, Bool.eq_false_iff, ne_eq, isNumberChar_iff, hk] at hends
      first | exact ⟨rfl, rfl⟩ | simp at hends
    | name last before =>
      rw [Site.EndsBefore, Bool.eq_false_iff, ne_eq, isNameChar_iff, hk] at hends
      first
      | exact ⟨rfl, rfl⟩
      | (rw [hk] at hkind; exact absurd hkind (hcall last before rfl))
      | simp at hends
    | named last before => exact absurd rfl (hnamed last before)
    | closed => exact ⟨rfl, rfl⟩
    | clash => exact ⟨rfl, rfl⟩
    | _ => cases hfree

end Sides

/-! ### Texts in small letters -/

section Small

variable {us vs cs : List Char} {c d : Char} {names : List String} {s : Site}

/-- Commas and blanks do not change where a text leads, but to a clash. -/
theorem alike_pointCommas (hc : isBlank c = false) :
    (scan (fun _ => true) .free (us ++ [c])).Alike (scan isFunctionName .free (pointCommas (collapseBlanks (us ++ [c])))) := by
  have hcollapse : scan (fun _ => true) .free (collapseBlanks (us ++ [c])) = scan (fun _ => true) .free (us ++ [c]) :=
    scan_collapseBlanks (by simpa using hc)
  rw [← hcollapse]
  exact @alike_pointCommasAfter isFunctionName .free .free [] (collapseBlanks (us ++ [c])) (.inl (.refl _)) (by simp)

/-- A text in small letters that comes to a clash is no formula, whatever follows. -/
theorem tightProgram?_eq_none_of_small (hc : isBlank c = false ∧ c ≠ ',')
    (hclash : scan isFunctionName .free (pointCommas (collapseBlanks (us ++ [c]))) = .clash) (vs : List Char) :
    tightProgram? names (tightenCarets false (powerText (us ++ c :: vs))) = none := by
  obtain ⟨ps, hleft, hps⟩ := pointCommas_append_cons hc us
  refine tightProgram?_eq_none_of_pointed ?_
  rw [hps, List.append_cons, ← hleft, scan_append, hclash, scan_clash]

/-- **A space between two tokens** of a text in small letters. -/
theorem tightProgram?_small (hc : isBlank c = false ∧ c ≠ ',') (hd : isBlank d = false ∧ d ≠ ',')
    (hloose : c ∈ '^' :: openers ∨ d ∈ '^' :: closers) (hs : s.Alike (scan (fun _ => true) .free (us ++ [c])))
    (hstar : s = .star → d ≠ '*') (hexponent : s ≠ .exponent) :
    tightProgram? names (tightenCarets false (powerText (us ++ c :: ' ' :: d :: vs))) =
      tightProgram? names (tightenCarets false (powerText (us ++ c :: d :: vs))) := by
  by_cases hclash : scan isFunctionName .free (pointCommas (collapseBlanks (us ++ [c]))) = .clash
  · rw [tightProgram?_eq_none_of_small hc hclash, tightProgram?_eq_none_of_small hc hclash]
  · have hshape := (hs.trans (alike_pointCommas hc.1)).resolve_left hclash
    refine tightProgram?_space hc hd hloose (fun hd h => ?_) hclash fun h => ?_
    · rw [h] at hshape
      cases s <;> first | exact hstar rfl hd | cases hshape
    · rw [h] at hshape
      cases s <;> first | exact hexponent rfl | cases hshape

/-- **A space before the arguments of a call** in a text in small letters. -/
theorem tightProgram?_small_call {last : Char} {start : List Char} (hc : isBlank c = false ∧ c ≠ ',')
    (hs : (Site.name last start).Alike (scan (fun _ => true) .free (us ++ [c])))
    (hcomma : opensTwoArguments (tightenCarets false (powerText (us ++ [c]))).reverse = true → hasArgumentComma 0 false vs = false)
    (hoperand : ∀ zs, tightenCarets false (powerText (us ++ c :: '(' :: vs)) = tightenCarets false (powerText (us ++ [c])) ++ zs →
      ¬ IsPowerOperand (tightenCarets false (powerText (us ++ [c]))).reverse zs) :
    tightProgram? names (tightenCarets false (powerText (us ++ c :: ' ' :: '(' :: vs))) =
      tightProgram? names (tightenCarets false (powerText (us ++ c :: '(' :: vs))) := by
  rcases hs.trans (alike_pointCommas hc.1) with hclash | hshape
  · rw [tightProgram?_eq_none_of_small hc hclash, tightProgram?_eq_none_of_small hc hclash]
  · cases hscan : scan isFunctionName .free (pointCommas (collapseBlanks (us ++ [c]))) with
    | name last start => exact tightProgram?_call hc hscan hcomma hoperand
    | _ =>
      rw [hscan] at hshape
      cases hshape

end Small

/-! ### Spaces -/

section Spaces

variable {before after us vs : List Char} {c d : Char} {names : List String}

theorem openers_neutral (h : c ∈ openers) : isNeutral c = true ∧ IsSmall c := by
  simp only [openers, List.mem_cons, List.not_mem_nil, or_false] at h
  rcases h with rfl | rfl | rfl | rfl | rfl <;> decide +kernel

theorem closers_neutral (h : c ∈ closers) : isNeutral c = true ∧ IsSmall c := by
  simp only [closers, List.mem_cons, List.not_mem_nil, or_false] at h
  rcases h with rfl | rfl | rfl | rfl | rfl <;> decide +kernel

/-- Small letters fall apart at a sign or a parenthesis, and at a power sign where they do not depend on each other. -/
theorem lowerCase_parts (hloose : c ∈ '^' :: openers ∨ d ∈ '^' :: closers)
    (hletters : c = '^' ∨ d = '^' → lowerCase (us ++ [c] ++ d :: vs) = lowerCase (us ++ [c]) ++ lowerCase (d :: vs)) :
    lowerCase (us ++ [c] ++ d :: vs) = lowerCase (us ++ [c]) ++ lowerCase (d :: vs) := by
  rcases hloose with h | h <;> rcases List.mem_cons.mp h with h | h
  · exact hletters (.inl h)
  · obtain ⟨hneutral, hsmall⟩ := openers_neutral h
    rw [List.append_assoc, List.singleton_append, lowerCase_append_neutral hneutral hsmall, lowerCase_append_neutral hneutral hsmall,
      List.append_assoc]
    rfl
  · exact hletters (.inr h)
  · obtain ⟨hneutral, hsmall⟩ := closers_neutral h
    have hright : lowerCase (d :: vs) = d :: lowerCase vs := @lowerCase_append_neutral d [] vs hneutral hsmall
    rw [lowerCase_append_neutral hneutral hsmall, hright]

theorem lowerCase_space (us vs : List Char) : lowerCase (us ++ ' ' :: vs) = lowerCase us ++ ' ' :: lowerCase vs :=
  lowerCase_append_neutral (neutral_of_isBlank isBlank_space).1 (neutral_of_isBlank isBlank_space).2

theorem isSymbol_of_isBlank (h : isBlank c = true) : isSymbol c = true := by
  have : c ≠ '̇' := by
    rintro rfl
    exact absurd h (by decide)
  simp [isSymbol, (outside_of_isBlank h).1, this]

theorem isBlank_eq_false_of_symbol {c' : Char} (hc : isBlank c = false ∧ c ≠ ',') (h : isSymbol c' = true → c' = c) :
    isBlank c' = false ∧ c' ≠ ',' := by
  constructor
  · rw [Bool.eq_false_iff]
    intro hblank
    rw [h (isSymbol_of_isBlank hblank), hc.1] at hblank
    cases hblank
  · rintro rfl
    exact hc.2 (h (by decide)).symm

/-- A space next to a sign, or to a parenthesis that does not start arguments. -/
theorem tightProgram?_of_loose (hc : isBlank c = false ∧ c ≠ ',') (hd : isBlank d = false ∧ d ≠ ',')
    (hloose : c ∈ '^' :: openers ∨ d ∈ '^' :: closers)
    (hletters : c = '^' ∨ d = '^' → lowerCase (us ++ [c] ++ d :: vs) = lowerCase (us ++ [c]) ++ lowerCase (d :: vs))
    (hstar : scan (fun _ => true) .free (us ++ [c]) = .star → d ≠ '*')
    (hexponent : scan (fun _ => true) .free (us ++ [c]) ≠ .exponent) :
    tightProgram? names (tightenCarets false (plainText (us ++ [c] ++ ' ' :: d :: vs))) =
      tightProgram? names (tightenCarets false (plainText (us ++ [c] ++ d :: vs))) := by
  obtain ⟨ws, c', hleft, hc', hsmallc⟩ := lowerCase_concat us c
  obtain ⟨d', zs, hright, hd', hsmalld⟩ := lowerCase_cons d vs
  have hcaret : IsSmall '^' := by decide +kernel
  have hloose' : c' ∈ '^' :: openers ∨ d' ∈ '^' :: closers := by
    refine hloose.imp (fun h => ?_) fun h => ?_
    · have hsmall : IsSmall c := (List.mem_cons.mp h).elim (fun h => h ▸ hcaret) fun h => (openers_neutral h).2
      rwa [hsmallc hsmall]
    · have hsmall : IsSmall d := (List.mem_cons.mp h).elim (fun h => h ▸ hcaret) fun h => (closers_neutral h).2
      rwa [hsmalld hsmall]
  have halike : (scan (fun _ => true) .free (us ++ [c])).Alike (scan (fun _ => true) .free (ws ++ [c'])) := by
    rw [← hleft]
    exact @alike_lowerAfter (fun _ => true) .free .free [] (us ++ [c]) (.refl _)
  have hstar' : scan (fun _ => true) .free (us ++ [c]) = .star → d' ≠ '*' := by
    rintro hs rfl
    exact hstar hs (hd' (by decide)).symm
  rw [plainText_eq_powerText, plainText_eq_powerText, lowerCase_space, lowerCase_parts hloose hletters, hleft, hright,
    List.append_assoc, List.append_assoc]
  exact tightProgram?_small (isBlank_eq_false_of_symbol hc hc') (isBlank_eq_false_of_symbol hd hd') hloose' halike hstar' hexponent

/-- A space before the arguments of a call that is no operand of a power, with no comma between digits if the function takes two. -/
theorem tightProgram?_of_call {last : Char} {start : List Char} (hc : isBlank c = false ∧ c ≠ ',')
    (hname : scan (fun _ => true) .free (us ++ [c]) = .name last start)
    (hcomma : opensTwoArguments (tightText (us ++ [c])).reverse = true → hasArgumentComma 0 false vs = false)
    (hoperand : ∀ zs, tightText (us ++ [c] ++ '(' :: vs) = tightText (us ++ [c]) ++ zs →
      ¬ IsPowerOperand (tightText (us ++ [c])).reverse zs) :
    tightProgram? names (tightText (us ++ [c] ++ ' ' :: '(' :: vs)) = tightProgram? names (tightText (us ++ [c] ++ '(' :: vs)) := by
  obtain ⟨ws, c', hleft, hc', -⟩ := lowerCase_concat us c
  have hneutral : isNeutral '(' = true ∧ IsSmall '(' := by decide +kernel
  have hsplit : ∀ us : List Char, lowerCase (us ++ '(' :: vs) = lowerCase us ++ '(' :: lowerCase vs :=
    fun us => lowerCase_append_neutral hneutral.1 hneutral.2
  have hopen : lowerCase ('(' :: vs) = '(' :: lowerCase vs := hsplit []
  have halike : (Site.name last start).Alike (scan (fun _ => true) .free (ws ++ [c'])) := by
    rw [← hleft, ← hname]
    exact @alike_lowerAfter (fun _ => true) .free .free [] (us ++ [c]) (.refl _)
  have hplain : tightText (us ++ [c] ++ '(' :: vs) = tightenCarets false (powerText (ws ++ c' :: '(' :: lowerCase vs)) := by
    rw [tightText, plainText_eq_powerText, hsplit, hleft, List.append_assoc, List.singleton_append]
  have hspaced : tightText (us ++ [c] ++ ' ' :: '(' :: vs) = tightenCarets false (powerText (ws ++ c' :: ' ' :: '(' :: lowerCase vs)) := by
    rw [tightText, plainText_eq_powerText, lowerCase_space, hopen, hleft, List.append_assoc, List.singleton_append]
  have hname : tightText (us ++ [c]) = tightenCarets false (powerText (ws ++ [c'])) := by
    rw [tightText, plainText_eq_powerText, hleft]
  rw [hname] at hcomma hoperand
  rw [hplain] at hoperand
  rw [hplain, hspaced]
  exact tightProgram?_small_call (isBlank_eq_false_of_symbol hc hc') halike (fun h => hasArgumentComma_lowerAfter.trans (hcomma h)) hoperand

theorem Parts.of_argumentComma {ts : List (List Char)} {name : List Char} (hts : surface before = ts ++ [name]) (hname : IsName name)
    (htwo : opensTwoArguments (tightText before).reverse = true) (hcomma : hasArgumentComma 0 false vs = true) :
    Parts before ('(' :: vs) := by
  obtain ⟨inner, rest, rfl, hinner, hlast, hrest⟩ := exists_argumentComma hcomma
  refine .twoArguments hts hname htwo rfl hinner ?_ hrest
  cases hdigit : inner.getLast? <;> rw [hdigit] at hlast
  · cases hlast
  · exact hlast

theorem IsGap.exists_ends (h : IsGap before after) (htouch : Touch before after) :
    ∃ us c d vs, before = us ++ [c] ∧ after = d :: vs ∧ (isBlank c = false ∧ c ≠ ',') ∧ isBlank d = false ∧ d ≠ ',' := by
  obtain ⟨t, ht, hlast⟩ := h.last
  obtain ⟨t', ht', hfirst⟩ := h.first
  have hbefore : before ≠ [] := by
    rintro rfl
    simp at ht
  have hafter : after ≠ [] := by
    rintro rfl
    simp at ht'
  obtain ⟨us, c, rfl⟩ := (List.eq_nil_or_concat' before).resolve_left hbefore
  obtain ⟨d, vs, rfl⟩ := List.exists_cons_of_ne_nil hafter
  refine ⟨us, c, d, vs, rfl, rfl, ⟨htouch.1 c (by simp), ?_⟩, htouch.2 d rfl, ?_⟩
  · rintro rfl
    rw [surface_concat_comma, List.getLast?_concat] at ht
    exact hlast (Option.some.inj ht).symm
  · rintro rfl
    rw [surface_symbol (by decide) (by simp)] at ht'
    exact hfirst (Option.some.inj ht').symm

/-- **Spaces between tokens.** A space between two surface tokens, neither of them a comma, changes neither whether the text is a
formula nor its program, unless it parts what a stage looks for side by side. -/
theorem program_space (names : List String) (hgap : IsGap before after) (hparts : Touch before after → ¬ Parts before after) :
    (compile (.ofList (before ++ ' ' :: after)) names).toOption.map Formula.program =
      (compile (.ofList (before ++ after)) names).toOption.map Formula.program := by
  by_cases htouch : Touch before after
  · replace hparts := hparts htouch
    obtain ⟨us, c, d, vs, rfl, rfl, hc, hd⟩ := hgap.exists_ends htouch
    obtain ⟨hends, hfits⟩ := @scan_surface (fun _ => true) .free d (us ++ [c]) vs [] rfl (by simp) trivial hgap.parts
    have hlast : scan (fun _ => true) .free (us ++ [c]) = (scan (fun _ => true) .free us).next (fun _ => true) c := by
      rw [scan_append, scan_cons, scan_nil]
    by_cases hcall : (∃ last start, scan (fun _ => true) .free (us ++ [c]) = .name last start) ∧ d = '('
    · obtain ⟨⟨last, start, hscan⟩, rfl⟩ := hcall
      rw [hscan] at hfits
      obtain ⟨ts, name, hts, hname⟩ := hfits
      rw [program_compile, program_compile, String.toList_ofList, String.toList_ofList]
      exact tightProgram?_of_call hc hscan (fun htwo => Bool.eq_false_iff.mpr fun h => hparts (.of_argumentComma hts hname htwo h))
        fun zs hzs h => hparts (.operand hts hname rfl hzs h)
    · have hsides : (c ∈ '^' :: openers ∨ d ∈ '^' :: closers) ∨
          (scan (fun _ => true) .free (us ++ [c])).next (fun _ => true) d = .clash ∧
            ((scan (fun _ => true) .free (us ++ [c])).next (fun _ => true) ' ').next (fun _ => true) d = .clash := by
        cases hfree : (scan (fun _ => true) .free (us ++ [c])).isFree with
        | true =>
          rw [hlast] at hfree
          exact .inl (.inl ((mem_openers_of_isFree hfree hc.1).resolve_left hc.2))
        | false =>
          have hnamed : ∀ last start, scan (fun _ => true) .free (us ++ [c]) ≠ .named last start :=
            fun last start => hlast ▸ next_ne_named hc.1 last start
          have hmeet := @mem_closers_or_clash (fun _ => true) _ _ hfree hnamed hd.1 hends fun last start h hd =>
            hcall ⟨⟨last, start, h⟩, hd⟩
          exact (hmeet.resolve_left hd.2).imp_left .inr
      rcases hsides with hloose | ⟨hmeet, hmeet'⟩
      · rw [program_compile, program_compile, String.toList_ofList, String.toList_ofList]
        refine tightProgram?_of_loose hc hd hloose (fun h => ?_) (fun hstar => ?_) fun hexponent => ?_
        · by_contra hletters
          exact hparts (.letters (by simpa using h) hletters)
        · rw [hstar] at hends
          exact hends
        · rw [hexponent] at hfits
          obtain ⟨ts, power, sign, hts, hpower, hsign⟩ := hfits
          exact hparts (.exponent hts hpower hsign)
      · have hclash : ∀ ds, scan (fun _ => true) .free (us ++ [c] ++ ds) = .clash →
            (compile (.ofList (us ++ [c] ++ ds)) names).toOption.map Formula.program = none :=
          fun ds h => program_eq_none_of_clash (by rw [String.toList_ofList, h])
        rw [hclash, hclash]
        · rw [scan_append, scan_cons, hmeet, scan_clash]
        · rw [scan_append, scan_cons, scan_cons, hmeet', scan_clash]
  · have hblank : (∃ b ∈ before.getLast?, isBlank b = true) ∨ ∃ b ∈ after.head?, isBlank b = true := by
      by_contra hnone
      rw [not_or] at hnone
      refine htouch ⟨fun c hc => ?_, fun c hc => ?_⟩
      · exact Bool.eq_false_iff.mpr fun h => hnone.1 ⟨c, hc, h⟩
      · exact Bool.eq_false_iff.mpr fun h => hnone.2 ⟨c, hc, h⟩
    rw [program_compile, program_compile, String.toList_ofList, String.toList_ofList, plainText, plainText,
      collapseBlanks_space hblank]

/-- The space that a power sign takes up. -/
theorem program_space_power :
    IsGap ['x'] ['^', '2'] ∧ (compile (.ofList (['x'] ++ ' ' :: ['^', '2'])) ["x"]).toOption.map Formula.program =
      (compile (.ofList (['x'] ++ ['^', '2'])) ["x"]).toOption.map Formula.program := by
  have htwo : surface ['2'] = [['2']] :=
    (@surface_literal '2' [] [] (by decide) (by simp) startsOutside_nil).trans (by rw [surface_nil])
  have hpower : surface ['^', '2'] = [['^'], ['2']] := by rw [surface_symbol (by decide) (by decide), htwo]
  have hname : ∀ rest, StartsOutside isNameChar rest → surface (['x'] ++ rest) = ['x'] :: surface rest :=
    fun rest => surface_word (by decide) (by simp)
  have hx : surface ['x'] = [['x']] := (hname [] startsOutside_nil).trans (by rw [surface_nil])
  have hgap : IsGap ['x'] ['^', '2'] := by
    refine ⟨?_, ⟨['x'], by rw [hx]; rfl, by decide⟩, ⟨['^'], by rw [hpower]; rfl, by decide⟩⟩
    rw [hx]
    exact hname _ (startsOutside_cons.mpr (by decide))
  refine ⟨hgap, program_space ["x"] hgap fun _ hparts => ?_⟩
  cases hparts with
  | twoArguments _ _ _ hopen _ _ _ => exact absurd (List.cons.inj hopen).1 (by decide)
  | operand _ _ hopen _ _ => exact absurd (Option.some.inj hopen) (by decide)
  | exponent h _ _ =>
    rw [hx] at h
    have := congrArg List.length h
    simp at this
  | letters _ h => exact h (by decide +kernel)

theorem isGap_max : IsGap ['m', 'a', 'x'] ['(', '1', ',', '5', ')'] := by
  have hfive : surface ['5', ')'] = [['5'], [')']] :=
    (@surface_literal '5' [] [')'] (by decide) (by simp) (startsOutside_cons.mpr (by decide))).trans
      (by rw [surface_symbol (by decide) (by decide), surface_nil])
  have hone : surface ['1', ',', '5', ')'] = [['1'], [','], ['5'], [')']] :=
    (@surface_literal '1' [] [',', '5', ')'] (by decide) (by simp) (startsOutside_cons.mpr (by decide))).trans
      (by rw [surface_symbol (by decide) (by decide), hfive])
  have hopen : surface ['(', '1', ',', '5', ')'] = [['('], ['1'], [','], ['5'], [')']] := by
    rw [surface_symbol (by decide) (by decide), hone]
  have hname : ∀ rest, StartsOutside isNameChar rest → surface (['m', 'a', 'x'] ++ rest) = ['m', 'a', 'x'] :: surface rest :=
    fun rest => surface_word (by decide) (by simp; decide)
  have hmax : surface ['m', 'a', 'x'] = [['m', 'a', 'x']] := (hname [] startsOutside_nil).trans (by rw [surface_nil])
  refine ⟨?_, ⟨['m', 'a', 'x'], by rw [hmax]; rfl, by decide⟩, ⟨['('], by rw [hopen]; rfl, by decide⟩⟩
  rw [hmax]
  exact hname _ (startsOutside_cons.mpr (by decide))

/-- A digit as a literal. -/
def digitLiteral (c : Char) (h : c.isDigit = true) : Literal := ⟨[c], [], List.cons_ne_nil _ _, by simpa using h⟩

/-- The tokens of `max(1,5)`, and the one literal that is left of the arguments after a space. -/
theorem tokens_max :
    tokens ['m', 'a', 'x', '(', '1', ',', '5', ')'] = .ok [.name "max", .openParen, .number (digitLiteral '1' rfl).value, .comma,
      .number (digitLiteral '5' rfl).value, .closeParen] ∧
    ∃ v, tokens ['m', 'a', 'x', ' ', '(', '1', '.', '5', ')'] = .ok [.name "max", .openParen, .number v, .closeParen] := by
  have hword : IsWord ['m', 'a', 'x'] := ⟨'m', ['a', 'x'], rfl, by decide, by simp; decide⟩
  have hclose : ∀ i, tokensFrom i [')'] = .ok [.closeParen] := by
    intro i
    rw [tokensFrom_sign rfl, tokensFrom]
    rfl
  have hname : ∀ {rest ts}, StartsOutside isNameChar rest → tokensFrom 3 rest = .ok ts →
      tokens (['m', 'a', 'x'] ++ rest) = .ok (.name "max" :: ts) := by
    intro rest ts hrest hts
    rw [tokens, tokensFrom_word hword hrest]
    show (tokensFrom 3 rest).map _ = _
    rw [hts]
    rfl
  constructor
  · have hfive : ∀ i, tokensFrom i ['5', ')'] = .ok [.number (digitLiteral '5' rfl).value, .closeParen] := by
      intro i
      refine (tokensFrom_literal (digitLiteral '5' rfl) (startsOutside_cons.mpr (by decide))).trans ?_
      rw [hclose]
      rfl
    have hone : ∀ i, tokensFrom i ['1', ',', '5', ')'] =
        .ok [.number (digitLiteral '1' rfl).value, .comma, .number (digitLiteral '5' rfl).value, .closeParen] := by
      intro i
      refine (tokensFrom_literal (digitLiteral '1' rfl) (startsOutside_cons.mpr (by decide))).trans ?_
      rw [tokensFrom_sign rfl, hfive]
      rfl
    refine hname (startsOutside_cons.mpr (by decide)) ?_
    rw [tokensFrom_sign rfl, hone]
    rfl
  · let l : Literal := ⟨['1'], ['5'], List.cons_ne_nil _ _, by simp⟩
    have hone : ∀ i, tokensFrom i ['1', '.', '5', ')'] = .ok [.number l.value, .closeParen] := by
      intro i
      refine (tokensFrom_literal l (startsOutside_cons.mpr (by decide))).trans ?_
      rw [hclose]
      rfl
    refine ⟨l.value, hname (startsOutside_cons.mpr (by decide)) ?_⟩
    rw [tokensFrom, if_pos isBlank_space, tokensFrom_sign rfl, hone]
    rfl

/-- After a space the comma of `max(1,5)` becomes a decimal point. -/
theorem compile_space_call : ¬ ∀ (before after : List Char) (names : List String), IsGap before after →
    (compile (.ofList (before ++ ' ' :: after)) names).toOption.map Formula.program =
      (compile (.ofList (before ++ after)) names).toOption.map Formula.program := by
  intro h
  have hsame := h _ _ [] isGap_max
  rw [program_compile, program_compile, String.toList_ofList, String.toList_ofList] at hsame
  have hspaced : tightenCarets false (plainText (['m', 'a', 'x'] ++ ' ' :: ['(', '1', ',', '5', ')'])) = ['m', 'a', 'x', ' ', '(', '1', '.', '5', ')'] := by
    decide +kernel
  have hplain : tightenCarets false (plainText (['m', 'a', 'x'] ++ ['(', '1', ',', '5', ')'])) = ['m', 'a', 'x', '(', '1', ',', '5', ')'] := by
    decide +kernel
  obtain ⟨htokens, v, htokens'⟩ := tokens_max
  rw [hspaced, hplain, tightProgram?, tightProgram?, maxPasses, replacePasses_of_not_mem (by decide), replacePasses_of_not_mem (by decide)] at hsame
  simp only [Except.toOption, Option.bind_eq_bind, Option.bind_some, htokens, htokens'] at hsame
  have hterm : ∀ w, IsExpression [.number w] (.number w) := fun w => .term (.unary (.primary (.number w)))
  have htree : Expr.ofTokens [.name "max", .openParen, .number v, .closeParen] = .ok (.call "max" [.number v]) :=
    ofTokens_iff.mpr (.term (.unary (.primary (.call "max" (.some (.one (hterm v)))))))
  have htree' : ∀ a b, Expr.ofTokens [.name "max", .openParen, .number a, .comma, .number b, .closeParen] =
      .ok (.call "max" [.number a, .number b]) := fun a b =>
    ofTokens_iff.mpr (.term (.unary (.primary (.call "max" (.some (.more (hterm a) (.one (hterm b))))))))
  rw [htree, htree'] at hsame
  cases hsame

end Spaces

end Numerics.Formula
