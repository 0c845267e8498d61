import Numerics.Formula.Basic
import Numerics.Proofs.Formula.Evaluation
import Numerics.Proofs.Formula.Grammar
import Numerics.Proofs.Formula.PlainText
import Numerics.Proofs.Formula.PowerCall
import Numerics.Proofs.Formula.Site
import Numerics.Proofs.Text.CaseContext

/-!
# Texts in which operands meet

No stage of the normal form parts operands that meet, or lets go of a character that stands in no token: where a text comes
to a clash, so does what the stage makes of it.  Tokens with a clash are no expression (`IsExpression.isOperand`), so
that a text with a clash is no formula (`program_eq_none_of_clash`).
-/

namespace Numerics.Formula

open Text

/-! ### Blanks and letters -/

section Blanks

variable {callable : List Char → Bool} {s s' : Site} {c : Char} {before cs : List Char}

theorem next_of_isBlank (h : isBlank c = true) : s.next callable c = s.next callable ' ' := by
  unfold Site.next
  rw [kindOf_of_isBlank h, kindOf_of_isBlank isBlank_space]
  cases s <;> rfl

theorem next_space_space : (s.next callable ' ').next callable ' ' = s.next callable ' ' := by
  unfold Site.next
  rw [kindOf_of_isBlank isBlank_space]
  cases s <;> rfl

theorem next_space_eq_clash_iff : s.next callable ' ' = .clash ↔ s = .clash := by
  unfold Site.next
  rw [kindOf_of_isBlank isBlank_space]
  cases s <;> simp [Site.after]

/-- The collapse of blanks keeps a clash. -/
theorem scan_squeeze_of_clash :
    (scan callable s cs = .clash → scan callable s (squeeze false cs) = .clash) ∧
      (scan callable (s.next callable ' ') cs = .clash → scan callable s (squeeze true cs) = .clash) := by
  induction cs generalizing s with
  | nil => exact ⟨id, next_space_eq_clash_iff.mp⟩
  | cons c cs ih =>
    simp only [squeeze, scan_cons]
    cases hc : isBlank c with
    | true =>
      rw [next_of_isBlank hc, next_of_isBlank hc, next_space_space]
      exact ⟨ih.2, ih.2⟩
    | false => exact ⟨ih.1, ih.1⟩

/-- A text that does not end in a blank leads to the same place with its blanks collapsed. -/
theorem scan_squeeze (h : ∀ c ∈ cs.getLast?, isBlank c = false) :
    scan callable s (squeeze false cs) = scan callable s cs ∧
      (cs ≠ [] → scan callable s (squeeze true cs) = scan callable (s.next callable ' ') cs) := by
  induction cs generalizing s with
  | nil => exact ⟨rfl, fun hne => absurd rfl hne⟩
  | cons c cs ih =>
    simp only [squeeze, scan_cons]
    cases hc : isBlank c with
    | true =>
      have hne : cs ≠ [] := by
        rintro rfl
        rw [h c rfl] at hc
        cases hc
      have hlast : ∀ d ∈ cs.getLast?, isBlank d = false := by rwa [List.getLast?_cons_of_ne_nil hne] at h
      rw [next_of_isBlank hc, next_of_isBlank hc, next_space_space]
      exact ⟨(ih hlast).2 hne, fun _ => (ih hlast).2 hne⟩
    | false =>
      have hlast : ∀ d ∈ cs.getLast?, isBlank d = false := by
        cases cs with
        | nil => simp
        | cons d ds => rwa [List.getLast?_cons_cons] at h
      exact ⟨(ih hlast).1, fun _ => (ih hlast).1⟩

theorem scan_dropWhile_isBlank : scan callable .free (cs.dropWhile isBlank) = scan callable .free cs := by
  induction cs with
  | nil => rfl
  | cons c cs ih =>
    rw [List.dropWhile_cons]
    cases hc : isBlank c with
    | true =>
      have : Site.free.next callable c = .free := by rw [Site.next, kindOf_of_isBlank hc]; rfl
      rw [scan_cons, this]
      exact ih
    | false => rfl

theorem kindOf_lowerChar : kindOf (lowerChar c) = kindOf c := by
  rcases @lowerChar_eq_or_isAlphabetic c with h | ⟨hc, hlower⟩
  · rw [h]
  · rw [kindOf_of_isNameStart (isNameStart_of_isAlphabetic hc), kindOf_of_isNameStart (isNameStart_of_isAlphabetic hlower)]

/-- Small letters stand where the letters do, but for the dot of `İ`, which stands in no token. -/
theorem alike_lowerAfter (h : s.Alike s') :
    (scan (fun _ => true) s cs).Alike (scan callable s' (lowerAfter before cs)) := by
  induction cs generalizing s s' before with
  | nil => exact h
  | cons c cs ih =>
    rw [scan_cons, lowerAfter, scan_append]
    refine ih ?_
    unfold lowerAt
    split
    · next hc =>
      subst hc
      split
      · exact h.next (by decide +kernel)
      · exact h.next (by decide +kernel)
    · split
      · refine .inl ?_
        have : kindOf '\u0307' = .foreign := by decide +kernel
        rw [scan_cons, scan_cons, scan_nil, Site.next, Site.next, this]
        generalize s'.after callable 'i' (kindOf 'i') = s''
        cases s'' <;> rfl
      · exact h.next kindOf_lowerChar.symm

end Blanks

/-! ### Commas and power signs -/

section Signs

variable {callable : List Char → Bool} {s s' : Site} {c : Char} {before cs : List Char}

theorem next_of_isDigit (h : c.isDigit = true) :
    s.next callable c = .number ∨ (∃ last name, s.next callable c = .name last name) ∨ s.next callable c = .clash := by
  rw [Site.next, kindOf_of_isDigit h]
  cases s <;> simp [Site.after]

/-- With points for decimal commas a text leads to the same place, but for a name that goes on with a point.  Right after
the comma of two numbers the number goes on. -/
theorem alike_pointCommasAfter
    (h : s.Alike s' ∨ s = .free ∧ (s' = .number ∨ s' = .clash) ∧ cs.head?.any Char.isDigit = true)
    (hdigit : before.head?.any Char.isDigit = true → s = .number ∨ (∃ last name, s = .name last name) ∨ s = .clash) :
    (scan (fun _ => true) s cs).Alike (scan callable s' (pointCommasAfter before (openGroups before) cs)) := by
  induction cs generalizing s s' before with
  | nil => exact h.resolve_right fun h => absurd h.2.2 (by simp)
  | cons c cs ih =>
    rw [pointCommasAfter_cons]
    rcases h with h | ⟨rfl, hs', hc⟩
    · by_cases hcomma : c = ',' ∧ isDecimalComma before cs = true
      · have hpointed : pointed before c cs = '.' := if_pos hcomma
        obtain ⟨rfl, hdecimal⟩ := hcomma
        simp only [isDecimalComma, Bool.and_eq_true] at hdecimal
        rw [hpointed, scan_cons, scan_cons]
        refine ih ?_ (by simp [Char.isDigit])
        rcases hdigit hdecimal.1.1 with rfl | ⟨last, name, rfl⟩ | rfl
        · refine .inr ⟨by decide, ?_, hdecimal.1.2⟩
          rcases h with rfl | h
          · exact .inr rfl
          · cases s' <;> cases h
            exact .inl (by rfl)
        · refine .inr ⟨by rfl, ?_, hdecimal.1.2⟩
          rcases h with rfl | h
          · exact .inr rfl
          · cases s' <;> cases h
            exact .inr (by rfl)
        · rw [h.clash]
          exact .inl (.refl _)
      · have hpointed : pointed before c cs = c := if_neg hcomma
        rw [hpointed, scan_cons, scan_cons]
        exact ih (.inl (h.next rfl)) fun hc => next_of_isDigit hc
    · have hc : c.isDigit = true := hc
      have hpointed : pointed before c cs = c := by
        refine if_neg fun h => ?_
        rw [h.1] at hc
        exact absurd hc (by decide)
      rw [hpointed, scan_cons, scan_cons]
      refine ih (.inl ?_) fun _ => next_of_isDigit hc
      have hnumber : Site.number.next callable c = .number := by rw [Site.next, kindOf_of_isDigit hc]; rfl
      have hfree : Site.free.next (fun _ => true) c = .number := by rw [Site.next, kindOf_of_isDigit hc]; rfl
      rw [hfree]
      rcases hs' with rfl | rfl
      · rw [hnumber]
        exact .refl _
      · exact .inl rfl

theorem eq_star_of_next (h : s.next callable c = .star) : c = '*' := by
  have hc := describes_kindOf c
  unfold Site.next at h
  generalize kindOf c = k at h hc
  cases k with
  | star => exact hc
  | opening => cases s <;> simp only [Site.after] at h <;> first | cases h | (split at h <;> cases h)
  | _ => cases s <;> cases h

/-- A power sign in place of two stars leads to the same place. -/
theorem scan_caretStars (h : s = .star → cs.head? ≠ some '*') :
    scan callable s (caretStars cs) = scan callable s cs := by
  fun_induction caretStars cs generalizing s with
  | case1 cs ih =>
    have hs : s ≠ .star := fun hs => h hs rfl
    have hpower : s.next callable '^' = (s.next callable '*').next callable '*' := by
      have hcaret : kindOf '^' = .caret := by decide
      have hstar : kindOf '*' = .star := by decide
      unfold Site.next
      rw [hcaret, hstar]
      cases s <;> first | rfl | exact absurd rfl hs
    rw [scan_cons, scan_cons, scan_cons, ← hpower]
    refine ih fun hstar => ?_
    exact absurd (eq_star_of_next hstar) (by decide)
  | case2 c cs hne ih =>
    rw [scan_cons, scan_cons]
    refine ih fun hstar => ?_
    obtain rfl := eq_star_of_next hstar
    intro hhead
    obtain ⟨ds, rfl⟩ := List.head?_eq_some_iff.mp hhead
    exact hne ds rfl rfl
  | case3 => rfl

theorem next_caret : s.next callable '^' = .power ∨ s.next callable '^' = .clash := by
  have hcaret : kindOf '^' = .caret := by decide
  rw [Site.next, hcaret]
  cases s <;> simp [Site.after]

/-- Without the spaces next to power signs a text leads to the same place. -/
theorem scan_tightenCarets {afterCaret : Bool} (h : afterCaret = true → s = .power ∨ s = .clash) :
    scan callable s (tightenCarets afterCaret cs) = scan callable s cs := by
  induction cs generalizing s afterCaret with
  | nil => rfl
  | cons c cs ih =>
    rw [tightenCarets]
    split
    · next hspace =>
      obtain ⟨rfl, hnext⟩ : c = ' ' ∧ (afterCaret = true ∨ cs.head? = some '^') := by simpa using hspace
      rw [ih h, scan_cons]
      rcases hnext with hafter | hhead
      · rcases h hafter with rfl | rfl <;> rfl
      · obtain ⟨ds, rfl⟩ := List.head?_eq_some_iff.mp hhead
        have hcaret : kindOf '^' = .caret := by decide
        have hsame : (s.next callable ' ').next callable '^' = s.next callable '^' := by
          unfold Site.next
          rw [hcaret, kindOf_of_isBlank isBlank_space]
          cases s <;> rfl
        rw [scan_cons, scan_cons, hsame]
    · rw [scan_cons, scan_cons]
      refine ih fun hc => ?_
      obtain rfl : c = '^' := by simpa using hc
      exact @next_caret callable s

end Signs

/-! ### Powers -/

/-- The characters, nearest first, are the name of a function. -/
def isFunctionName (before : List Char) : Bool := (Function.named? (.ofList before.reverse)).isSome

theorem names_ending_pow : ∀ f ∈ Function.all, ∀ name ∈ f.name :: f.aliases,
    ['w', 'o', 'p'].isPrefixOf name.toList.reverse = true → name = "pow" := by decide

/-- No other name that ends in `pow` is that of a function. -/
theorem isFunctionName_pow {before : List Char} (h : before ≠ []) : isFunctionName ('w' :: 'o' :: 'p' :: before) = false := by
  rw [Bool.eq_false_iff]
  intro hname
  obtain ⟨f, hf⟩ := Option.isSome_iff_exists.mp hname
  obtain ⟨hmem, hname⟩ := mem_names_of_named? hf
  have hpow := names_ending_pow f hmem _ hname (by simp)
  have := congrArg String.toList hpow
  rw [String.toList_ofList] at this
  have := congrArg List.length this
  simp at this
  exact h this

section Powers

variable {s : Site} {c : Char} {cs before after right rest replaced : List Char} {passes : Nat}

/-- A right operand ends in a character that ends operands. -/
theorem IsRightOperand.exists_concat (h : IsRightOperand rest right) :
    ∃ xs c, right = xs ++ [c] ∧ (isNameChar c = true ∨ isNumberChar c = true ∨ c = ')') := by
  have hunsigned : ∀ {xs}, IsUnsignedOperand rest xs →
      ∃ ys c, xs = ys ++ [c] ∧ (isNameChar c = true ∨ isNumberChar c = true ∨ c = ')') := by
    intro xs hxs
    cases hxs with
    | literal hne hall _ =>
      obtain ⟨ys, c, rfl⟩ := (List.eq_nil_or_concat' _).resolve_left hne
      exact ⟨ys, c, rfl, .inr (.inl (hall c (by simp)))⟩
    | @name c xs hc hall _ _ =>
      obtain ⟨ys, d, heq⟩ := (List.eq_nil_or_concat' (c :: xs)).resolve_left (List.cons_ne_nil _ _)
      have hd : d ∈ c :: xs := heq ▸ by simp
      refine ⟨ys, d, heq, .inl ?_⟩
      rcases List.mem_cons.mp hd with rfl | hd
      · exact isNameChar_of_isNameStart hc
      · exact hall d hd
    | @call c name inner _ _ _ => exact ⟨c :: name ++ '(' :: inner, ')', by simp [enclosed], .inr (.inr rfl)⟩
    | @group inner _ => exact ⟨'(' :: inner, ')', by simp [enclosed], .inr (.inr rfl)⟩
  cases h with
  | unsigned h => exact hunsigned h
  | @signed sign xs _ h =>
    obtain ⟨ys, c, rfl, hc⟩ := hunsigned h
    exact ⟨sign :: ys, c, rfl, hc⟩

/-- After a character that ends operands an operand is complete. -/
theorem isOperand_next {callable : List Char → Bool} (h : isNameChar c = true ∨ isNumberChar c = true ∨ c = ')') :
    (s.next callable c).isOperand = true ∨ s.next callable c = .clash := by
  have hkind : kindOf c = .digit ∨ kindOf c = .point ∨ kindOf c = .start ∨ kindOf c = .part ∨ kindOf c = .closing := by
    rcases h with h | h | rfl
    · rcases isNameChar_iff.mp h with h | h | h <;> simp [h]
    · rcases isNumberChar_iff.mp h with h | h <;> simp [h]
    · simp [show kindOf ')' = .closing by decide]
  unfold Site.next
  rcases hkind with h | h | h | h | h <;> rw [h] <;> cases s <;> simp [Site.after, Site.isOperand]

/-- What stands before an operand after `pow(`. -/
theorem scan_pow : scan isFunctionName s ['p', 'o', 'w', '('] = if s.isFree then .free else .clash := by
  have hp : kindOf 'p' = .start := by decide
  have ho : kindOf 'o' = .start := by decide
  have hw : kindOf 'w' = .start := by decide
  have hopen : kindOf '(' = .opening := by decide
  have hpow : isFunctionName ['w', 'o', 'p'] = true := by decide
  have hlong : ∀ last name, isFunctionName ('w' :: 'o' :: 'p' :: last :: name) = false :=
    fun last name => isFunctionName_pow (List.cons_ne_nil last name)
  simp only [scan_cons, scan_nil, Site.next, hp, ho, hw, hopen]
  cases s <;> simp [Site.after, Site.isFree, hpow, hlong]

/-- **One power.** The text with a call for its first power comes to a clash if it does. -/
theorem clash_replacePower (h : replacePower before after = .ok replaced)
    (hclash : scan isFunctionName .free (before.reverse ++ '^' :: after) = .clash) :
    scan isFunctionName .free replaced = .clash := by
  obtain ⟨start, left, right, rest, rfl, -, rfl, hright, rfl⟩ := replacePower_eq_ok_iff.mp h
  have hcall : start.reverse ++ ('p' :: 'o' :: 'w' :: '(' :: (left ++ ',' :: (right ++ ')' :: rest))) =
      start.reverse ++ (['p', 'o', 'w', '('] ++ (left ++ ',' :: (right ++ ')' :: rest))) := rfl
  simp only [List.reverse_append, List.reverse_reverse, scan_append, scan_cons] at hclash
  rw [hcall, scan_append, scan_append, scan_pow, scan_append, scan_cons, scan_append, scan_cons]
  generalize scan isFunctionName .free start.reverse = s at hclash ⊢
  cases hfree : s.isFree with
  | false => rw [if_neg Bool.false_ne_true, scan_clash, Site.next_clash, scan_clash, Site.next_clash, scan_clash]
  | true =>
    have hleft : (scan isFunctionName s left).AtMost (scan isFunctionName .free left) :=
      Site.AtMost.scan (.inr (.inr (.inl ⟨hfree, rfl⟩)))
    rw [if_pos rfl]
    generalize scan isFunctionName s left = s₁ at hclash hleft
    generalize scan isFunctionName .free left = s₁' at hleft ⊢
    have hmiddle : (s₁.next isFunctionName '^').AtMost (s₁'.next isFunctionName ',') := by
      have hcaret : kindOf '^' = .caret := by decide
      have hcomma : kindOf ',' = .separator := by decide
      rw [Site.next, Site.next, hcaret, hcomma]
      by_cases hs₁' : s₁' = .clash
      · exact .inl (by rw [hs₁']; rfl)
      · have hs₁ : s₁ ≠ .clash := fun hs₁ => hs₁' (hs₁ ▸ hleft).clash
        cases s₁' <;> cases s₁ <;> simp_all [Site.after, Site.AtMost, Site.isFree]
    have hscan := @Site.AtMost.scan isFunctionName _ _ right hmiddle
    have hend : (scan isFunctionName (s₁.next isFunctionName '^') right).isOperand = true ∨
        scan isFunctionName (s₁.next isFunctionName '^') right = .clash := by
      obtain ⟨xs, c, rfl, hc⟩ := hright.exists_concat
      rw [scan_append]
      exact isOperand_next hc
    generalize scan isFunctionName (s₁.next isFunctionName '^') right = s₂ at hclash hscan hend
    generalize scan isFunctionName (s₁'.next isFunctionName ',') right = s₂' at hscan ⊢
    have hclosed : s₂.AtMost (s₂'.next isFunctionName ')') := by
      have hclosing : kindOf ')' = .closing := by decide
      rw [Site.next, hclosing]
      rcases hend with hend | rfl
      · cases s₂' <;> first | exact .inl rfl | exact .inr (.inr (.inr ⟨hend, rfl⟩))
      · rw [hscan.clash]
        exact .inl rfl
    have hrest := @Site.AtMost.scan isFunctionName _ _ rest hclosed
    rw [hclash] at hrest
    exact hrest.clash

theorem clash_replacePasses (h : replacePasses passes cs = .ok replaced)
    (hclash : scan isFunctionName .free cs = .clash) : scan isFunctionName .free replaced = .clash :=
  (replacePasses_induction (motive := fun cs => scan isFunctionName .free cs = .clash)
    (fun _ hpower hclash => clash_replacePower hpower hclash) h hclash).1

end Powers

/-! ### Tokens -/

/-- What stands before the next token. -/
def Site.afterToken (s : Site) : Token → Site
  | .number _ => if s.isFree then closed else clash
  | .name text => match s.isFree, text.toList.reverse with
    | true, last :: before => named last before
    | true, [] => closed
    | false, _ => clash
  | .plus | .minus => s.after isFunctionName ' ' .sign
  | .star => s.after isFunctionName ' ' .star
  | .slash | .comma => s.after isFunctionName ' ' .separator
  | .openParen => s.after isFunctionName ' ' .opening
  | .closeParen => s.after isFunctionName ' ' .closing

section Tokens

variable {s : Site} {c : Char} {cs run rest : List Char} {t : Token} {ts : List Token} {position : Nat}

theorem afterToken_clash : Site.clash.afterToken t = .clash := by
  cases t <;> rfl

theorem foldl_afterToken_clash : ts.foldl Site.afterToken .clash = .clash := by
  induction ts with
  | nil => rfl
  | cons t ts ih => rw [List.foldl_cons, afterToken_clash, ih]

theorem after_of_ne_start {c' : Char} {k : Kind} (h : k ≠ .digit ∧ k ≠ .start ∧ k ≠ .part) :
    s.after isFunctionName c k = s.after isFunctionName c' k := by
  obtain ⟨h₁, h₂, h₃⟩ := h
  cases k <;> first | contradiction | (cases s <;> rfl)

/-- A sign is a token by itself. -/
theorem afterToken_sign (h : Token.ofSign? c = some t) : s.afterToken t = s.next isFunctionName c := by
  unfold Token.ofSign? at h
  unfold Site.next
  split at h <;> cases h
  all_goals
    rw [Site.afterToken]
    exact after_of_ne_start ⟨by decide, by decide, by decide⟩

theorem isBoundary_afterToken : (s.afterToken t).isBoundary = true := by
  cases t with
  | number _ =>
    simp only [Site.afterToken]
    split <;> rfl
  | name _ =>
    simp only [Site.afterToken]
    split <;> rfl
  | openParen =>
    simp only [Site.afterToken]
    cases s <;> simp only [Site.after] <;> first | rfl | (split <;> rfl)
  | _ => cases s <;> rfl

/-- A clash after a literal is one after an operand that is complete. -/
theorem clash_of_literal (hs : s.isFree = true) (hc : isNumberChar c = true) (hrun : ∀ d ∈ run, isNumberChar d = true)
    (hrest : StartsOutside isNumberChar rest) (hclash : scan isFunctionName s (c :: (run ++ rest)) = .clash) :
    scan isFunctionName .closed rest = .clash := by
  rw [← List.cons_append, scan_append, scan_literal hs hc hrun] at hclash
  by_cases hne : rest = []
  · subst hne
    cases hclash
  · rwa [scan_after_literal hrest hne] at hclash

/-- A clash after a name is one after an operand that is complete, or may be a callee. -/
theorem clash_of_word (hs : s.isFree = true) (hc : isNameStart c = true) (hrun : ∀ d ∈ run, isNameChar d = true)
    (hrest : StartsOutside isNameChar rest) (hclash : scan isFunctionName s (c :: (run ++ rest)) = .clash) :
    ∃ last before, (c :: run).reverse = last :: before ∧ scan isFunctionName (.named last before) rest = .clash := by
  obtain ⟨last, before, heq, hscan⟩ := scan_word hs hc hrun
  rw [← List.cons_append, scan_append, hscan] at hclash
  refine ⟨last, before, heq, ?_⟩
  by_cases hne : rest = []
  · subst hne
    cases hclash
  · rwa [scan_after_word hrest hne] at hclash

/-- Where no operand may follow, none may in what comes to a clash as well. -/
theorem Site.AtMost.isFree {s' : Site} (h : s.AtMost s') (hs : s.isFree = false) : s'.isFree = false := by
  rcases h with rfl | rfl | ⟨hfree, -⟩ | ⟨-, rfl⟩
  · rfl
  · exact hs
  · rw [hs] at hfree
    cases hfree
  · rfl

theorem isBoundary_next_space : (s.next isFunctionName ' ').isBoundary = true := by
  unfold Site.next
  rw [kindOf_of_isBlank isBlank_space]
  cases s <;> rfl

/-- A space leads to no place that is ahead. -/
theorem Site.AtMost.next_space {s' : Site} (h : s.AtMost s') (hs : s.isBoundary = true) :
    (s.next isFunctionName ' ').AtMost s' := by
  unfold Site.next
  rw [kindOf_of_isBlank isBlank_space]
  rcases h with rfl | rfl | ⟨hfree, hfree'⟩ | ⟨hoperand, rfl⟩
  · exact .inl rfl
  · cases s <;> first | exact .inr (.inl rfl) | exact .inr (.inr (.inl ⟨rfl, rfl⟩)) | cases hs
  · cases s <;> first | exact .inr (.inr (.inl ⟨rfl, hfree'⟩)) | cases hfree
  · cases s <;> first | exact .inr (.inr (.inr ⟨rfl, rfl⟩)) | cases hoperand

/-- **Tokens.** The tokens of a text with a clash come to one. -/
theorem clash_tokensFrom {s' : Site} (h : tokensFrom position cs = .ok ts) (hs : s.isBoundary = true) (hs' : s.AtMost s')
    (hclash : scan isFunctionName s cs = .clash) : ts.foldl Site.afterToken s' = .clash := by
  fun_induction tokensFrom position cs generalizing ts s s' with
  | case1 =>
    cases h
    rw [scan_nil] at hclash
    exact (hclash ▸ hs').clash
  | case2 position c rest hblank ih =>
    rw [scan_cons, next_of_isBlank hblank] at hclash
    exact ih h isBoundary_next_space (hs'.next_space hs) hclash
  | case3 => cases h
  | case4 position c rest _ hc _ value _ =>
    rename_i ih
    obtain ⟨us, hus, rfl⟩ := map_eq_ok_iff.mp h
    rw [List.foldl_cons, Site.afterToken]
    cases hfree : s.isFree with
    | false => rw [if_neg (by simp [hs'.isFree hfree]), foldl_afterToken_clash]
    | true =>
      split
      · refine @ih .closed _ _ hus rfl (.inr (.inl rfl)) ?_
        obtain ⟨-, hall, hrest⟩ := splitRun_eq_iff.mp (rfl : splitRun isNumberChar rest = _)
        exact clash_of_literal hfree hc hall hrest (List.takeWhile_append_dropWhile.symm ▸ hclash)
      · exact foldl_afterToken_clash
  | case5 position c rest _ _ hc _ =>
    rename_i ih
    obtain ⟨us, hus, rfl⟩ := map_eq_ok_iff.mp h
    rw [List.foldl_cons, Site.afterToken]
    cases hfree : s.isFree with
    | false =>
      rw [hs'.isFree hfree]
      exact foldl_afterToken_clash
    | true =>
      obtain ⟨-, hall, hrest⟩ := splitRun_eq_iff.mp (rfl : splitRun isNameChar rest = _)
      obtain ⟨last, before, heq, hword⟩ := clash_of_word hfree hc hall hrest (List.takeWhile_append_dropWhile.symm ▸ hclash)
      rw [String.toList_ofList, heq]
      cases s'.isFree with
      | false => exact foldl_afterToken_clash
      | true => exact @ih (.named last before) _ _ hus rfl (.inr (.inl rfl)) hword
  | case6 => cases h
  | case7 position c rest _ _ _ token hsign ih =>
    obtain ⟨us, hus, rfl⟩ := map_eq_ok_iff.mp h
    rw [List.foldl_cons]
    rw [scan_cons, ← afterToken_sign hsign] at hclash
    refine ih hus isBoundary_afterToken ?_ hclash
    rw [afterToken_sign hsign, afterToken_sign hsign]
    exact hs'.next

end Tokens

/-! ### Expressions -/

section Expressions

variable {names : List String} {s : Site} {ts : List Token}

theorem isFree_afterToken_sign (h : s.isOperand = true) : (s.afterToken .plus).isFree = true := by
  cases s <;> first | rfl | cases h

theorem isFree_afterToken_plus (h : s.isFree = true) : (s.afterToken .plus).isFree = true := by
  cases s <;> first | rfl | cases h

theorem isFree_afterToken_star (h : s.isOperand = true) : (s.afterToken .star).isFree = true := by
  cases s <;> first | rfl | cases h

theorem isFree_afterToken_separator (h : s.isOperand = true) : (s.afterToken .comma).isFree = true := by
  cases s <;> first | rfl | cases h

theorem isFree_afterToken_openParen (h : s.isFree = true) : (s.afterToken .openParen).isFree = true := by
  cases s <;> first | rfl | cases h

/-- A group that is closed is an operand. -/
theorem afterToken_closeParen (h : s ≠ .clash) : s.afterToken .closeParen = .closed := by
  cases s <;> first | rfl | exact absurd rfl h

theorem ne_clash_of_isOperand (h : s.isOperand = true) : s ≠ .clash := by
  rintro rfl
  cases h

theorem ne_clash_of_isFree (h : s.isFree = true) : s ≠ .clash := by
  rintro rfl
  cases h

/-- The arguments of a function may follow its name. -/
theorem isFree_callee {f : Function} {name : String} (h : Function.named? name = some f) (hs : s.isFree = true) :
    ((s.afterToken (.name name)).afterToken .openParen).isFree = true := by
  rw [Site.afterToken, hs]
  cases heq : name.toList.reverse with
  | nil =>
    have : name.toList = [] := List.reverse_eq_nil_iff.mp heq
    obtain rfl : name = "" := String.toList_injective this
    have : Function.named? "" = none := by decide
    rw [this] at h
    cases h
  | cons last before =>
    have hname : isFunctionName (last :: before) = true := by
      rw [isFunctionName, ← heq, List.reverse_reverse, String.ofList_toList, h]
      rfl
    simp [Site.afterToken, Site.after, hname, Site.isFree]

mutual

/-- **Expressions.** Tokens with a tree that has a program do not come to a clash. -/
theorem IsExpression.isOperand {s : Site} {ts : List Token} {c c' : Code} {e : Expr} (hs : s.isFree = true)
    (hc : e.compileAfter names c = .ok c') :
    IsExpression ts e → (ts.foldl Site.afterToken s).isOperand = true
  | .term h => h.isOperand hs hc
  | .plus hl hr | .minus hl hr => by
    obtain ⟨c₁, hl', c₂, hr', -⟩ := compileAfter_binary.mp hc
    rw [List.foldl_append, List.foldl_cons]
    exact hr.isOperand (isFree_afterToken_sign (hl.isOperand hs hl')) hr'

theorem IsTerm.isOperand {s : Site} {ts : List Token} {c c' : Code} {e : Expr} (hs : s.isFree = true)
    (hc : e.compileAfter names c = .ok c') :
    IsTerm ts e → (ts.foldl Site.afterToken s).isOperand = true
  | .unary h => h.isOperand hs hc
  | .star hl hr => by
    obtain ⟨c₁, hl', c₂, hr', -⟩ := compileAfter_binary.mp hc
    rw [List.foldl_append, List.foldl_cons]
    exact hr.isOperand (isFree_afterToken_star (hl.isOperand hs hl')) hr'
  | .slash hl hr => by
    obtain ⟨c₁, hl', c₂, hr', -⟩ := compileAfter_binary.mp hc
    rw [List.foldl_append, List.foldl_cons]
    exact hr.isOperand (isFree_afterToken_separator (hl.isOperand hs hl')) hr'

theorem IsUnary.isOperand {s : Site} {ts : List Token} {c c' : Code} {e : Expr} (hs : s.isFree = true)
    (hc : e.compileAfter names c = .ok c') :
    IsUnary ts e → (ts.foldl Site.afterToken s).isOperand = true
  | .minus h => by
    obtain ⟨c₁, h', -⟩ := compileAfter_unary.mp hc
    rw [List.foldl_cons]
    exact h.isOperand (isFree_afterToken_plus hs) h'
  | .plus h => by
    rw [List.foldl_cons]
    exact h.isOperand (isFree_afterToken_plus hs) hc
  | .primary h => h.isOperand hs hc

theorem IsPrimary.isOperand {s : Site} {ts : List Token} {c c' : Code} {e : Expr} (hs : s.isFree = true)
    (hc : e.compileAfter names c = .ok c') :
    IsPrimary ts e → (ts.foldl Site.afterToken s).isOperand = true
  | .number value => by
    rw [List.foldl_cons, List.foldl_nil, Site.afterToken, if_pos hs]
    rfl
  | .name text => by
    rw [List.foldl_cons, List.foldl_nil, Site.afterToken, hs]
    cases text.toList.reverse <;> rfl
  | .call function h => by
    obtain ⟨f, hf, c₁, ha, -⟩ := compileAfter_call.mp hc
    rw [List.foldl_append, List.foldl_cons, List.foldl_cons, List.foldl_cons, List.foldl_nil,
      afterToken_closeParen (h.ne_clash (isFree_callee hf hs) ha)]
    rfl
  | .group h => by
    rw [List.foldl_append, List.foldl_cons, List.foldl_cons, List.foldl_nil,
      afterToken_closeParen (ne_clash_of_isOperand (h.isOperand (isFree_afterToken_openParen hs) hc))]
    rfl

theorem IsArguments.ne_clash {s : Site} {ts : List Token} {c c' : Code} {es : List Expr} (hs : s.isFree = true)
    (hc : Expr.compileAllAfter names c es = .ok c') : IsArguments ts es → ts.foldl Site.afterToken s ≠ .clash
  | .none => ne_clash_of_isFree hs
  | .some h => h.ne_clash hs hc

theorem IsSomeArguments.ne_clash {s : Site} {ts : List Token} {c c' : Code} {es : List Expr} (hs : s.isFree = true)
    (hc : Expr.compileAllAfter names c es = .ok c') : IsSomeArguments ts es → ts.foldl Site.afterToken s ≠ .clash
  | .one h => by
    obtain ⟨c₁, h', -⟩ := compileAllAfter_cons.mp hc
    exact ne_clash_of_isOperand (h.isOperand hs h')
  | .more h hmore => by
    obtain ⟨c₁, h', hmore'⟩ := compileAllAfter_cons.mp hc
    rw [List.foldl_append, List.foldl_cons]
    exact hmore.ne_clash (isFree_afterToken_separator (h.isOperand hs h')) hmore'

end

end Expressions

/-! ### Formulas -/

section Formulas

variable {names : List String} {cs : List Char}

/-- The program of a text without blanks next to power signs, if it is a formula. -/
def tightProgram? (names : List String) (cs : List Char) : Option Program := do
  let replaced ← (replacePasses maxPasses cs).toOption
  let ts ← (tokens replaced).toOption
  let tree ← (Expr.ofTokens ts).toOption
  (tree.compile names).toOption

/-- The text of a formula matters for its program only through what the stages make of it. -/
theorem program_compile (text : String) (names : List String) :
    (compile text names).toOption.map Formula.program =
      tightProgram? (names.map fun v => .ofList (lowerCase v.toList)) (tightenCarets false (plainText text.toList)) := by
  by_cases hempty : collapseBlanks text.toList = []
  · have hplain : plainText text.toList = [] := by rw [plainText, hempty]; rfl
    have hcompile : compile text names = .error .empty := by simp [compile, normalize, normalChars, hempty]
    have hreplaced : replacePasses maxPasses [] = .ok [] := rfl
    have htokens : tokens [] = .ok [] := by rw [tokens, tokensFrom]
    rw [hplain, hcompile, tightenCarets, tightProgram?, hreplaced]
    simp only [Except.toOption, Option.bind_eq_bind, Option.bind_some, htokens]
    rfl
  · have hnormal : normalChars text.toList = replacePasses maxPasses (tightenCarets false (plainText text.toList)) :=
      if_neg (by simpa using hempty)
    rw [compile, normalize, hnormal, tightProgram?]
    cases replacePasses maxPasses (tightenCarets false (plainText text.toList)) with
    | error e => rfl
    | ok replaced =>
      simp only [map_ok, ok_bind, Expr.parse, String.toList_ofList, Except.toOption, Option.bind_eq_bind, Option.bind_some]
      cases tokens replaced with
      | error e => rfl
      | ok ts =>
        simp only [ok_bind, Option.bind_some]
        cases Expr.ofTokens ts with
        | error e => rfl
        | ok tree =>
          simp only [ok_bind, Option.bind_some]
          cases tree.compile (names.map fun v => .ofList (lowerCase v.toList)) <;> rfl

theorem tightProgram?_eq_none_of_clash (h : scan isFunctionName .free cs = .clash) : tightProgram? names cs = none := by
  rw [Option.eq_none_iff_forall_ne_some]
  intro program hprogram
  simp only [tightProgram?, Option.bind_eq_bind, Option.bind_eq_some_iff, toOption_eq_some_iff] at hprogram
  obtain ⟨replaced, hreplaced, ts, htokens, tree, htree, hcompile⟩ := hprogram
  have hclash := clash_tokensFrom htokens rfl (.inr (.inl rfl)) (clash_replacePasses hreplaced h)
  obtain ⟨c, hc, -⟩ := bind_eq_ok_iff.mp hcompile
  exact ne_clash_of_isOperand ((ofTokens_iff.mp htree).isOperand (s := .free) rfl hc) hclash

/-- A text that comes to a clash once its decimal commas are points is no formula. -/
theorem tightProgram?_eq_none_of_pointed (h : scan isFunctionName .free cs = .clash) :
    tightProgram? names (tightenCarets false (caretStars cs)) = none := by
  refine tightProgram?_eq_none_of_clash ?_
  have hstars : scan isFunctionName .free (caretStars cs) = scan isFunctionName .free cs := scan_caretStars (by simp)
  rw [scan_tightenCarets fun h => absurd h Bool.false_ne_true, hstars, h]

/-- **Clashes.** A text in which operands meet, or a character stands in no token, is no formula. -/
theorem program_eq_none_of_clash {text : String} (h : scan (fun _ => true) .free text.toList = .clash) :
    (compile text names).toOption.map Formula.program = none := by
  rw [program_compile, plainText]
  refine tightProgram?_eq_none_of_pointed ?_
  have hcollapse : scan (fun _ => true) .free (collapseBlanks text.toList) = .clash := by
    refine scan_squeeze_of_clash.1 ?_
    rw [scan_dropWhile_isBlank, h]
  have hlower := @alike_lowerAfter (fun _ => true) .free .free [] (collapseBlanks text.toList) (.refl _)
  rw [hcollapse] at hlower
  have hpoint := @alike_pointCommasAfter isFunctionName .free .free [] (lowerCase (collapseBlanks text.toList))
    (.inl (.refl _)) (by simp)
  rw [lowerCase, hlower.clash] at hpoint
  exact hpoint.clash

end Formulas

end Numerics.Formula
