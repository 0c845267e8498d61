import Mathlib.Data.List.Basic
import Numerics.Formula.Parser
import Numerics.Proofs.Outcome

/-!
# The parser accepts exactly its grammar

`IsExpression ts e` derives the tokens `ts`, all of them, as an expression with the tree `e`.  The repetitions of the
grammar are rules that recur on their left, so that the trees of sums and products group to the left.
`ofTokens_iff_isExpression`: tokens have a tree exactly if they are derivable, and then it is the tree of their only
derivation.

The functions of the parser return the tokens after a phrase with a proof that they are fewer; `plain` drops the
proof, and all that follows is about `plain` readings.  Soundness recurs as the parser does.  Completeness is by
induction on the derivation, for tokens with any tokens after them that do not continue the phrase: reading an
expression comes down to continuing the sum behind it (`IsExpression.reads`), since only the loop may take them.
-/

namespace Numerics.Formula

/-! ### The grammar -/

mutual

/-- The tokens are an expression with this tree: `term (('+' | '-') term)*`. -/
inductive IsExpression : List Token → Expr → Prop where
  | term {ts : List Token} {e : Expr} : IsTerm ts e → IsExpression ts e
  | plus {ts us : List Token} {left right : Expr} :
      IsExpression ts left → IsTerm us right → IsExpression (ts ++ .plus :: us) (.binary left '+' right)
  | minus {ts us : List Token} {left right : Expr} :
      IsExpression ts left → IsTerm us right → IsExpression (ts ++ .minus :: us) (.binary left '-' right)

/-- The tokens are a term with this tree: `unary (('*' | '/') unary)*`. -/
inductive IsTerm : List Token → Expr → Prop where
  | unary {ts : List Token} {e : Expr} : IsUnary ts e → IsTerm ts e
  | star {ts us : List Token} {left right : Expr} :
      IsTerm ts left → IsUnary us right → IsTerm (ts ++ .star :: us) (.binary left '*' right)
  | slash {ts us : List Token} {left right : Expr} :
      IsTerm ts left → IsUnary us right → IsTerm (ts ++ .slash :: us) (.binary left '/' right)

/-- The tokens are a factor with its signs and this tree: `('-' | '+') unary | primary`. -/
inductive IsUnary : List Token → Expr → Prop where
  | minus {ts : List Token} {e : Expr} : IsUnary ts e → IsUnary (.minus :: ts) (.unary '-' e)
  | plus {ts : List Token} {e : Expr} : IsUnary ts e → IsUnary (.plus :: ts) e
  | primary {ts : List Token} {e : Expr} : IsPrimary ts e → IsUnary ts e

/-- The tokens are a primary with this tree: `number | name | name '(' arguments ')' | '(' expression ')'`. -/
inductive IsPrimary : List Token → Expr → Prop where
  | number (value : Float) : IsPrimary [.number value] (.number value)
  | name (text : String) : IsPrimary [.name text] (.symbol text)
  | call (function : String) {ts : List Token} {es : List Expr} :
      IsArguments ts es → IsPrimary (.name function :: .openParen :: ts ++ [.closeParen]) (.call function es)
  | group {ts : List Token} {e : Expr} :
      IsExpression ts e → IsPrimary (.openParen :: ts ++ [.closeParen]) e

/-- The tokens are arguments with these trees: nothing, or `expression (',' expression)*`. -/
inductive IsArguments : List Token → List Expr → Prop where
  | none : IsArguments [] []
  | some {ts : List Token} {es : List Expr} : IsSomeArguments ts es → IsArguments ts es

/-- The tokens are at least one argument, with these trees. -/
inductive IsSomeArguments : List Token → List Expr → Prop where
  | one {ts : List Token} {e : Expr} : IsExpression ts e → IsSomeArguments ts [e]
  | more {ts us : List Token} {e : Expr} {es : List Expr} :
      IsExpression ts e → IsSomeArguments us es → IsSomeArguments (ts ++ .comma :: us) (e :: es)

end

/-! ### Plain readings -/

section Plain

variable {α β : Type} {ts us : List Token} {p q : List Token → Prop}

/-- A reading without the proof that tokens were taken. -/
def plain (r : Except ParseError (α × {us : List Token // p us})) : Except ParseError (α × List Token) :=
  r.map fun x => (x.1, x.2.1)

theorem length_lt_of_plain {r : Reading α ts} {a : α} (h : plain r = .ok (a, us)) : us.length < ts.length := by
  obtain ⟨⟨b, vs, hvs⟩, -, hb⟩ := map_eq_ok_iff.mp h
  obtain ⟨-, rfl⟩ := Prod.mk.inj hb
  exact hvs

theorem plain_bind {r : Except ParseError (α × {us : List Token // p us})}
    {f : α × {us : List Token // p us} → Except ParseError (β × {vs : List Token // q vs})}
    {g : α × List Token → Except ParseError (β × List Token)}
    (h : ∀ a us hus, plain (f (a, ⟨us, hus⟩)) = g (a, us)) : plain (r >>= f) = plain r >>= g := by
  cases r with
  | error err => rfl
  | ok x => exact h x.1 x.2.1 x.2.2

theorem plain_map {r : Except ParseError (α × {us : List Token // p us})}
    {f : α × {us : List Token // p us} → Except ParseError (β × {vs : List Token // q vs})} {g : α → β}
    (h : ∀ a us hus, plain (f (a, ⟨us, hus⟩)) = .ok (g a, us)) :
    plain (r >>= f) = (plain r).map fun x => (g x.1, x.2) := by
  cases r with
  | error err => rfl
  | ok x => exact h x.1 x.2.1 x.2.2

theorem plain_keep {r : Except ParseError (α × {us : List Token // p us})}
    {f : α × {us : List Token // p us} → Except ParseError (α × {vs : List Token // q vs})}
    (h : ∀ a us hus, plain (f (a, ⟨us, hus⟩)) = .ok (a, us)) : plain (r >>= f) = plain r := by
  cases r with
  | error err => rfl
  | ok x => exact h x.1 x.2.1 x.2.2

theorem plain_expression (ts : List Token) :
    plain (expression ts) = plain (term ts) >>= fun x => plain (sumAfter x.1 x.2) := by
  rw [expression]
  exact plain_bind fun first us _ => plain_keep fun _ _ _ => rfl

theorem plain_sumAfter_stop (left : Expr) (h : ∀ t ∈ ts.head?, sumOperator? t = none) :
    plain (sumAfter left ts) = .ok (left, ts) := by
  cases ts with
  | nil =>
    rw [sumAfter]
    rfl
  | cons t ts =>
    simp only [sumAfter, h t rfl]
    rfl

theorem plain_sumAfter_cons (left : Expr) {t : Token} {op : Char} (h : sumOperator? t = some op) (ts : List Token) :
    plain (sumAfter left (t :: ts)) = plain (term ts) >>= fun x => plain (sumAfter (.binary left op x.1) x.2) := by
  simp only [sumAfter, h]
  exact plain_bind fun right us _ => plain_keep fun _ _ _ => rfl

theorem plain_term (ts : List Token) :
    plain (term ts) = plain (signed ts) >>= fun x => plain (productAfter x.1 x.2) := by
  rw [term]
  exact plain_bind fun first us _ => plain_keep fun _ _ _ => rfl

theorem plain_productAfter_stop (left : Expr) (h : ∀ t ∈ ts.head?, productOperator? t = none) :
    plain (productAfter left ts) = .ok (left, ts) := by
  cases ts with
  | nil =>
    rw [productAfter]
    rfl
  | cons t ts =>
    simp only [productAfter, h t rfl]
    rfl

theorem plain_productAfter_cons (left : Expr) {t : Token} {op : Char} (h : productOperator? t = some op)
    (ts : List Token) : plain (productAfter left (t :: ts)) =
      plain (signed ts) >>= fun x => plain (productAfter (.binary left op x.1) x.2) := by
  simp only [productAfter, h]
  exact plain_bind fun right us _ => plain_keep fun _ _ _ => rfl

theorem plain_signed_minus (ts : List Token) :
    plain (signed (.minus :: ts)) = (plain (signed ts)).map fun x => (.unary '-' x.1, x.2) := by
  rw [signed]
  exact plain_map fun _ _ _ => rfl

theorem plain_signed_plus (ts : List Token) : plain (signed (.plus :: ts)) = plain (signed ts) := by
  rw [signed]
  exact plain_keep fun _ _ _ => rfl

theorem plain_signed_primary (hm : ∀ us, ts ≠ .minus :: us) (hp : ∀ us, ts ≠ .plus :: us) :
    plain (signed ts) = plain (primary ts) := by
  rw [signed]
  · exact hm
  · exact hp

theorem plain_primary_number (value : Float) (ts : List Token) :
    plain (primary (.number value :: ts)) = .ok (.number value, ts) := by
  rw [primary]
  rfl

theorem plain_primary_name (text : String) (h : ts.head? ≠ some .openParen) :
    plain (primary (.name text :: ts)) = .ok (.symbol text, ts) := by
  rw [primary]
  · rfl
  · rintro us rfl
    exact h rfl

theorem plain_primary_call (function : String) (ts : List Token) :
    plain (primary (.name function :: .openParen :: ts)) =
      (plain (arguments ts)).map fun x => (.call function x.1, x.2) := by
  rw [primary]
  exact plain_map fun _ _ _ => rfl

/-- The parenthesis that closes a group, and the tokens after it. -/
def closeGroup (x : Expr × List Token) : Except ParseError (Expr × List Token) :=
  match x.2 with
  | .closeParen :: us => .ok (x.1, us)
  | us => unexpected .closingParen .unbalancedParens us

theorem plain_primary_group (ts : List Token) :
    plain (primary (.openParen :: ts)) = plain (expression ts) >>= closeGroup := by
  rw [primary]
  refine plain_bind fun inner us h => ?_
  cases us with
  | nil => rfl
  | cons t us => cases t <;> rfl

theorem plain_arguments_none (ts : List Token) : plain (arguments (.closeParen :: ts)) = .ok ([], ts) := by
  rw [arguments]
  rfl

theorem plain_arguments_some (h : ∀ us, ts ≠ .closeParen :: us) :
    plain (arguments ts) = plain (someArguments ts) := by
  rw [arguments]
  exact h

/-- The arguments after the one that was read, and the parenthesis that closes them. -/
def moreArguments (x : Expr × List Token) : Except ParseError (List Expr × List Token) :=
  match x.2 with
  | .comma :: us => (plain (someArguments us)).map fun y => (x.1 :: y.1, y.2)
  | .closeParen :: us => .ok ([x.1], us)
  | us => unexpected .separator .unbalancedParens us

theorem plain_someArguments (ts : List Token) :
    plain (someArguments ts) = plain (expression ts) >>= moreArguments := by
  rw [someArguments]
  refine plain_bind fun first us h => ?_
  match us with
  | [] => rfl
  | t :: us =>
    cases t with
    | comma => exact plain_map fun _ _ _ => rfl
    | _ => rfl

end Plain

/-! ### Soundness -/

section Soundness

theorem unexpected_ne_ok {α : Type} {expected : Expected} {missing : ParseError} {ts : List Token} {a : α} :
    unexpected expected missing ts ≠ .ok a := by
  cases ts <;> exact nofun

theorem closeGroup_eq_ok {x : Expr × List Token} {e : Expr} {us : List Token} (h : closeGroup x = .ok (e, us)) :
    x = (e, .closeParen :: us) := by
  obtain ⟨inner, vs⟩ := x
  unfold closeGroup at h
  split at h
  · next ws hws =>
    cases h
    exact congrArg _ hws
  · exact absurd h unexpected_ne_ok

/-- Operators of a sum and the terms behind them extend an expression. -/
theorem IsExpression.extend {ts us : List Token} {left right : Expr} {t : Token} {op : Char}
    (hl : IsExpression ts left) (ht : sumOperator? t = some op) (hr : IsTerm us right) :
    IsExpression (ts ++ t :: us) (.binary left op right) := by
  cases t <;> cases ht
  · exact .plus hl hr
  · exact .minus hl hr

theorem IsTerm.extend {ts us : List Token} {left right : Expr} {t : Token} {op : Char}
    (hl : IsTerm ts left) (ht : productOperator? t = some op) (hr : IsUnary us right) :
    IsTerm (ts ++ t :: us) (.binary left op right) := by
  cases t <;> cases ht
  · exact .star hl hr
  · exact .slash hl hr

mutual

/-- What is read as an expression is one. -/
theorem isExpression_of_plain {ts us : List Token} {e : Expr} (h : plain (expression ts) = .ok (e, us)) :
    ∃ ws, ts = ws ++ us ∧ IsExpression ws e := by
  rw [plain_expression, bind_eq_ok_iff] at h
  obtain ⟨⟨first, vs⟩, hterm, hsum⟩ := h
  have := length_lt_of_plain hterm
  obtain ⟨ws, rfl, hw⟩ := isTerm_of_plain hterm
  obtain ⟨xs, rfl, hx⟩ := isExpression_of_plain_sumAfter (.term hw) hsum
  exact ⟨ws ++ xs, (List.append_assoc ..).symm, hx⟩
termination_by (ts.length, 3)

theorem isExpression_of_plain_sumAfter {ts us vs : List Token} {left e : Expr} (hl : IsExpression vs left)
    (h : plain (sumAfter left ts) = .ok (e, us)) : ∃ ws, ts = ws ++ us ∧ IsExpression (vs ++ ws) e := by
  match ts with
  | [] =>
    rw [plain_sumAfter_stop left (by simp)] at h
    cases h
    exact ⟨[], rfl, by rwa [List.append_nil]⟩
  | t :: ts =>
    cases ht : sumOperator? t with
    | none =>
      rw [plain_sumAfter_stop left (by simpa using ht)] at h
      cases h
      exact ⟨[], rfl, by rwa [List.append_nil]⟩
    | some op =>
      rw [plain_sumAfter_cons left ht, bind_eq_ok_iff] at h
      obtain ⟨⟨right, xs⟩, hterm, hsum⟩ := h
      have := length_lt_of_plain hterm
      obtain ⟨ws, rfl, hw⟩ := isTerm_of_plain hterm
      obtain ⟨ys, rfl, hy⟩ := isExpression_of_plain_sumAfter (hl.extend ht hw) hsum
      refine ⟨t :: ws ++ ys, by simp, ?_⟩
      simpa using hy
termination_by (ts.length, 0)

/-- What is read as a term is one. -/
theorem isTerm_of_plain {ts us : List Token} {e : Expr} (h : plain (term ts) = .ok (e, us)) :
    ∃ ws, ts = ws ++ us ∧ IsTerm ws e := by
  rw [plain_term, bind_eq_ok_iff] at h
  obtain ⟨⟨first, vs⟩, hunary, hproduct⟩ := h
  have := length_lt_of_plain hunary
  obtain ⟨ws, rfl, hw⟩ := isUnary_of_plain hunary
  obtain ⟨xs, rfl, hx⟩ := isTerm_of_plain_productAfter (.unary hw) hproduct
  exact ⟨ws ++ xs, (List.append_assoc ..).symm, hx⟩
termination_by (ts.length, 2)

theorem isTerm_of_plain_productAfter {ts us vs : List Token} {left e : Expr} (hl : IsTerm vs left)
    (h : plain (productAfter left ts) = .ok (e, us)) : ∃ ws, ts = ws ++ us ∧ IsTerm (vs ++ ws) e := by
  match ts with
  | [] =>
    rw [plain_productAfter_stop left (by simp)] at h
    cases h
    exact ⟨[], rfl, by rwa [List.append_nil]⟩
  | t :: ts =>
    cases ht : productOperator? t with
    | none =>
      rw [plain_productAfter_stop left (by simpa using ht)] at h
      cases h
      exact ⟨[], rfl, by rwa [List.append_nil]⟩
    | some op =>
      rw [plain_productAfter_cons left ht, bind_eq_ok_iff] at h
      obtain ⟨⟨right, xs⟩, hunary, hproduct⟩ := h
      have := length_lt_of_plain hunary
      obtain ⟨ws, rfl, hw⟩ := isUnary_of_plain hunary
      obtain ⟨ys, rfl, hy⟩ := isTerm_of_plain_productAfter (hl.extend ht hw) hproduct
      refine ⟨t :: ws ++ ys, by simp, ?_⟩
      simpa using hy
termination_by (ts.length, 0)

/-- What is read as a factor with its signs is one. -/
theorem isUnary_of_plain {ts us : List Token} {e : Expr} (h : plain (signed ts) = .ok (e, us)) :
    ∃ ws, ts = ws ++ us ∧ IsUnary ws e := by
  by_cases hm : ∃ vs, ts = .minus :: vs
  · obtain ⟨vs, rfl⟩ := hm
    rw [plain_signed_minus, map_eq_ok_iff] at h
    obtain ⟨⟨operand, xs⟩, hunary, heq⟩ := h
    cases heq
    obtain ⟨ws, rfl, hw⟩ := isUnary_of_plain hunary
    exact ⟨.minus :: ws, rfl, .minus hw⟩
  by_cases hp : ∃ vs, ts = .plus :: vs
  · obtain ⟨vs, rfl⟩ := hp
    rw [plain_signed_plus] at h
    obtain ⟨ws, rfl, hw⟩ := isUnary_of_plain h
    exact ⟨.plus :: ws, rfl, .plus hw⟩
  · rw [plain_signed_primary (fun vs hvs => hm ⟨vs, hvs⟩) (fun vs hvs => hp ⟨vs, hvs⟩)] at h
    obtain ⟨ws, rfl, hw⟩ := isPrimary_of_plain h
    exact ⟨ws, rfl, .primary hw⟩
termination_by (ts.length, 1)

/-- What is read as a primary is one. -/
theorem isPrimary_of_plain {ts us : List Token} {e : Expr} (h : plain (primary ts) = .ok (e, us)) :
    ∃ ws, ts = ws ++ us ∧ IsPrimary ws e := by
  match ts with
  | .number value :: ts =>
    rw [plain_primary_number] at h
    cases h
    exact ⟨[.number value], rfl, .number value⟩
  | .name text :: ts =>
    by_cases hs : ∃ vs, ts = .openParen :: vs
    · obtain ⟨vs, rfl⟩ := hs
      rw [plain_primary_call, map_eq_ok_iff] at h
      obtain ⟨⟨es, xs⟩, harguments, heq⟩ := h
      cases heq
      obtain ⟨ws, rfl, hw⟩ := isArguments_of_plain harguments
      exact ⟨.name text :: .openParen :: ws ++ [.closeParen], by simp, .call text hw⟩
    · rw [plain_primary_name text fun hh => hs (List.head?_eq_some_iff.mp hh)] at h
      cases h
      exact ⟨[.name text], rfl, .name text⟩
  | .openParen :: ts =>
    rw [plain_primary_group, bind_eq_ok_iff] at h
    obtain ⟨x, hx, hclose⟩ := h
    obtain rfl := closeGroup_eq_ok hclose
    obtain ⟨ws, rfl, hw⟩ := isExpression_of_plain hx
    exact ⟨.openParen :: ws ++ [.closeParen], by simp, .group hw⟩
  | [] | .plus :: _ | .minus :: _ | .star :: _ | .slash :: _ | .comma :: _ | .closeParen :: _ =>
    simp only [primary] at h
    cases h
termination_by (ts.length, 0)

/-- What is read as arguments, up to the parenthesis that closes them, is arguments. -/
theorem isArguments_of_plain {ts us : List Token} {es : List Expr} (h : plain (arguments ts) = .ok (es, us)) :
    ∃ ws, ts = ws ++ .closeParen :: us ∧ IsArguments ws es := by
  by_cases hc : ∃ vs, ts = .closeParen :: vs
  · obtain ⟨vs, rfl⟩ := hc
    rw [plain_arguments_none] at h
    cases h
    exact ⟨[], rfl, .none⟩
  · rw [plain_arguments_some fun vs hvs => hc ⟨vs, hvs⟩] at h
    obtain ⟨ws, rfl, hw⟩ := isSomeArguments_of_plain h
    exact ⟨ws, rfl, .some hw⟩
termination_by (ts.length, 5)

/-- What is read as at least one argument, up to the parenthesis that closes the arguments, is arguments. -/
theorem isSomeArguments_of_plain {ts us : List Token} {es : List Expr} (h : plain (someArguments ts) = .ok (es, us)) :
    ∃ ws, ts = ws ++ .closeParen :: us ∧ IsSomeArguments ws es := by
  rw [plain_someArguments, bind_eq_ok_iff] at h
  obtain ⟨⟨first, vs⟩, hfirst, hmore⟩ := h
  have := length_lt_of_plain hfirst
  obtain ⟨ws, rfl, hw⟩ := isExpression_of_plain hfirst
  unfold moreArguments at hmore
  split at hmore
  · next xs hxs =>
    obtain rfl : vs = .comma :: xs := hxs
    obtain ⟨⟨others, ys⟩, hothers, heq⟩ := map_eq_ok_iff.mp hmore
    cases heq
    obtain ⟨zs, rfl, hz⟩ := isSomeArguments_of_plain hothers
    exact ⟨ws ++ .comma :: zs, by simp, .more hw hz⟩
  · next xs hxs =>
    obtain rfl : vs = .closeParen :: xs := hxs
    cases hmore
    exact ⟨ws, rfl, .one hw⟩
  · exact absurd hmore unexpected_ne_ok
termination_by (ts.length, 4)

end

end Soundness

/-! ### Completeness -/

section Completeness

/-- A name right before the tokens is no call. -/
def EndsName (us : List Token) : Prop := us.head? ≠ some .openParen

/-- A term right before the tokens ends there. -/
def EndsTerm (us : List Token) : Prop := EndsName us ∧ ∀ t ∈ us.head?, productOperator? t = none

/-- An expression right before the tokens ends there. -/
def EndsExpression (us : List Token) : Prop := EndsTerm us ∧ ∀ t ∈ us.head?, sumOperator? t = none

theorem endsTerm_of_sumOperator {t : Token} {op : Char} (h : sumOperator? t = some op) (us : List Token) :
    EndsTerm (t :: us) := by
  cases t <;> cases h <;> exact ⟨nofun, by simp [productOperator?]⟩

theorem endsName_of_productOperator {t : Token} {op : Char} (h : productOperator? t = some op) (us : List Token) :
    EndsName (t :: us) := by
  cases t <;> cases h <;> exact nofun

theorem endsExpression_nil : EndsExpression [] := ⟨⟨nofun, nofun⟩, nofun⟩

theorem endsExpression_comma (us : List Token) : EndsExpression (.comma :: us) :=
  ⟨⟨nofun, by simp [productOperator?]⟩, by simp [sumOperator?]⟩

theorem endsExpression_closeParen (us : List Token) : EndsExpression (.closeParen :: us) :=
  ⟨⟨nofun, by simp [productOperator?]⟩, by simp [sumOperator?]⟩

theorem plain_primary_ne_ok {t : Token} (ht : t = .minus ∨ t = .plus ∨ t = .closeParen) {ts : List Token}
    {x : Expr × List Token} : plain (primary (t :: ts)) ≠ .ok x := by
  rcases ht with rfl | rfl | rfl <;> simp only [primary] <;> exact nofun

theorem plain_someArguments_closeParen_ne_ok {ts : List Token} {x : List Expr × List Token} :
    plain (someArguments (.closeParen :: ts)) ≠ .ok x := by
  intro h
  rw [plain_someArguments, bind_eq_ok_iff] at h
  obtain ⟨y, hy, -⟩ := h
  rw [plain_expression, bind_eq_ok_iff] at hy
  obtain ⟨y, hy, -⟩ := hy
  rw [plain_term, bind_eq_ok_iff] at hy
  obtain ⟨y, hy, -⟩ := hy
  rw [plain_signed_primary (by simp) (by simp)] at hy
  exact plain_primary_ne_ok (.inr (.inr rfl)) hy

/-- An operator and a term behind an expression are taken by the loop over the sum. -/
theorem plain_expression_extend {ts us vs : List Token} {left right : Expr} {t : Token} {op : Char}
    (ht : sumOperator? t = some op)
    (hl : plain (expression (ts ++ t :: (us ++ vs))) = plain (sumAfter left (t :: (us ++ vs))))
    (hr : plain (term (us ++ vs)) = plain (productAfter right vs)) (hvs : EndsTerm vs) :
    plain (expression (ts ++ t :: us ++ vs)) = plain (sumAfter (.binary left op right) vs) := by
  rw [List.append_assoc, List.cons_append, hl, plain_sumAfter_cons left ht, hr,
    plain_productAfter_stop right hvs.2, ok_bind]

/-- An operator and a factor behind a term are taken by the loop over the product. -/
theorem plain_term_extend {ts us vs : List Token} {left right : Expr} {t : Token} {op : Char}
    (ht : productOperator? t = some op)
    (hl : plain (term (ts ++ t :: (us ++ vs))) = plain (productAfter left (t :: (us ++ vs))))
    (hr : plain (signed (us ++ vs)) = .ok (right, vs)) :
    plain (term (ts ++ t :: us ++ vs)) = plain (productAfter (.binary left op right) vs) := by
  rw [List.append_assoc, List.cons_append, hl, plain_productAfter_cons left ht, hr, ok_bind]

mutual

/-- Reading an expression comes down to continuing the sum behind it. -/
theorem IsExpression.reads {ts us : List Token} {e : Expr} (hus : EndsTerm us) :
    IsExpression ts e → plain (expression (ts ++ us)) = plain (sumAfter e us)
  | .term h => by
    rw [plain_expression, h.reads hus.1, plain_productAfter_stop e hus.2, ok_bind]
  | .plus hl hr => plain_expression_extend rfl (hl.reads (endsTerm_of_sumOperator rfl _)) (hr.reads hus.1) hus
  | .minus hl hr => plain_expression_extend rfl (hl.reads (endsTerm_of_sumOperator rfl _)) (hr.reads hus.1) hus

/-- Reading a term comes down to continuing the product behind it. -/
theorem IsTerm.reads {ts us : List Token} {e : Expr} (hus : EndsName us) :
    IsTerm ts e → plain (term (ts ++ us)) = plain (productAfter e us)
  | .unary h => by
    rw [plain_term, h.reads hus, ok_bind]
  | .star hl hr => plain_term_extend rfl (hl.reads (endsName_of_productOperator rfl _)) (hr.reads hus)
  | .slash hl hr => plain_term_extend rfl (hl.reads (endsName_of_productOperator rfl _)) (hr.reads hus)

theorem IsUnary.reads {ts us : List Token} {e : Expr} (hus : EndsName us) :
    IsUnary ts e → plain (signed (ts ++ us)) = .ok (e, us)
  | .minus h => by
    rw [List.cons_append, plain_signed_minus, h.reads hus, map_ok]
  | .plus h => by
    rw [List.cons_append, plain_signed_plus, h.reads hus]
  | .primary h => by
    have hp := h.reads hus
    rw [plain_signed_primary, hp]
    · intro vs hvs
      rw [hvs] at hp
      exact plain_primary_ne_ok (.inl rfl) hp
    · intro vs hvs
      rw [hvs] at hp
      exact plain_primary_ne_ok (.inr (.inl rfl)) hp

theorem IsPrimary.reads {ts us : List Token} {e : Expr} (hus : EndsName us) :
    IsPrimary ts e → plain (primary (ts ++ us)) = .ok (e, us)
  | .number value => plain_primary_number value us
  | .name text => plain_primary_name text hus
  | @IsPrimary.call function ts es h => by
    have : .name function :: .openParen :: ts ++ [.closeParen] ++ us =
        .name function :: .openParen :: (ts ++ .closeParen :: us) := by simp
    rw [this, plain_primary_call, h.reads, map_ok]
  | @IsPrimary.group ts e h => by
    have : .openParen :: ts ++ [.closeParen] ++ us = .openParen :: (ts ++ .closeParen :: us) := by simp
    have hend := endsExpression_closeParen us
    rw [this, plain_primary_group, h.reads hend.1, plain_sumAfter_stop e hend.2]
    rfl

theorem IsArguments.reads {ts us : List Token} {es : List Expr} :
    IsArguments ts es → plain (arguments (ts ++ .closeParen :: us)) = .ok (es, us)
  | .none => plain_arguments_none us
  | .some h => by
    have hs : plain (someArguments (_ ++ .closeParen :: us)) = .ok (es, us) := h.reads
    rw [plain_arguments_some, hs]
    intro vs hvs
    rw [hvs] at hs
    exact plain_someArguments_closeParen_ne_ok hs

theorem IsSomeArguments.reads {ts us : List Token} {es : List Expr} :
    IsSomeArguments ts es → plain (someArguments (ts ++ .closeParen :: us)) = .ok (es, us)
  | @IsSomeArguments.one ts e h => by
    have hend := endsExpression_closeParen us
    rw [plain_someArguments, h.reads hend.1, plain_sumAfter_stop e hend.2]
    rfl
  | @IsSomeArguments.more ts us' e es h hs => by
    have hend := endsExpression_comma (us' ++ .closeParen :: us)
    rw [plain_someArguments, List.append_assoc, List.cons_append, h.reads hend.1, plain_sumAfter_stop e hend.2,
      ok_bind]
    simp only [moreArguments, hs.reads, map_ok]

end

end Completeness

/-! ### The tree of tokens -/

theorem ofTokens_eq_ok_iff {ts : List Token} {e : Expr} :
    Expr.ofTokens ts = .ok e ↔ plain (expression ts) = .ok (e, []) := by
  match ts with
  | [] =>
    refine ⟨nofun, fun h => absurd (length_lt_of_plain h) (Nat.lt_irrefl 0)⟩
  | t :: ts =>
    simp only [Expr.ofTokens]
    cases expression (t :: ts) with
    | error err => exact ⟨nofun, nofun⟩
    | ok x =>
      obtain ⟨tree, us, h⟩ := x
      cases us <;> simp [plain]

/-- Tokens have a tree exactly if they are an expression with this tree. -/
theorem ofTokens_iff {ts : List Token} {e : Expr} : Expr.ofTokens ts = .ok e ↔ IsExpression ts e := by
  rw [ofTokens_eq_ok_iff]
  constructor
  · intro h
    obtain ⟨ws, hts, hw⟩ := isExpression_of_plain h
    rwa [hts, List.append_nil]
  · intro h
    have hread := h.reads endsExpression_nil.1
    rwa [List.append_nil, plain_sumAfter_stop e endsExpression_nil.2] at hread

/-- Tokens are an expression with one tree at most. -/
theorem IsExpression.unique {ts : List Token} {e e' : Expr} (h : IsExpression ts e) (h' : IsExpression ts e') :
    e' = e := by
  have heq := (ofTokens_iff.mpr h').symm.trans (ofTokens_iff.mpr h)
  exact Except.ok.inj heq

/-- **The parser accepts exactly its grammar.**  Tokens have a tree if and only if all of them are derivable as an
expression, and it is the only tree they are derivable with; all other tokens give an error.  A text has a tree if
and only if it has tokens that are so derivable. -/
theorem accepts_iff_isExpression :
    (∀ (ts : List Token) (e : Expr),
        Expr.ofTokens ts = .ok e ↔ IsExpression ts e ∧ ∀ e', IsExpression ts e' → e' = e) ∧
      (∀ ts : List Token, (∃ err, Expr.ofTokens ts = .error err) ↔ ∀ e, ¬ IsExpression ts e) ∧
      ∀ (text : String) (e : Expr),
        Expr.parse text = .ok e ↔ ∃ ts, tokens text.toList = .ok ts ∧ IsExpression ts e := by
  refine ⟨fun ts e => ?_, fun ts => ?_, fun text e => ?_⟩
  · rw [ofTokens_iff]
    exact ⟨fun h => ⟨h, fun e' h' => h.unique h'⟩, fun h => h.1⟩
  · simp only [← ofTokens_iff]
    cases Expr.ofTokens ts <;> simp
  · simp only [Expr.parse, bind_eq_ok_iff, ofTokens_iff]

end Numerics.Formula
