import Numerics.Proofs.Formula.SpacedPasses

/-!
# Calls with a space in them

A space between a name and the parenthesis of its arguments stays there as powers are replaced, before the call, after it and
within its arguments, unless the call is an operand of a power itself (`IsCallPlace`): then the operand would be only a part
of it.  So the space leaves the program as it is (`tightProgram?_of_callPlace`).
-/

namespace Numerics.Formula

open Text

/-- An exponent may stand after `start`, given nearest character first, perhaps with a sign. -/
def EndsInPower (start : List Char) : Prop :=
  ∃ us, start = '^' :: us ∨ start = '-' :: '^' :: us ∨ start = '+' :: '^' :: us

/-- The group that the text starts with is followed by a power sign. -/
def StartsWithBase (after : List Char) : Prop := ∃ group rest, splitGroup? '(' ')' 0 after = some (group, '^' :: rest)

/-- The name that ends `before`, nearest character first, and the arguments that start `after` are an operand of a power sign. -/
def IsPowerOperand (before after : List Char) : Prop :=
  EndsInPower (before.dropWhile isNameChar) ∨ StartsWithBase after

/-- Between `name`, nearest character first, and `after` lies the place before the arguments of a call, which is no operand of a
power sign. -/
structure IsCallPlace (name start after : List Char) : Prop where
  chars : ∀ c ∈ name, isNameChar c = true
  letter : ∃ c ∈ name.getLast?, isNameStart c = true
  outside : StartsOutside isNameChar start
  exponent : ¬ EndsInPower start
  opens : ∃ rest, after = '(' :: rest
  base : ¬ StartsWithBase after

/-- The place between `before`, nearest character first, and `after` is one before the arguments of a call. -/
def CallPlace (before after : List Char) : Prop := ∃ name start, before = name ++ start ∧ IsCallPlace name start after

/-! ### Groups before a power sign -/

section Groups

variable {us vs ws xs ys zs rest : List Char} {c : Char}

/-- Where the group is closed, what stands after the next character does not matter. -/
theorem StartsWithBase.of_append (h : StartsWithBase (ws ++ c :: zs)) (hc : c ≠ '^')
    (hclosed : ∃ group rest, splitGroup? '(' ')' 0 ws = some (group, rest)) (ys : List Char) : StartsWithBase (ws ++ ys) := by
  obtain ⟨group, rest, h⟩ := h
  rcases @splitGroup?_append_cases '(' ')' ws 0 with ⟨g, r, hall⟩ | ⟨depth, -, hall⟩
  · obtain ⟨-, hrest⟩ := Prod.mk.inj (Option.some.inj ((hall _).symm.trans h))
    cases r with
    | nil => exact absurd (List.cons.inj hrest).1 hc
    | cons d r =>
      obtain ⟨rfl, -⟩ := List.cons.inj hrest
      exact ⟨g, r ++ ys, hall ys⟩
  · obtain ⟨g, r, hclosed⟩ := hclosed
    have hnone := hall []
    rw [List.append_nil, hclosed] at hnone
    cases hnone

/-- Balanced texts within the group do not matter, nor right after it if they do not start with a power sign. -/
theorem StartsWithBase.of_balanced (h : StartsWithBase ('(' :: us ++ (xs ++ rest))) (hx : Balanced '(' ')' xs)
    (hhead : ∃ c ∈ xs.head?, c ≠ '^') (hy : Balanced '(' ')' ys) : StartsWithBase ('(' :: us ++ (ys ++ rest)) := by
  obtain ⟨group, tail, h⟩ := h
  have hopen : ∀ zs, splitGroup? '(' ')' 0 ('(' :: us ++ zs) = (splitGroup? '(' ')' 1 (us ++ zs)).map fun x => ('(' :: x.1, x.2) := by
    intro zs
    rw [List.cons_append, splitGroup?, if_pos rfl]
  rw [hopen] at h
  obtain ⟨⟨g, r⟩, hgroup, hparts⟩ := Option.map_eq_some_iff.mp h
  obtain ⟨-, rfl⟩ := Prod.mk.inj hparts
  rcases @splitGroup?_append_cases '(' ')' us 1 with ⟨g', r', hall⟩ | ⟨depth, hpos, hall⟩
  · obtain ⟨-, hrest⟩ := Prod.mk.inj (Option.some.inj ((hall _).symm.trans hgroup))
    cases r' with
    | nil =>
      obtain ⟨c, hc, hne⟩ := hhead
      obtain ⟨xs, rfl⟩ := List.head?_eq_some_iff.mp hc
      exact absurd (List.cons.inj hrest).1 hne
    | cons d r' =>
      obtain ⟨rfl, -⟩ := List.cons.inj hrest
      exact ⟨_, _, by rw [hopen, hall]; rfl⟩
  · obtain ⟨depth, rfl⟩ : ∃ k, depth = k + 1 := ⟨depth - 1, by have := hpos Nat.one_pos; omega⟩
    rw [hall, splitGroup?_append (by decide) hx, Option.map_map] at hgroup
    obtain ⟨⟨g', r'⟩, hrest, hparts⟩ := Option.map_eq_some_iff.mp hgroup
    obtain ⟨-, rfl⟩ := Prod.mk.inj hparts
    exact ⟨_, _, by rw [hopen, hall, splitGroup?_append (by decide) hy, hrest]; rfl⟩

/-- A name and a group that are a left operand are the base of its power. -/
theorem IsLeftOperand.startsWithBase {name start : List Char} (h : IsLeftOperand start (name ++ '(' :: ws))
    (hname : ∀ c ∈ name, isNameChar c = true) (after : List Char) : StartsWithBase ('(' :: ws ++ '^' :: after) := by
  have hopen : isNameChar '(' = false := by decide
  have hgroup : ∀ {callee inner : List Char}, (∀ c ∈ callee, isNameChar c = true) → Balanced '(' ')' inner →
      name ++ '(' :: ws = callee ++ enclosed inner → StartsWithBase ('(' :: ws ++ '^' :: after) := by
    intro callee inner hcallee hinner heq
    have hrun : splitRun isNameChar (name ++ '(' :: ws) = (name, '(' :: ws) :=
      splitRun_eq_iff.mpr ⟨rfl, hname, startsOutside_cons.mpr hopen⟩
    have hrun' : splitRun isNameChar (name ++ '(' :: ws) = (callee, enclosed inner) :=
      splitRun_eq_iff.mpr ⟨heq, hcallee, startsOutside_cons.mpr hopen⟩
    obtain rfl : ws = inner ++ [')'] := (List.cons.inj (Prod.mk.inj (hrun.symm.trans hrun')).2).2
    exact ⟨enclosed inner, after, (splitGroup?_eq_some_iff (by decide)).mpr ⟨inner, hinner, rfl, by simp⟩⟩
  generalize htext : name ++ '(' :: ws = text at h
  have hmem : '(' ∈ text := htext ▸ by simp
  cases h with
  | literal _ hall _ => exact absurd (hall _ hmem) (by decide)
  | name hall hc _ =>
    have : isNameChar '(' = true := by
      rcases List.mem_append.mp hmem with hmem | hmem
      · exact hall _ hmem
      · exact List.mem_singleton.mp hmem ▸ isNameChar_of_isNameStart hc
    exact absurd this (by decide)
  | @call c callee inner hc hcallee hinner _ =>
    have hall : ∀ d ∈ c :: callee, isNameChar d = true :=
      List.forall_mem_cons.mpr ⟨isNameChar_of_isNameStart (isNameStart_of_isAlphabetic hc), hcallee⟩
    exact hgroup hall hinner htext
  | group hinner _ => exact hgroup (List.forall_mem_nil _) hinner htext

end Groups

/-! ### Powers around the call -/

section Powers

variable {before after name start us vs ws xs ys : List Char} {c t : Char} {names : List String} {cs ds : List Char}

/-- What stands further before the call does not matter after a parenthesis or a comma. -/
theorem IsCallPlace.of_start (h : IsCallPlace name (us ++ vs) after) (hc : c = '(' ∨ c = ')' ∨ c = ',') :
    IsCallPlace name (us ++ c :: ws) after := by
  have hchar : isNameChar c = false ∧ c ≠ '^' ∧ c ≠ '-' ∧ c ≠ '+' := by
    rcases hc with rfl | rfl | rfl <;> decide
  refine { h with outside := ?_, exponent := ?_ }
  · cases us with
    | nil => exact startsOutside_cons.mpr hchar.1
    | cons a us => exact startsOutside_cons.mpr (startsOutside_cons.mp h.outside)
  · rintro ⟨zs, heq⟩
    match us with
    | [] => simp [hchar] at heq
    | [a] =>
      simp only [List.cons_append, List.nil_append, List.cons.injEq, hchar.2.1, false_and, and_false, or_false] at heq
      exact h.exponent ⟨vs, .inl (by rw [heq.1]; rfl)⟩
    | a :: b :: us =>
      simp only [List.cons_append, List.cons.injEq] at heq
      rcases heq with ⟨rfl, -⟩ | ⟨rfl, rfl, -⟩ | ⟨rfl, rfl, -⟩
      · exact h.exponent ⟨_, .inl rfl⟩
      · exact h.exponent ⟨_, .inr (.inl rfl)⟩
      · exact h.exponent ⟨_, .inr (.inr rfl)⟩

/-- The sign of an exponent is not the last character before a call that is none. -/
theorem exists_of_not_endsInPower (h : ¬ EndsInPower (t :: us ++ '^' :: start))
    (hvs : vs = (t :: us).reverse ++ xs ∨ '-' :: vs = (t :: us).reverse ++ xs ∨ '+' :: vs = (t :: us).reverse ++ xs) :
    ∃ ws, vs = ws ++ t :: xs := by
  obtain rfl | ⟨us, u, rfl⟩ := List.eq_nil_or_concat' us
  · rcases hvs with rfl | hvs | hvs
    · exact ⟨[], rfl⟩
    · obtain ⟨rfl, -⟩ := List.cons.inj hvs
      exact absurd ⟨start, .inr (.inl rfl)⟩ h
    · obtain ⟨rfl, -⟩ := List.cons.inj hvs
      exact absurd ⟨start, .inr (.inr rfl)⟩ h
  · have hrev : (t :: (us ++ [u])).reverse ++ xs = u :: (us.reverse ++ t :: xs) := by simp
    rw [hrev] at hvs
    rcases hvs with rfl | hvs | hvs
    · exact ⟨u :: us.reverse, rfl⟩
    · exact ⟨us.reverse, (List.cons.inj hvs).2⟩
    · exact ⟨us.reverse, (List.cons.inj hvs).2⟩

/-- An operand does not end within a name that starts after its first character. -/
theorem IsUnsignedOperand.not_cut {rest : List Char} (h : IsUnsignedOperand rest (us ++ t :: c :: vs)) (ht : isNameChar t = false)
    (hc : isNameStart c = true) (hvs : ∀ d ∈ vs, isNameChar d = true) : False := by
  generalize htext : us ++ t :: c :: vs = text at h
  have hmem : t ∈ text ∧ c ∈ text := by simp [← htext]
  have hlast : text.getLast? ≠ some ')' := by
    have hall : ∀ d ∈ c :: vs, isNameChar d = true := List.forall_mem_cons.mpr ⟨isNameChar_of_isNameStart hc, hvs⟩
    rw [← htext, List.getLast?_append_of_ne_nil _ (List.cons_ne_nil _ _), List.getLast?_cons_of_ne_nil (List.cons_ne_nil _ _)]
    exact fun h => absurd (hall _ (List.mem_of_getLast? h)) (by decide)
  cases h with
  | literal _ hall _ =>
    have := hall _ hmem.2
    rw [isNumberChar_of_isNameStart hc] at this
    cases this
  | @name d name hd hname _ _ =>
    have hall : ∀ e ∈ d :: name, isNameChar e = true := List.forall_mem_cons.mpr ⟨isNameChar_of_isNameStart hd, hname⟩
    have := hall _ hmem.1
    rw [ht] at this
    cases this
  | @call d name inner _ _ _ =>
    refine hlast ?_
    have : d :: name ++ enclosed inner = d :: name ++ '(' :: inner ++ [')'] := by simp [enclosed]
    rw [this, List.getLast?_concat]
  | group _ => exact hlast List.getLast?_concat

/-- A right operand before the call does not end within its name. -/
theorem IsRightOperand.not_cut {rest : List Char} (h : IsRightOperand rest ((t :: us).reverse ++ c :: vs))
    (hpower : ¬ EndsInPower (t :: us ++ '^' :: start)) (ht : isNameChar t = false) (hc : isNameStart c = true)
    (hvs : ∀ d ∈ vs, isNameChar d = true) : False := by
  generalize htext : (t :: us).reverse ++ c :: vs = text at h
  cases h with
  | unsigned h =>
    obtain ⟨ws, rfl⟩ := exists_of_not_endsInPower hpower (.inl htext.symm)
    exact h.not_cut ht hc hvs
  | @signed sign text hsign h =>
    obtain ⟨ws, rfl⟩ : ∃ ws, text = ws ++ t :: c :: vs := by
      refine exists_of_not_endsInPower hpower (.inr ?_)
      rcases hsign with rfl | rfl
      · exact .inl htext.symm
      · exact .inr htext.symm
    exact h.not_cut ht hc hvs

/-- A power sign before the call stands before its name, with a character between them. -/
theorem CallPlace.exists_between (h : CallPlace (xs.reverse ++ '^' :: start) ys) :
    ∃ name t ts, xs = (t :: ts).reverse ++ name.reverse ∧ IsCallPlace name (t :: ts ++ '^' :: start) ys := by
  obtain ⟨name, start', heq, h⟩ := h
  have hcaret : '^' ∉ name := fun hmem => absurd (h.chars _ hmem) (by decide)
  rcases List.append_eq_append_iff.mp heq with ⟨as, rfl, has⟩ | ⟨ts, hts, rfl⟩
  · cases as with
    | nil => exact absurd ⟨start, .inl has.symm⟩ h.exponent
    | cons a as =>
      obtain ⟨rfl, -⟩ := List.cons.inj has
      exact absurd (by simp) hcaret
  · cases ts with
    | nil => exact absurd ⟨start, .inl rfl⟩ h.exponent
    | cons t ts => exact ⟨name, t, ts, by rw [← List.reverse_append, ← hts, List.reverse_reverse], h⟩

/-- A name starts with a letter, as the characters before it end. -/
theorem IsCallPlace.exists_letter (h : IsCallPlace name start ys) :
    ∃ c cs, name.reverse = c :: cs ∧ isNameStart c = true ∧ ∀ d ∈ cs, isNameChar d = true := by
  obtain ⟨c, hc, hletter⟩ := h.letter
  obtain ⟨name', rfl⟩ := List.getLast?_eq_some_iff.mp hc
  exact ⟨c, name'.reverse, by simp, hletter, fun d hd => h.chars d (by simp [List.mem_reverse.mp hd])⟩

/-- The right operand of a power before the call. -/
theorem IsCallPlace.together_rightOperand (h : IsCallPlace name (t :: us ++ '^' :: start) ys) :
    Together (SplitsAlike ((t :: us).reverse ++ name.reverse) ys) (rightOperand ((t :: us).reverse ++ name.reverse ++ ys))
      (rightOperand ((t :: us).reverse ++ name.reverse ++ ' ' :: ys)) := by
  have ht : isNameChar t = false := startsOutside_cons.mp h.outside
  obtain ⟨c, cs, hname, -, -⟩ := h.exists_letter
  obtain ⟨zs, rfl⟩ := h.opens
  have hlong : 2 ≤ ((t :: us).reverse ++ name.reverse).length := by
    simp only [hname, List.length_append, List.length_reverse, List.length_cons]
    omega
  generalize hxs : (t :: us).reverse ++ name.reverse = xs at hlong
  refine rightOperand_space ?_ ?_ fun vs hvs => ⟨fun _ => startsOutside_cons.mpr (by decide), fun hall => ?_⟩
  · rintro rfl
    simp at hlong
  · constructor <;> rintro rfl <;> simp at hlong
  · rw [← hxs] at hvs
    obtain ⟨ws, rfl⟩ := exists_of_not_endsInPower h.exponent (hvs.imp_right fun hvs => hvs.imp Eq.symm Eq.symm)
    rw [hall t (by simp)] at ht
    cases ht

/-- A right operand that ends before the call ends before its name. -/
theorem IsCallPlace.exists_before {rest : List Char} (h : IsCallPlace name (t :: us ++ '^' :: start) ys)
    (hoperand : IsRightOperand rest ws) (hsplit : (t :: us).reverse ++ name.reverse = ws ++ vs) :
    ∃ bs, (t :: us).reverse = ws ++ bs ∧ vs = bs ++ name.reverse := by
  have ht : isNameChar t = false := startsOutside_cons.mp h.outside
  rcases List.append_eq_append_iff.mp hsplit with ⟨as, rfl, has⟩ | ⟨bs, hbs, rfl⟩
  · cases as with
    | nil => exact ⟨[], by simp, has.symm⟩
    | cons a as =>
      obtain ⟨c, cs, hname, hletter, hall⟩ := h.exists_letter
      rw [hname] at has
      obtain ⟨rfl, rfl⟩ := List.cons.inj has
      exact (hoperand.not_cut h.exponent ht hletter fun d hd => hall d (List.mem_append_left _ hd)).elim
  · exact ⟨bs, hbs, rfl⟩

/-- **Powers before the call** leave its place one. -/
theorem CallPlace.together_right (hplace : CallPlace (xs.reverse ++ '^' :: start) ys) :
    Together (SpacedAt CallPlace) (replacePower start (xs ++ ys)) (replacePower start (xs ++ ' ' :: ys)) := by
  obtain ⟨name, t, ts, rfl, h⟩ := hplace.exists_between
  refine SpacedAt.together_right h.together_rightOperand (fun us vs zs hsplit hoperand => ?_) fun us vs zs hus hys hoperand => ?_
  · obtain ⟨bs, hbs, rfl⟩ := h.exists_before hoperand hsplit
    have hstart : t :: ts ++ '^' :: start = bs.reverse ++ (us.reverse ++ '^' :: start) := by
      rw [← List.append_assoc, ← List.reverse_append, ← hbs, List.reverse_reverse]
    rw [hstart] at h
    exact ⟨name, bs.reverse ++ ')' :: (us.reverse ++ ',' :: zs), by simp, h.of_start (.inr (.inl rfl))⟩
  · -- the operand goes on after the name, and so has all of the arguments
    obtain ⟨rest, hopens⟩ := h.opens
    obtain ⟨u, us, rfl⟩ := List.exists_cons_of_ne_nil hus
    obtain rfl : u = '(' := (List.cons.inj (hys.symm.trans hopens)).1
    have hclosed := hoperand.balanced.exists_group (by decide)
    subst hys
    have hbase : ¬ StartsWithBase ('(' :: us ++ ')' :: vs) := fun hbase => h.base (hbase.of_append (by decide) hclosed vs)
    have hstart : IsCallPlace name (t :: ts ++ ',' :: zs) ('(' :: us ++ vs) := h.of_start (.inr (.inr rfl))
    exact ⟨name, t :: ts ++ ',' :: zs, by simp, { hstart with opens := ⟨_, rfl⟩, base := hbase }⟩

theorem IsCallPlace.exists_paren (h : IsCallPlace name start (ws ++ '^' :: after)) : ∃ w, ws = '(' :: w := by
  obtain ⟨rest, hopens⟩ := h.opens
  cases ws with
  | nil => exact absurd (List.cons.inj hopens).1 (by decide)
  | cons d w => exact ⟨w, by rw [(List.cons.inj hopens).1]⟩

/-- The left operand of a power after the name of the call. -/
theorem IsCallPlace.together_leftOperand (h : IsCallPlace name start ('(' :: ws ++ '^' :: after)) (before : List Char) :
    Together (SplitsAlike ('(' :: ws).reverse before) (leftOperand (('(' :: ws).reverse ++ before))
      (leftOperand (('(' :: ws).reverse ++ ' ' :: before)) := by
  have hmem : '(' ∈ ('(' :: ws).reverse := by simp
  refine leftOperand_space (by simp) (fun hall => absurd (hall _ hmem) (by decide)) (fun hall => absurd (hall _ hmem) (by decide))
    fun inner vs hinner hws hall => absurd ?_ h.base
  obtain rfl | ⟨vs, v, rfl⟩ := List.eq_nil_or_concat' vs
  · have hw : '(' :: ws = enclosed inner.reverse := by
      rw [← List.reverse_reverse ('(' :: ws), hws]
      simp [enclosed]
    rw [hw]
    exact ⟨_, after, (splitGroup?_eq_some_iff (by decide)).mpr ⟨inner.reverse, hinner.reverse, rfl, by simp⟩⟩
  · have hlast := congrArg List.getLast? hws
    rw [List.getLast?_reverse, ← List.cons_append, ← List.append_assoc, List.getLast?_concat] at hlast
    obtain rfl : '(' = v := Option.some.inj hlast
    exact absurd (hall '(' (by simp)) (by decide)

/-- A power within the arguments of the call, or after them, leaves the place of the call one. -/
theorem IsCallPlace.of_power {rest : List Char} (h : IsCallPlace name start (ws ++ '^' :: after)) (hws : ws = vs ++ us)
    (hafter : after = xs ++ rest) (hleft : Balanced '(' ')' us) (hright : Balanced '(' ')' xs) (hvs : vs ≠ []) :
    IsCallPlace name start (vs ++ ('p' :: 'o' :: 'w' :: '(' :: (us ++ ',' :: xs)) ++ ')' :: rest) := by
  subst hws hafter
  obtain ⟨v, rfl⟩ : ∃ v, vs = '(' :: v := by
    obtain ⟨d, vs, rfl⟩ := List.exists_cons_of_ne_nil hvs
    obtain ⟨rest, hopens⟩ := h.opens
    exact ⟨vs, by rw [(List.cons.inj hopens).1]⟩
  have hcall : Balanced '(' ')' ('p' :: 'o' :: 'w' :: '(' :: (us ++ ',' :: xs) ++ ')' :: []) :=
    .plain (by decide) (by decide) (.plain (by decide) (by decide) (.plain (by decide) (by decide)
      (.group (hleft.append (.plain (by decide) (by decide) hright)) .nil)))
  have hpower : Balanced '(' ')' (us ++ '^' :: xs) := hleft.append (.plain (by decide) (by decide) hright)
  have hold : '(' :: v ++ us ++ '^' :: (xs ++ rest) = '(' :: v ++ (us ++ '^' :: xs ++ rest) := by simp
  have hnew : '(' :: v ++ 'p' :: 'o' :: 'w' :: '(' :: (us ++ ',' :: xs) ++ ')' :: rest =
      '(' :: v ++ ('p' :: 'o' :: 'w' :: '(' :: (us ++ ',' :: xs) ++ ')' :: [] ++ rest) := by simp
  rw [hold] at h
  rw [hnew]
  exact { h with
    opens := ⟨_, rfl⟩
    base := fun hbase => h.base (StartsWithBase.of_balanced hbase hcall ⟨'p', rfl, by decide⟩ hpower) }

/-- **Powers after the name of the call** leave its place one. -/
theorem CallPlace.together_left (h : CallPlace before (ws ++ '^' :: after)) :
    Together (SpacedAt CallPlace) (replacePower (ws.reverse ++ before) after) (replacePower (ws.reverse ++ ' ' :: before) after) := by
  obtain ⟨name, start, rfl, h⟩ := h
  obtain ⟨w, rfl⟩ := h.exists_paren
  refine SpacedAt.together_left (h.together_leftOperand _) (fun us vs right rest hws hoperand hafter hr => ?_)
    fun us vs right rest hbefore hoperand hafter _ _ => ?_
  · -- the operand is not all that stands after the name, or the call would be its base
    refine ⟨name, start, rfl, h.of_power hws hafter hoperand.balanced hr.balanced ?_⟩
    rintro rfl
    rw [List.nil_append] at hws
    subst hws
    exact h.base (@IsLeftOperand.startsWithBase _ [] _ hoperand (List.forall_mem_nil _) _)
  · obtain ⟨as, rfl, rfl⟩ : ∃ as, us = name ++ as ∧ start = as ++ vs := by
      rcases List.append_eq_append_iff.mp hbefore with ⟨as, rfl, has⟩ | ⟨bs, rfl, -⟩
      · exact ⟨as, rfl, has⟩
      · have hall : ∀ c ∈ us.reverse, isNameChar c = true := fun c hc => h.chars c (by simp [List.mem_reverse.mp hc])
        exact absurd (hoperand.startsWithBase hall _) h.base
    have hclosed := hoperand.balanced.exists_group (by decide)
    subst hafter
    have hbase : ¬ StartsWithBase ('(' :: w ++ ',' :: (right ++ ')' :: rest)) :=
      fun hbase => h.base (hbase.of_append (by decide) hclosed _)
    have hstart : IsCallPlace name (as ++ '(' :: 'w' :: 'o' :: 'p' :: vs) ('(' :: w ++ '^' :: (right ++ rest)) := h.of_start (.inl rfl)
    exact ⟨name, as ++ '(' :: 'w' :: 'o' :: 'p' :: vs, by simp, { hstart with opens := ⟨_, rfl⟩, base := hbase }⟩

theorem CallPlace.together_tokens (h : CallPlace before after) :
    Together (· = ·) (tokens (before.reverse ++ after)) (tokens (before.reverse ++ ' ' :: after)) := by
  obtain ⟨_, _, -, h⟩ := h
  obtain ⟨rest, rfl⟩ := h.opens
  refine together_tokensFrom_space _ _ _ fun P hP _ _ _ => ?_
  rcases hP with rfl | rfl <;> exact startsOutside_cons.mpr (by decide)

/-- **A space before the arguments of a call** that is no operand of a power leaves the program as it is. -/
theorem tightProgram?_of_callPlace (h : SpacedAt CallPlace cs ds) : tightProgram? names ds = tightProgram? names cs :=
  tightProgram?_of_spacedAt (fun _ _ _ => CallPlace.together_right) (fun _ _ _ => CallPlace.together_left)
    (fun _ _ => CallPlace.together_tokens) h

end Powers

end Numerics.Formula
