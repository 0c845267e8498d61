import Numerics.Proofs.Formula.Clash

/-!
# Powers next to a space

Two texts that differ by one space, where neither a name, a literal nor a call is cut and the space is not right next to
the operands of a power sign (`IsCut`), stay such texts as their powers are replaced, one pass after the other, and fail
together (`together_replacePasses`).  Their tokens are the same in the end (`tightProgram?_of_isCut`).
-/

namespace Numerics.Formula

open Text

/-! ### Splits on both sides of a space -/

/-- Splits of `xs ++ ys` and of `xs ++ ' ' :: ys` at one place. -/
inductive SplitsAlike (xs ys : List Char) : List Char × List Char → List Char × List Char → Prop where
  | before {us vs : List Char} : us ≠ [] → xs = us ++ vs → SplitsAlike xs ys (us, vs ++ ys) (us, vs ++ ' ' :: ys)
  | after {us vs : List Char} : us ≠ [] → ys = us ++ vs → SplitsAlike xs ys (xs ++ us, vs) (xs ++ ' ' :: us, vs)

section Splits

variable {xs ys us vs : List Char} {p q : List Char × List Char} {opening closing : Char} {depth : Nat}

theorem SplitsAlike.cons (h : SplitsAlike xs ys p q) (c : Char) :
    SplitsAlike (c :: xs) ys (c :: p.1, p.2) (c :: q.1, q.2) := by
  cases h with
  | before _ h => exact .before (List.cons_ne_nil _ _) (by rw [h, List.cons_append])
  | after hne h => exact .after hne h

theorem SplitsAlike.append (h : SplitsAlike xs ys p q) (ws : List Char) :
    SplitsAlike (ws ++ xs) ys (ws ++ p.1, p.2) (ws ++ q.1, q.2) := by
  induction ws with
  | nil => exact h
  | cons c ws ih => exact ih.cons c

theorem eq_append_of_splitGroup? {cs group rest : List Char} (h : splitGroup? opening closing depth cs = some (group, rest)) :
    cs = group ++ rest ∧ ∃ inner, group = inner ++ [closing] := by
  induction cs generalizing depth group with
  | nil => cases h
  | cons c cs ih =>
    have hmap : ∀ {d : Nat}, (splitGroup? opening closing d cs).map (fun x => (c :: x.1, x.2)) = some (group, rest) →
        c :: cs = group ++ rest ∧ ∃ inner, group = inner ++ [closing] := by
      intro d hd
      obtain ⟨⟨g, r⟩, hg, heq⟩ := Option.map_eq_some_iff.mp hd
      cases heq
      obtain ⟨hcs, inner, rfl⟩ := ih hg
      exact ⟨by rw [hcs, List.cons_append], c :: inner, rfl⟩
    rw [splitGroup?] at h
    split at h
    · exact hmap h
    · split at h
      · next hc =>
        split at h
        · cases h
          exact ⟨rfl, [], by rw [hc]; rfl⟩
        · exact hmap h
      · exact hmap h

/-- A space does not end a group. -/
theorem splitGroup?_space (ho : ' ' ≠ opening) (hc : ' ' ≠ closing) :
    (splitGroup? opening closing depth (xs ++ ys) = none ∧ splitGroup? opening closing depth (xs ++ ' ' :: ys) = none) ∨
      ∃ p q, SplitsAlike xs ys p q ∧ splitGroup? opening closing depth (xs ++ ys) = some p ∧
        splitGroup? opening closing depth (xs ++ ' ' :: ys) = some q := by
  induction xs generalizing depth with
  | nil =>
    rw [List.nil_append, List.nil_append, splitGroup?.eq_2, if_neg ho, if_neg hc]
    cases h : splitGroup? opening closing depth ys with
    | none => exact .inl ⟨rfl, rfl⟩
    | some p =>
      obtain ⟨heq, inner, hinner⟩ := eq_append_of_splitGroup? h
      exact .inr ⟨_, _, .after (hinner ▸ List.append_ne_nil_of_right_ne_nil inner (List.cons_ne_nil _ _)) heq, rfl, rfl⟩
  | cons c xs ih =>
    have hmap : ∀ d : Nat, ((splitGroup? opening closing d (xs ++ ys)).map (fun x => (c :: x.1, x.2)) = none ∧
        (splitGroup? opening closing d (xs ++ ' ' :: ys)).map (fun x => (c :: x.1, x.2)) = none) ∨
        ∃ p q, SplitsAlike (c :: xs) ys p q ∧
          (splitGroup? opening closing d (xs ++ ys)).map (fun x => (c :: x.1, x.2)) = some p ∧
          (splitGroup? opening closing d (xs ++ ' ' :: ys)).map (fun x => (c :: x.1, x.2)) = some q := by
      intro d
      rcases @ih d with ⟨h, h'⟩ | ⟨p, q, hpq, h, h'⟩
      · exact .inl ⟨by rw [h]; rfl, by rw [h']; rfl⟩
      · exact .inr ⟨_, _, hpq.cons c, by rw [h]; rfl, by rw [h']; rfl⟩
    rw [List.cons_append, List.cons_append, splitGroup?, splitGroup?]
    split
    · exact hmap _
    · split
      · split
        · exact .inr ⟨_, _, .before (List.cons_ne_nil c []) rfl, rfl, rfl⟩
        · exact hmap _
      · exact hmap _

/-- A run ends at a space, and does not go on after it where it could not have without it. -/
theorem splitRun_space {P : Char → Bool} (hspace : P ' ' = false) (h : (∀ c ∈ xs, P c = true) → StartsOutside P ys) :
    splitRun P (xs ++ ys) = (xs.takeWhile P, xs.dropWhile P ++ ys) ∧
      splitRun P (xs ++ ' ' :: ys) = (xs.takeWhile P, xs.dropWhile P ++ ' ' :: ys) := by
  have hsplit : ∀ zs, ((∀ c ∈ xs, P c = true) → StartsOutside P zs) →
      splitRun P (xs ++ zs) = (xs.takeWhile P, xs.dropWhile P ++ zs) := by
    intro zs hzs
    refine splitRun_eq_iff.mpr ⟨?_, fun c hc => List.mem_takeWhile_imp hc, ?_⟩
    · rw [← List.append_assoc, List.takeWhile_append_dropWhile]
    · cases hdrop : xs.dropWhile P with
      | nil => exact hzs (by simpa using hdrop)
      | cons c cs =>
        have := List.head?_dropWhile_not P xs
        rw [hdrop] at this
        simpa [StartsOutside] using this
  exact ⟨hsplit ys h, hsplit _ fun _ => startsOutside_cons.mpr hspace⟩

end Splits

/-! ### Operands on both sides of a space -/

section Operands

variable {xs ys us vs : List Char}

theorem getLast?_of_forall {P : Char → Bool} (hne : xs ≠ []) (h : ∀ c ∈ xs, P c = true) :
    ∃ c ∈ xs.getLast?, P c = true := by
  obtain ⟨ws, c, rfl⟩ := (List.eq_nil_or_concat' xs).resolve_left hne
  exact ⟨c, by simp, h c (by simp)⟩

/-- A run of characters that starts an operand is one, on both sides of a space. -/
theorem SplitsAlike.run {P : Char → Bool} {c : Char} {cs : List Char} (hspace : P ' ' = false) (hc : P c = true)
    (h : (∀ d ∈ c :: cs, P d = true) → StartsOutside P ys) :
    SplitsAlike (c :: cs) ys (splitRun P (c :: cs ++ ys)) (splitRun P (c :: cs ++ ' ' :: ys)) := by
  obtain ⟨hplain, hspaced⟩ := splitRun_space hspace h
  rw [hplain, hspaced]
  refine .before ?_ (List.takeWhile_append_dropWhile).symm
  rw [List.takeWhile_cons, if_pos hc]
  exact List.cons_ne_nil _ _

theorem splitCallee_space (h : (∀ c ∈ vs, isNameChar c = true) → StartsOutside isNameChar ys) :
    ∃ name rest, vs = name ++ rest ∧ splitCallee (vs ++ ys) = (name, rest ++ ys) ∧
      splitCallee (vs ++ ' ' :: ys) = (name, rest ++ ' ' :: ys) := by
  obtain ⟨hplain, hspaced⟩ := splitRun_space (by decide) h
  unfold splitCallee
  simp only [hplain, hspaced]
  split
  · exact ⟨_, _, (List.takeWhile_append_dropWhile).symm, rfl, rfl⟩
  · exact ⟨[], vs, rfl, rfl, rfl⟩

/-- A left operand is the same on both sides of a space where no literal, name or callee goes on. -/
theorem leftOperand_space (hne : xs ≠ []) (hnumber : (∀ d ∈ xs, isNumberChar d = true) → StartsOutside isNumberChar ys)
    (hname : (∀ d ∈ xs, isNameChar d = true) → StartsOutside isNameChar ys)
    (hgroup : ∀ inner vs, Balanced ')' '(' inner → xs = ')' :: inner ++ '(' :: vs → (∀ d ∈ vs, isNameChar d = true) →
      StartsOutside isNameChar ys) :
    Together (SplitsAlike xs ys) (leftOperand (xs ++ ys)) (leftOperand (xs ++ ' ' :: ys)) := by
  obtain ⟨c, cs, rfl⟩ := List.exists_cons_of_ne_nil hne
  simp only [leftOperand, List.cons_append]
  split
  · next hc => exact .ok (.run (by decide) hc hnumber)
  · split
    · next hc => exact .ok (.run (by decide) (isNameChar_of_isNameStart hc) hname)
    · split
      · next hc =>
        rcases @splitGroup?_space (c :: cs) ys ')' '(' 0 (by decide) (by decide) with
          ⟨hplain, hspaced⟩ | ⟨⟨group, rest⟩, q, hpq, hplain, hspaced⟩
        · rw [List.cons_append] at hplain hspaced
          rw [hplain, hspaced]
          exact .error _ _
        · rw [List.cons_append] at hplain hspaced
          rw [hplain, hspaced]
          cases hpq with
          | @before us vs hus hxs =>
            have hcallee : (∀ d ∈ vs, isNameChar d = true) → StartsOutside isNameChar ys := by
              rw [hc] at hplain
              obtain ⟨inner, hinner, rfl, -⟩ := (splitGroup?_eq_some_iff (by decide)).mp hplain
              exact hgroup inner vs hinner (by rw [hxs]; simp)
            obtain ⟨name, rest, rfl, hplain, hspaced⟩ := splitCallee_space hcallee
            simp only [hplain, hspaced]
            exact .ok (.before (List.append_ne_nil_of_left_ne_nil hus _) (by rw [hxs, List.append_assoc]))
          | @after us _ hus hys =>
            obtain ⟨name, start, hcallee⟩ : ∃ name start, splitCallee rest = (name, start) := ⟨_, _, rfl⟩
            obtain ⟨rfl, -⟩ := splitCallee_eq_iff.mp hcallee
            simp only [hcallee, List.append_assoc]
            exact .ok (.after (List.append_ne_nil_of_left_ne_nil hus name) (by rw [hys, List.append_assoc]))
      · exact .error _ _

theorem leadingGroup_space :
    Together (SplitsAlike xs ys) (leadingGroup (xs ++ ys)) (leadingGroup (xs ++ ' ' :: ys)) := by
  unfold leadingGroup
  rcases @splitGroup?_space xs ys '(' ')' 0 (by decide) (by decide) with ⟨hplain, hspaced⟩ | ⟨p, q, hpq, hplain, hspaced⟩
  · rw [hplain, hspaced]
    exact .error _ _
  · rw [hplain, hspaced]
    exact .ok hpq

theorem unsignedOperand_space (hne : xs ≠ []) (hnumber : (∀ d ∈ xs, isNumberChar d = true) → StartsOutside isNumberChar ys)
    (hname : (∀ d ∈ xs, isNameChar d = true) → StartsOutside isNameChar ys ∧ ys.head? ≠ some '(') :
    Together (SplitsAlike xs ys) (unsignedOperand (xs ++ ys)) (unsignedOperand (xs ++ ' ' :: ys)) := by
  obtain ⟨c, cs, rfl⟩ := List.exists_cons_of_ne_nil hne
  rw [List.cons_append, List.cons_append]
  simp only [unsignedOperand]
  split
  · next hc => exact .ok (.run (by decide) hc hnumber)
  · split
    · next hc =>
      obtain ⟨hplain, hspaced⟩ := splitRun_space (by decide) fun hall => (hname hall).1
      rw [List.cons_append] at hplain hspaced
      rw [hplain, hspaced]
      have hrun : (c :: cs).takeWhile isNameChar ≠ [] := by
        rw [List.takeWhile_cons, if_pos (isNameChar_of_isNameStart hc)]
        exact List.cons_ne_nil _ _
      have hsplit : (c :: cs).takeWhile isNameChar ++ (c :: cs).dropWhile isNameChar = c :: cs :=
        List.takeWhile_append_dropWhile
      simp only
      cases hdrop : (c :: cs).dropWhile isNameChar with
      | nil =>
        have hopen : ([] ++ ys).head? ≠ some '(' := (hname (by simpa using hdrop)).2
        rw [if_neg hopen, if_neg (by simp)]
        rw [hdrop] at hsplit
        exact .ok (.before hrun hsplit.symm)
      | cons d ds =>
        have hhead : ∀ zs, (d :: ds ++ zs).head? = some '(' ↔ d = '(' := by simp
        by_cases hd : d = '('
        · rw [if_pos ((hhead _).mpr hd), if_pos ((hhead _).mpr hd)]
          refine (@leadingGroup_space (d :: ds) ys).map fun p q hpq => ?_
          have := hpq.append ((c :: cs).takeWhile isNameChar)
          rwa [← hdrop, hsplit] at this
        · rw [if_neg (mt (hhead _).mp hd), if_neg (mt (hhead _).mp hd)]
          rw [hdrop] at hsplit
          exact .ok (.before hrun hsplit.symm)
    · split
      · exact leadingGroup_space
      · exact .error _ _

/-- A right operand is the same on both sides of a space where no literal, name or call goes on. -/
theorem rightOperand_space (hne : xs ≠ []) (hsign : xs ≠ ['-'] ∧ xs ≠ ['+'])
    (h : ∀ vs, vs = xs ∨ xs = '-' :: vs ∨ xs = '+' :: vs →
      ((∀ d ∈ vs, isNumberChar d = true) → StartsOutside isNumberChar ys) ∧
        ((∀ d ∈ vs, isNameChar d = true) → StartsOutside isNameChar ys ∧ ys.head? ≠ some '(')) :
    Together (SplitsAlike xs ys) (rightOperand (xs ++ ys)) (rightOperand (xs ++ ' ' :: ys)) := by
  obtain ⟨c, cs, rfl⟩ := List.exists_cons_of_ne_nil hne
  rw [List.cons_append, List.cons_append]
  simp only [rightOperand]
  split
  · next hc =>
    replace hc : c = '-' ∨ c = '+' := by simpa using hc
    have hcs : cs ≠ [] := by
      rintro rfl
      rcases hc with rfl | rfl
      · exact hsign.1 rfl
      · exact hsign.2 rfl
    obtain ⟨hnumber, hname⟩ := h cs (.inr (hc.imp (by rintro rfl; rfl) (by rintro rfl; rfl)))
    exact (unsignedOperand_space hcs hnumber hname).map fun p q hpq => hpq.cons c
  · obtain ⟨hnumber, hname⟩ := h (c :: cs) (.inl rfl)
    exact unsignedOperand_space hne hnumber hname

end Operands

/-! ### Cuts -/

/-- The characters after which a space does not matter, but for power signs. -/
def openers : List Char := ['(', '+', '-', '*', '/']

/-- The characters before which a space does not matter, but for power signs. -/
def closers : List Char := [')', '+', '-', '*', '/']

/-- Between `before`, nearest character first, and `after` no name, literal or call is cut, and no power sign stands, nor the
sign of an exponent. -/
structure IsCut (before after : List Char) : Prop where
  loose : (∃ c ∈ before.head?, c ∈ openers) ∨ ∃ c ∈ after.head?, c ∈ closers
  base : before.head? ≠ some '^'
  power : after.head? ≠ some '^'
  exponent : ∀ sign start, before = sign :: '^' :: start → sign ≠ '-' ∧ sign ≠ '+'

/-- The second text is the first one with a space at a place of a kind; what stands before it is given nearest character
first. -/
def SpacedAt (Place : List Char → List Char → Prop) (cs ds : List Char) : Prop :=
  ∃ before after, Place before after ∧ cs = before.reverse ++ after ∧ ds = before.reverse ++ ' ' :: after

section Cuts

variable {before after start us vs ws xs ys : List Char} {c : Char} {passes : Nat} {cs ds : List Char}

theorem openers_outside (h : c ∈ openers) : isNumberChar c = false ∧ isNameChar c = false ∧ c ≠ ')' := by
  simp only [openers, List.mem_cons, List.not_mem_nil, or_false] at h
  rcases h with rfl | rfl | rfl | rfl | rfl <;> decide

theorem closers_outside (h : c ∈ closers) : isNumberChar c = false ∧ isNameChar c = false ∧ c ≠ '(' := by
  simp only [closers, List.mem_cons, List.not_mem_nil, or_false] at h
  rcases h with rfl | rfl | rfl | rfl | rfl <;> decide

/-- The nearest characters decide what a cut is. -/
theorem IsCut.of_before (h : IsCut (us ++ vs) after) (hne : us ≠ []) (hc : c ≠ '^') : IsCut (us ++ c :: ws) after := by
  obtain ⟨a, us, rfl⟩ := List.exists_cons_of_ne_nil hne
  refine ⟨h.loose, h.base, h.power, fun sign start heq => ?_⟩
  cases us with
  | nil => exact absurd (List.cons.inj (List.cons.inj heq).2).1 hc
  | cons b us =>
    simp only [List.cons_append, List.cons.injEq] at heq
    obtain ⟨rfl, rfl, -⟩ := heq
    exact h.exponent _ (us ++ vs) rfl

theorem IsCut.of_after (h : IsCut before (us ++ vs)) (hne : us ≠ []) : IsCut before (us ++ ws) := by
  obtain ⟨a, us, rfl⟩ := List.exists_cons_of_ne_nil hne
  exact ⟨h.loose, h.base, h.power, h.exponent⟩

/-- Where a name or a literal ends before a cut, none starts after it, and no parenthesis. -/
theorem IsCut.outside_after (h : IsCut before after) (hc : c ∈ before.head?)
    (hname : isNumberChar c = true ∨ isNameChar c = true) :
    StartsOutside isNumberChar after ∧ StartsOutside isNameChar after ∧ after.head? ≠ some '(' := by
  rcases h.loose with ⟨d, hd, hopener⟩ | ⟨d, hd, hcloser⟩
  · obtain rfl : c = d := Option.mem_unique hc hd
    obtain ⟨hn, hm, -⟩ := openers_outside hopener
    rw [hn, hm] at hname
    rcases hname with hname | hname <;> cases hname
  · obtain ⟨hn, hm, hne⟩ := closers_outside hcloser
    obtain ⟨zs, rfl⟩ := List.head?_eq_some_iff.mp hd
    exact ⟨startsOutside_cons.mpr hn, startsOutside_cons.mpr hm, by simpa using hne⟩

/-- Where a name, a literal or a group starts after a cut, no name or literal ends before it. -/
theorem IsCut.outside_before (h : IsCut before after) (hc : c ∈ after.head?)
    (hname : isNumberChar c = true ∨ isNameChar c = true ∨ c = '(') :
    (∃ d ∈ before.head?, d ∈ openers) ∧ StartsOutside isNumberChar before ∧ StartsOutside isNameChar before := by
  rcases h.loose with ⟨d, hd, hopener⟩ | ⟨d, hd, hcloser⟩
  · obtain ⟨hn, hm, -⟩ := openers_outside hopener
    obtain ⟨zs, rfl⟩ := List.head?_eq_some_iff.mp hd
    exact ⟨⟨d, rfl, hopener⟩, startsOutside_cons.mpr hn, startsOutside_cons.mpr hm⟩
  · obtain rfl : c = d := Option.mem_unique hc hd
    obtain ⟨hn, hm, hne⟩ := closers_outside hcloser
    rw [hn, hm] at hname
    rcases hname with hname | hname | hname
    · cases hname
    · cases hname
    · exact absurd hname hne

/-- A left operand starts with a character that starts operands. -/
theorem IsLeftOperand.exists_cons (h : IsLeftOperand start xs) :
    ∃ c cs, xs = c :: cs ∧ (isNumberChar c = true ∨ isNameChar c = true ∨ c = '(') := by
  cases h with
  | literal hne hall _ =>
    obtain ⟨c, cs, rfl⟩ := List.exists_cons_of_ne_nil hne
    exact ⟨c, cs, rfl, .inl (hall c List.mem_cons_self)⟩
  | @name xs c hall hc _ =>
    cases xs with
    | nil => exact ⟨c, [], rfl, .inr (.inl (isNameChar_of_isNameStart hc))⟩
    | cons d xs => exact ⟨d, xs ++ [c], rfl, .inr (.inl (hall d List.mem_cons_self))⟩
  | @call c name inner hc _ _ _ =>
    exact ⟨c, _, rfl, .inr (.inl (isNameChar_of_isNameStart (isNameStart_of_isAlphabetic hc)))⟩
  | @group inner _ _ => exact ⟨'(', _, rfl, .inr (.inr rfl)⟩

/-! ### Powers on both sides of a space -/

section Powers

variable {Place : List Char → List Char → Prop}

/-- **A power before the space.** Its right operand ends before the space, or goes on after it; in both cases the space has to
stay at a place of its kind. -/
theorem SpacedAt.together_right
    (hright : Together (SplitsAlike xs ys) (rightOperand (xs ++ ys)) (rightOperand (xs ++ ' ' :: ys)))
    (hbefore : ∀ us vs zs, xs = us ++ vs → IsRightOperand (vs ++ ys) us → Place (vs.reverse ++ ')' :: (us.reverse ++ ',' :: zs)) ys)
    (hafter : ∀ us vs zs, us ≠ [] → ys = us ++ vs → IsRightOperand vs (xs ++ us) → Place (xs.reverse ++ ',' :: zs) (us ++ ')' :: vs)) :
    Together (SpacedAt Place) (replacePower start (xs ++ ys)) (replacePower start (xs ++ ' ' :: ys)) := by
  unfold replacePower
  cases leftOperand start with
  | error e => exact .error _ _
  | ok p =>
    obtain ⟨left, start⟩ := p
    refine hright.bind fun p q hp hpq => .ok ?_
    obtain ⟨-, hoperand⟩ := rightOperand_eq_ok_iff.mp hp
    cases hpq with
    | @before us vs _ hxs =>
      exact ⟨_, ys, hbefore us vs (left ++ '(' :: 'w' :: 'o' :: 'p' :: start) hxs hoperand, by simp, by simp⟩
    | @after us vs hus hys =>
      exact ⟨_, _, hafter us vs (left ++ '(' :: 'w' :: 'o' :: 'p' :: start) hus hys hoperand, by simp, by simp⟩

/-- **A power after the space.** Its left operand starts after the space, or before it; in both cases the space has to stay at a
place of its kind. -/
theorem SpacedAt.together_left
    (hleft : Together (SplitsAlike ws.reverse before) (leftOperand (ws.reverse ++ before)) (leftOperand (ws.reverse ++ ' ' :: before)))
    (hafter : ∀ us vs right rest, ws = vs ++ us → IsLeftOperand (vs.reverse ++ before) us → after = right ++ rest →
      IsRightOperand rest right → Place before (vs ++ ('p' :: 'o' :: 'w' :: '(' :: (us ++ ',' :: right)) ++ ')' :: rest))
    (hbefore : ∀ us vs right rest, before = us ++ vs → IsLeftOperand vs (us.reverse ++ ws) → after = right ++ rest →
      IsRightOperand rest right → us ≠ [] → Place (us ++ '(' :: 'w' :: 'o' :: 'p' :: vs) (ws ++ ',' :: (right ++ ')' :: rest))) :
    Together (SpacedAt Place) (replacePower (ws.reverse ++ before) after) (replacePower (ws.reverse ++ ' ' :: before) after) := by
  unfold replacePower
  refine hleft.bind fun p q hp hpq => ?_
  obtain ⟨-, hoperand⟩ := leftOperand_eq_ok_iff.mp hp
  cases hright : rightOperand after with
  | error e => exact .error _ _
  | ok r =>
    obtain ⟨right, rest⟩ := r
    obtain ⟨hsplit, hr⟩ := rightOperand_eq_ok_iff.mp hright
    refine .ok ?_
    cases hpq with
    | @before us vs _ hws =>
      have hws' : ws = vs.reverse ++ us.reverse := by rw [← List.reverse_append, ← hws, List.reverse_reverse]
      rw [← List.reverse_reverse vs] at hoperand
      exact ⟨_, _, hafter us.reverse vs.reverse right rest hws' hoperand hsplit hr, by simp, by simp⟩
    | @after us vs hus hus' =>
      have hoperand' : IsLeftOperand vs (us.reverse ++ ws) := by simpa using hoperand
      exact ⟨_, _, hbefore us vs right rest hus' hoperand' hsplit hr hus, by simp, by simp⟩

end Powers

/-! ### Powers next to a cut -/

theorem IsCut.ne_nil_before (h : IsCut (xs.reverse ++ '^' :: start) ys) : xs ≠ [] := by
  rintro rfl
  exact h.base rfl

theorem IsCut.ne_nil_after (h : IsCut before (ws ++ '^' :: after)) : ws ≠ [] := by
  rintro rfl
  exact h.power rfl

/-- What stands between a power sign and a cut is more than the sign of an exponent, and ends in the same character without
that sign. -/
theorem IsCut.getLast?_of_signed (h : IsCut (xs.reverse ++ '^' :: start) ys) (hvs : vs = xs ∨ xs = '-' :: vs ∨ xs = '+' :: vs) :
    vs ≠ [] ∧ vs.getLast? = (xs.reverse ++ '^' :: start).head? := by
  have hhead : (xs.reverse ++ '^' :: start).head? = xs.getLast? := by
    rw [List.head?_append_of_ne_nil _ (by simpa using h.ne_nil_before), List.head?_reverse]
  rw [hhead]
  rcases hvs with rfl | rfl | rfl
  · exact ⟨h.ne_nil_before, rfl⟩
  · have hvs : vs ≠ [] := by
      rintro rfl
      exact (h.exponent '-' start rfl).1 rfl
    exact ⟨hvs, (List.getLast?_cons_of_ne_nil hvs).symm⟩
  · have hvs : vs ≠ [] := by
      rintro rfl
      exact (h.exponent '+' start rfl).2 rfl
    exact ⟨hvs, (List.getLast?_cons_of_ne_nil hvs).symm⟩

theorem IsCut.together_rightOperand (h : IsCut (xs.reverse ++ '^' :: start) ys) :
    Together (SplitsAlike xs ys) (rightOperand (xs ++ ys)) (rightOperand (xs ++ ' ' :: ys)) := by
  have hsign : xs ≠ ['-'] ∧ xs ≠ ['+'] :=
    ⟨fun hxs => (h.getLast?_of_signed (.inr (.inl hxs))).1 rfl, fun hxs => (h.getLast?_of_signed (.inr (.inr hxs))).1 rfl⟩
  refine rightOperand_space h.ne_nil_before hsign fun vs hvs => ?_
  obtain ⟨hne, hlast⟩ := h.getLast?_of_signed hvs
  constructor
  · intro hall
    obtain ⟨c, hc, hnumber⟩ := getLast?_of_forall hne hall
    exact (h.outside_after (hlast ▸ hc) (.inl hnumber)).1
  · intro hall
    obtain ⟨c, hc, hname⟩ := getLast?_of_forall hne hall
    exact (h.outside_after (hlast ▸ hc) (.inr hname)).2

theorem IsCut.together_leftOperand (h : IsCut before (ws ++ '^' :: after)) :
    Together (SplitsAlike ws.reverse before) (leftOperand (ws.reverse ++ before)) (leftOperand (ws.reverse ++ ' ' :: before)) := by
  have hhead : (ws ++ '^' :: after).head? = ws.reverse.getLast? := by
    rw [List.head?_append_of_ne_nil _ h.ne_nil_after, List.getLast?_reverse]
  have hne : ws.reverse ≠ [] := by simpa using h.ne_nil_after
  refine leftOperand_space hne (fun hall => ?_) (fun hall => ?_) fun inner vs _ hws hall => ?_
  · obtain ⟨c, hc, hnumber⟩ := getLast?_of_forall hne hall
    exact (h.outside_before (hhead ▸ hc) (.inl hnumber)).2.1
  · obtain ⟨c, hc, hname⟩ := getLast?_of_forall hne hall
    exact (h.outside_before (hhead ▸ hc) (.inr (.inl hname))).2.2
  · obtain rfl | ⟨us, c, rfl⟩ := List.eq_nil_or_concat' vs
    · have hopen : '(' ∈ (ws ++ '^' :: after).head? := by rw [Option.mem_def, hhead, hws, List.getLast?_concat]
      exact (h.outside_before hopen (.inr (.inr rfl))).2.2
    · have hc : c ∈ (ws ++ '^' :: after).head? := by
        rw [Option.mem_def, hhead, hws, ← List.cons_append, ← List.append_assoc, List.getLast?_concat]
      exact (h.outside_before hc (.inr (.inl (hall c (by simp))))).2.2

/-- Where a right operand ends at a cut, what follows the space is what makes it one. -/
theorem IsRightOperand.mem_closers {rest : List Char} (hoperand : IsRightOperand rest us) (h : IsCut (us.reverse ++ start) ys) :
    ∃ c ∈ ys.head?, c ∈ closers := by
  obtain ⟨zs, c, rfl, hc⟩ := hoperand.exists_concat
  refine h.loose.resolve_left ?_
  rintro ⟨d, hd, hopener⟩
  obtain rfl : c = d := by simpa using hd
  obtain ⟨hn, hm, hne⟩ := openers_outside hopener
  rw [hn, hm] at hc
  rcases hc with hc | hc | hc
  · cases hc
  · cases hc
  · exact hne hc

/-- **Powers before a cut** leave it one. -/
theorem IsCut.together_right (h : IsCut (xs.reverse ++ '^' :: start) ys) :
    Together (SpacedAt IsCut) (replacePower start (xs ++ ys)) (replacePower start (xs ++ ' ' :: ys)) := by
  refine SpacedAt.together_right h.together_rightOperand (fun us vs zs hxs hoperand => ?_) fun us vs zs hus hys _ => ?_
  · subst hxs
    rw [List.reverse_append, List.append_assoc] at h
    by_cases hvs : vs = []
    · subst hvs
      refine ⟨.inr (hoperand.mem_closers h), by simp, h.power, fun sign start heq => ?_⟩
      obtain ⟨rfl, -⟩ := List.cons.inj heq
      decide
    · exact h.of_before (by simpa using hvs) (by decide)
  · subst hys
    exact (h.of_before (by simpa using h.ne_nil_before) (by decide)).of_after hus

/-- **Powers after a cut** leave it one. -/
theorem IsCut.together_left (h : IsCut before (ws ++ '^' :: after)) :
    Together (SpacedAt IsCut) (replacePower (ws.reverse ++ before) after) (replacePower (ws.reverse ++ ' ' :: before) after) := by
  refine SpacedAt.together_left h.together_leftOperand (fun us vs right rest hws hoperand _ _ => ?_)
    fun us vs right rest hbefore _ _ _ hus => ?_
  · subst hws
    rw [List.append_assoc] at h ⊢
    by_cases hvs : vs = []
    · subst hvs
      -- the space precedes the call, so that what precedes the space is what makes it a cut
      obtain ⟨c, zs, rfl, hc⟩ := hoperand.exists_cons
      exact ⟨.inl (h.outside_before rfl hc).1, h.base, by simp, h.exponent⟩
    · exact h.of_after hvs
  · have hne := h.ne_nil_after
    subst hbefore
    exact (h.of_before hus (by decide)).of_after hne

/-! ### All passes -/

/-- **Passes.** Where one power more keeps the space at a place of its kind, or fails with and without it, so do the passes. -/
theorem together_replacePasses {Place : List Char → List Char → Prop}
    (hright : ∀ xs ys start, Place (xs.reverse ++ '^' :: start) ys →
      Together (SpacedAt Place) (replacePower start (xs ++ ys)) (replacePower start (xs ++ ' ' :: ys)))
    (hleft : ∀ before ws after, Place before (ws ++ '^' :: after) →
      Together (SpacedAt Place) (replacePower (ws.reverse ++ before) after) (replacePower (ws.reverse ++ ' ' :: before) after))
    (h : SpacedAt Place cs ds) : Together (SpacedAt Place) (replacePasses passes cs) (replacePasses passes ds) := by
  induction passes generalizing cs ds with
  | zero => exact .error _ _
  | succ passes ih =>
    obtain ⟨before, after, hplace, rfl, rfl⟩ := h
    by_cases hbefore : '^' ∈ before
    · obtain ⟨start, xs, hstart, heq⟩ := exists_first_caret (List.mem_reverse.mpr hbefore)
      obtain rfl : before = xs.reverse ++ '^' :: start := by
        rw [← List.reverse_reverse before, heq]
        simp
      have htext : ∀ zs, (xs.reverse ++ '^' :: start).reverse ++ zs = start.reverse ++ '^' :: (xs ++ zs) := by simp
      rw [htext, htext, replacePasses_caret hstart, replacePasses_caret hstart]
      exact (hright xs after start hplace).bind fun _ _ _ hspaced => ih hspaced
    · by_cases hafter : '^' ∈ after
      · obtain ⟨ws, right, hws, rfl⟩ := exists_first_caret hafter
        have hfirst : '^' ∉ ws ++ before ∧ '^' ∉ ws ++ ' ' :: before := by simp [hws, hbefore]
        have htext : before.reverse ++ (ws.reverse ++ '^' :: right) = (ws ++ before).reverse ++ '^' :: right ∧
            before.reverse ++ ' ' :: (ws.reverse ++ '^' :: right) = (ws ++ ' ' :: before).reverse ++ '^' :: right := by
          simp
        rw [htext.1, htext.2, replacePasses_caret hfirst.1, replacePasses_caret hfirst.2]
        have hpower := hleft before ws.reverse right hplace
        rw [List.reverse_reverse] at hpower
        exact hpower.bind fun _ _ _ hspaced => ih hspaced
      · rw [replacePasses_of_not_mem (by simp [hbefore, hafter]), replacePasses_of_not_mem (by simp [hbefore, hafter])]
        exact .ok ⟨before, after, hplace, rfl, rfl⟩

end Cuts

/-! ### Tokens -/

section Tokens

variable {names : List String} {us vs cs ds before after : List Char} {position position' : Nat}

theorem together_cons {x y : Except ParseError (List Token)} (h : Together (· = ·) x y) (t : Token) :
    Together (· = ·) (x.map (t :: ·)) (y.map (t :: ·)) := h.map fun _ _ heq => congrArg (t :: ·) heq

/-- Where a text stands matters for messages only. -/
theorem together_tokensFrom (cs : List Char) (position position' : Nat) :
    Together (· = ·) (tokensFrom position cs) (tokensFrom position' cs) := by
  match cs with
  | [] =>
    rw [tokensFrom, tokensFrom]
    exact .ok rfl
  | c :: rest =>
    rw [tokensFrom, tokensFrom]
    split
    · exact together_tokensFrom rest _ _
    · split
      · dsimp only
        split
        · exact .error _ _
        · exact together_cons (together_tokensFrom _ _ _) _
      · split
        · exact together_cons (together_tokensFrom _ _ _) _
        · split
          · exact .error _ _
          · exact together_cons (together_tokensFrom rest _ _) _
termination_by cs.length
decreasing_by all_goals first | exact length_dropWhile_lt_cons _ _ _ | exact Nat.lt_succ_self _

/-- A space that cuts no name and no literal leaves the tokens as they are. -/
theorem together_tokensFrom_space (us : List Char) (position position' : Nat)
    (h : ∀ P : Char → Bool, P = isNumberChar ∨ P = isNameChar → ∀ c ∈ us.getLast?, P c = true → StartsOutside P vs) :
    Together (· = ·) (tokensFrom position (us ++ vs)) (tokensFrom position' (us ++ ' ' :: vs)) := by
  match us with
  | [] =>
    rw [List.nil_append, List.nil_append, tokensFrom.eq_2, isBlank_space, if_pos rfl]
    exact together_tokensFrom _ _ _
  | c :: rest =>
    have hrest : ∀ ws : List Char, ws <:+ rest →
        ∀ P : Char → Bool, P = isNumberChar ∨ P = isNameChar → ∀ d ∈ ws.getLast?, P d = true → StartsOutside P vs := by
      rintro ws ⟨xs, rfl⟩ P hP d hd
      refine h P hP d ?_
      have hne : ws ≠ [] := by
        rintro rfl
        cases hd
      rw [← List.cons_append, List.getLast?_append_of_ne_nil _ hne]
      exact hd
    have hrun : ∀ P : Char → Bool, P ' ' = false → P = isNumberChar ∨ P = isNameChar → P c = true →
        splitRun P (rest ++ vs) = (rest.takeWhile P, rest.dropWhile P ++ vs) ∧
          splitRun P (rest ++ ' ' :: vs) = (rest.takeWhile P, rest.dropWhile P ++ ' ' :: vs) := by
      intro P hspace hP hc
      refine splitRun_space hspace fun hall => ?_
      obtain ⟨d, hd, hPd⟩ := getLast?_of_forall (List.cons_ne_nil c rest) (List.forall_mem_cons.mpr ⟨hc, hall⟩)
      exact h P hP d hd hPd
    rw [List.cons_append, List.cons_append, tokensFrom, tokensFrom]
    split
    · exact together_tokensFrom_space rest _ _ (hrest rest List.suffix_rfl)
    · split
      · next hc =>
        obtain ⟨hplain, hspaced⟩ := hrun _ (by decide) (.inl rfl) hc
        simp only [splitRun, Prod.mk.injEq] at hplain hspaced
        rw [hplain.1, hplain.2, hspaced.1, hspaced.2]
        dsimp only
        split
        · exact .error _ _
        · exact together_cons (together_tokensFrom_space _ _ _ (hrest _ (List.dropWhile_suffix _))) _
      · split
        · next hc =>
          obtain ⟨hplain, hspaced⟩ := hrun _ (by decide) (.inr rfl) (isNameChar_of_isNameStart hc)
          simp only [splitRun, Prod.mk.injEq] at hplain hspaced
          rw [hplain.1, hplain.2, hspaced.1, hspaced.2]
          exact together_cons (together_tokensFrom_space _ _ _ (hrest _ (List.dropWhile_suffix _))) _
        · split
          · exact .error _ _
          · exact together_cons (together_tokensFrom_space rest _ _ (hrest rest List.suffix_rfl)) _
termination_by us.length
decreasing_by all_goals first | exact length_dropWhile_lt_cons _ _ _ | exact Nat.lt_succ_self _

theorem IsCut.together_tokens (h : IsCut before after) :
    Together (· = ·) (tokens (before.reverse ++ after)) (tokens (before.reverse ++ ' ' :: after)) := by
  refine together_tokensFrom_space _ _ _ fun P hP c hc hPc => ?_
  rw [List.getLast?_reverse] at hc
  rcases hP with rfl | rfl
  · exact (h.outside_after hc (.inl hPc)).1
  · exact (h.outside_after hc (.inr hPc)).2.1

theorem tightProgram?_of_together
    (h : Together (fun xs ys => Together (· = ·) (tokens xs) (tokens ys)) (replacePasses maxPasses cs) (replacePasses maxPasses ds)) :
    tightProgram? names ds = tightProgram? names cs := by
  unfold tightProgram?
  generalize replacePasses maxPasses cs = x at h ⊢
  generalize replacePasses maxPasses ds = y at h ⊢
  cases h with
  | error e e' => rfl
  | @ok xs ys htokens =>
    simp only [Except.toOption, Option.bind_eq_bind, Option.bind_some]
    generalize tokens xs = x at htokens ⊢
    generalize tokens ys = y at htokens ⊢
    cases htokens with
    | error e e' => rfl
    | ok heq => rw [heq]

/-- **Spaces.** A space at a place of a kind that the passes keep, and that cuts no tokens, leaves the program as it is. -/
theorem tightProgram?_of_spacedAt {Place : List Char → List Char → Prop}
    (hright : ∀ xs ys start, Place (xs.reverse ++ '^' :: start) ys →
      Together (SpacedAt Place) (replacePower start (xs ++ ys)) (replacePower start (xs ++ ' ' :: ys)))
    (hleft : ∀ before ws after, Place before (ws ++ '^' :: after) →
      Together (SpacedAt Place) (replacePower (ws.reverse ++ before) after) (replacePower (ws.reverse ++ ' ' :: before) after))
    (htokens : ∀ before after, Place before after →
      Together (· = ·) (tokens (before.reverse ++ after)) (tokens (before.reverse ++ ' ' :: after)))
    (h : SpacedAt Place cs ds) : tightProgram? names ds = tightProgram? names cs := by
  refine tightProgram?_of_together ?_
  have hpasses := @together_replacePasses maxPasses cs ds Place hright hleft h
  generalize replacePasses maxPasses cs = x at hpasses ⊢
  generalize replacePasses maxPasses ds = y at hpasses ⊢
  cases hpasses with
  | error e e' => exact .error e e'
  | ok hplace =>
    obtain ⟨before, after, hplace, rfl, rfl⟩ := hplace
    exact .ok (htokens before after hplace)

/-- **A space at a cut** leaves the program as it is. -/
theorem tightProgram?_of_isCut (h : SpacedAt IsCut cs ds) : tightProgram? names ds = tightProgram? names cs :=
  tightProgram?_of_spacedAt (fun _ _ _ => IsCut.together_right) (fun _ _ _ => IsCut.together_left)
    (fun _ _ => IsCut.together_tokens) h

end Tokens

end Numerics.Formula
