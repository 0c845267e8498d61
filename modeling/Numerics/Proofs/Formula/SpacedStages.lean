import Numerics.Proofs.Formula.ArgumentCommas
import Numerics.Proofs.Formula.SpacedCalls

/-!
# The stages next to a space

What the stages before the replacement of powers make of a text falls into two parts at a place between two tokens, and a
space there stays between the parts, unless it is next to a power sign.
-/

namespace Numerics.Formula

open Text

/-! ### Blanks -/

section Blanks

variable {us vs xs ys : List Char} {b c d : Char} {gap : Bool}

theorem squeeze_append_congr (h : ∀ gap, squeeze gap xs = squeeze gap ys) : squeeze gap (us ++ xs) = squeeze gap (us ++ ys) := by
  induction us generalizing gap with
  | nil => exact h gap
  | cons a us ih => simp only [List.cons_append, squeeze, ih]

theorem collapseBlanks_cons : collapseBlanks (c :: vs) = if isBlank c then collapseBlanks vs else squeeze false (c :: vs) := by
  unfold collapseBlanks
  rw [List.dropWhile_cons]
  split <;> rfl

theorem collapseBlanks_append_congr (h : ∀ gap, squeeze gap xs = squeeze gap ys) (hcollapse : collapseBlanks xs = collapseBlanks ys) :
    collapseBlanks (us ++ xs) = collapseBlanks (us ++ ys) := by
  induction us with
  | nil => exact hcollapse
  | cons a us ih =>
    rw [List.cons_append, List.cons_append, collapseBlanks_cons, collapseBlanks_cons, ih]
    congr 1
    exact @squeeze_append_congr (a :: us) _ _ _ h

/-- Where there is a blank already, a space adds nothing. -/
theorem collapseBlanks_space (h : (∃ b ∈ us.getLast?, isBlank b = true) ∨ ∃ b ∈ vs.head?, isBlank b = true) :
    collapseBlanks (us ++ ' ' :: vs) = collapseBlanks (us ++ vs) := by
  rcases h with ⟨b, hlast, hb⟩ | ⟨b, hhead, hb⟩
  · obtain ⟨us, rfl⟩ := List.getLast?_eq_some_iff.mp hlast
    rw [List.append_assoc, List.append_assoc]
    refine collapseBlanks_append_congr (fun gap => ?_) ?_
    · simp [squeeze, hb, isBlank_space]
    · simp [collapseBlanks_cons, hb, isBlank_space]
  · obtain ⟨vs, rfl⟩ := List.head?_eq_some_iff.mp hhead
    refine collapseBlanks_append_congr (fun gap => ?_) ?_
    · simp [squeeze, hb, isBlank_space]
    · simp [collapseBlanks_cons, isBlank_space]

theorem squeeze_append_cons (hc : isBlank c = false) (us : List Char) (gap : Bool) :
    ∃ ws, ∀ vs, squeeze gap (us ++ c :: vs) = ws ++ c :: squeeze false vs := by
  induction us generalizing gap with
  | nil =>
    cases gap with
    | true => exact ⟨[' '], fun vs => by simp [squeeze, hc]⟩
    | false => exact ⟨[], fun vs => by simp [squeeze, hc]⟩
  | cons a us ih =>
    obtain ⟨ws, hws⟩ := ih true
    obtain ⟨ws', hws'⟩ := ih false
    simp only [List.cons_append, squeeze]
    split
    · exact ⟨ws, hws⟩
    · split
      · exact ⟨' ' :: a :: ws', fun vs => by simp [hws']⟩
      · exact ⟨a :: ws', fun vs => by simp [hws']⟩

/-- A collapsed text falls apart after a character that is no blank. -/
theorem collapseBlanks_append_cons (hc : isBlank c = false) (us : List Char) :
    ∃ ws, ∀ vs, collapseBlanks (us ++ c :: vs) = ws ++ c :: squeeze false vs := by
  induction us with
  | nil => exact ⟨[], fun vs => by simp [collapseBlanks_cons, squeeze, hc]⟩
  | cons a us ih =>
    obtain ⟨ws, hws⟩ := ih
    obtain ⟨ws', hws'⟩ := squeeze_append_cons hc (a :: us) false
    cases ha : isBlank a with
    | true => exact ⟨ws, fun vs => by rw [List.cons_append, collapseBlanks_cons, if_pos ha, hws]⟩
    | false => exact ⟨ws', fun vs => by rw [List.cons_append, collapseBlanks_cons, if_neg (by simp [ha]), ← List.cons_append, hws']⟩

theorem scan_collapseBlanks {callable : List Char → Bool} (h : ∀ c ∈ us.getLast?, isBlank c = false) :
    scan callable .free (collapseBlanks us) = scan callable .free us := by
  induction us with
  | nil => rfl
  | cons a us ih =>
    rw [collapseBlanks_cons]
    cases ha : isBlank a with
    | true =>
      have hfree : Site.free.next callable a = .free := by rw [Site.next, kindOf_of_isBlank ha]; rfl
      have hus : us ≠ [] := by
        rintro rfl
        rw [h a rfl] at ha
        cases ha
      rw [List.getLast?_cons_of_ne_nil hus] at h
      rw [if_pos rfl, scan_cons, hfree, ih h]
    | false =>
      rw [if_neg Bool.false_ne_true]
      exact (scan_squeeze h).1

end Blanks

/-! ### Commas -/

section Commas

variable {us vs xs before before' : List Char} {c d : Char}

/-- The commas before a character that is none are replaced without regard to what follows it. -/
theorem pointCommasAfter_append_cons (hc : c ≠ ',') (us before : List Char) :
    ∃ ws, ∀ vs, pointCommasAfter before (openGroups before) (us ++ c :: vs) =
      ws ++ c :: pointCommasAfter (c :: (ws.reverse ++ before)) (openGroups (c :: (ws.reverse ++ before))) vs := by
  induction us generalizing before with
  | nil => exact ⟨[], fun vs => by rw [List.nil_append, pointCommasAfter_cons, pointed_of_ne hc]; rfl⟩
  | cons a us ih =>
    have hpointed : ∀ vs, pointed before a (us ++ c :: vs) = pointed before a (us ++ [c]) := by
      intro vs
      unfold pointed isDecimalComma
      cases us <;> rfl
    obtain ⟨ws, hws⟩ := ih (pointed before a (us ++ [c]) :: before)
    refine ⟨pointed before a (us ++ [c]) :: ws, fun vs => ?_⟩
    rw [List.cons_append, pointCommasAfter_cons, hpointed, hws]
    simp

/-- A space between two characters that are no commas, and not both in a name, leaves the names that end after it what they are. -/
theorem opensTwoArguments_space (hname : isNameChar c = false ∨ isNameChar d = false) (xs : List Char) :
    opensTwoArguments (xs ++ d :: ' ' :: c :: before) = opensTwoArguments (xs ++ d :: c :: before) := by
  rcases hname with hc | hd
  · have hsplit : ∀ ys, xs ++ d :: ys = xs ++ [d] ++ ys := by simp
    rw [hsplit (' ' :: c :: before), hsplit (c :: before), opensTwoArguments_append (startsOutside_cons.mpr (by decide)),
      opensTwoArguments_append (startsOutside_cons.mpr hc)]
  · rw [opensTwoArguments_append (startsOutside_cons.mpr hd), opensTwoArguments_append (startsOutside_cons.mpr hd)]

/-- A space that parts no name leaves the commas after it what they are, unless it parts the name of a function that takes two
arguments from them and there is a comma between two digits among these. -/
theorem pointCommasAfter_space (hd : d ≠ ',') (hname : isNameChar c = false ∨ isNameChar d = false ∧
      (d = '(' → opensTwoArguments (c :: before) = true → hasArgumentComma 0 false vs = false)) :
    pointCommasAfter (c :: before) (openGroups (c :: before)) (' ' :: d :: vs) =
      ' ' :: pointCommasAfter (c :: before) (openGroups (c :: before)) (d :: vs) := by
  have hopens : ∀ xs, opensTwoArguments (xs ++ d :: ' ' :: c :: before) = opensTwoArguments (xs ++ d :: c :: before) :=
    opensTwoArguments_space (hname.imp_right And.left)
  have hspace : openGroups (' ' :: c :: before) = openGroups (c :: before) := openGroups_cons (by decide) (by decide)
  rw [pointCommasAfter_cons, pointed_of_ne (by decide), pointCommasAfter_cons, pointed_of_ne hd, pointCommasAfter_cons, pointed_of_ne hd]
  refine congrArg (fun cs => ' ' :: d :: cs) ?_
  by_cases hcall : d = '(' ∧ opensTwoArguments (c :: before) = true
  · -- the group of the arguments is taken for another one
    obtain ⟨rfl, htwo⟩ := hcall
    have hcomma : hasArgumentComma 0 false vs = false := by
      rcases hname with hc | ⟨-, hcomma⟩
      · rw [opensTwoArguments_of_startsOutside (startsOutside_cons.mpr hc)] at htwo
        cases htwo
      · exact hcomma rfl htwo
    refine pointCommasAfter_agreesBut ⟨fun i hi => ?_, hopens, rfl⟩ hcomma
    obtain ⟨i, rfl⟩ := Nat.exists_eq_succ_of_ne_zero hi
    rw [openGroups_openParen, openGroups_openParen, hspace]
    rfl
  · have hgroups : openGroups (d :: ' ' :: c :: before) = openGroups (d :: c :: before) := by
      by_cases ho : d = '('
      · subst ho
        rw [openGroups_openParen, openGroups_openParen, opensTwoArguments_of_startsOutside (startsOutside_cons.mpr (by decide)),
          Bool.eq_false_iff.mpr fun h => hcall ⟨rfl, h⟩, hspace]
      · by_cases hc : d = ')'
        · subst hc
          rfl
        · rw [openGroups_cons ho hc, openGroups_cons ho hc, hspace]
    exact pointCommasAfter_congr ⟨fun i => by rw [hgroups]; exact id, fun xs => by rw [hopens]; exact id, id⟩
      ⟨fun i => by rw [hgroups]; exact id, fun xs => by rw [hopens]; exact id, id⟩

end Commas

/-! ### Power signs -/

section Signs

variable {us vs xs ys : List Char} {c d : Char} {s : Site} {afterCaret : Bool}

/-- A text whose last star is not the first one of two falls apart before a star. -/
theorem caretStars_append_of_scan (hs : s = .star → us.head? ≠ some '*')
    (h : vs.head? = some '*' → scan isFunctionName s us ≠ .star ∧ scan isFunctionName s us ≠ .clash) :
    caretStars (us ++ vs) = caretStars us ++ caretStars vs := by
  fun_induction caretStars us generalizing s with
  | case1 us ih =>
    refine congrArg ('^' :: ·) (ih (fun hstar => ?_) h)
    have hkind : kindOf '*' = .star := by decide
    have hne : s ≠ .star := fun hstar => hs hstar rfl
    rw [Site.next, Site.next, hkind] at hstar
    cases s <;> first | exact absurd rfl hne | cases hstar
  | case2 c us hne ih =>
    have hone : ∀ ws, us ++ vs = '*' :: ws → c ≠ '*' := by
      rintro ws heq rfl
      cases us with
      | nil =>
        obtain ⟨hstar, hclash⟩ := h (by rw [List.nil_append] at heq; rw [heq]; rfl)
        have hkind : kindOf '*' = .star := by decide
        rw [scan_cons, scan_nil, Site.next, hkind] at hstar hclash
        cases s <;> first | exact hs rfl rfl | exact hstar rfl | exact hclash rfl
      | cons a us =>
        obtain ⟨rfl, -⟩ := List.cons.inj heq
        exact hne us rfl rfl
    have hcons : caretStars (c :: (us ++ vs)) = c :: caretStars (us ++ vs) := by
      rw [caretStars.eq_2]
      exact fun ws hc heq => hone ws heq hc
    rw [List.cons_append, hcons, List.cons_append]
    refine congrArg (c :: ·) (ih (fun hstar hhead => ?_) h)
    obtain rfl := eq_star_of_next hstar
    obtain ⟨ws, rfl⟩ := List.head?_eq_some_iff.mp hhead
    exact hne ws rfl rfl
  | case3 => rfl

theorem getLast?_caretStars (us : List Char) :
    (caretStars us).getLast? = us.getLast? ∨ (caretStars us).getLast? = some '^' := by
  fun_induction caretStars us with
  | case1 us ih =>
    rw [List.getLast?_cons, List.getLast?_cons, List.getLast?_cons]
    rcases ih with h | h <;> rw [h]
    · cases us.getLast? with
      | none => exact .inr rfl
      | some c => exact .inl rfl
    · exact .inr rfl
  | case2 c us _ ih =>
    rw [List.getLast?_cons, List.getLast?_cons]
    rcases ih with h | h <;> rw [h]
    · exact .inl rfl
    · exact .inr rfl
  | case3 => exact .inl rfl

theorem tightenCarets_append_cons (hc : c ≠ ' ') (us : List Char) (afterCaret : Bool) :
    ∃ ws, ∀ vs, tightenCarets afterCaret (us ++ c :: vs) = ws ++ c :: tightenCarets (c == '^') vs := by
  induction us generalizing afterCaret with
  | nil => exact ⟨[], fun vs => by rw [List.nil_append, tightenCarets_cons hc]; rfl⟩
  | cons a us ih =>
    have hhead : ∀ vs, (us ++ c :: vs).head? = (us ++ [c]).head? := by
      intro vs
      cases us <;> rfl
    obtain ⟨ws, hws⟩ := ih afterCaret
    obtain ⟨ws', hws'⟩ := ih (a == '^')
    simp only [List.cons_append, tightenCarets, hhead]
    split
    · exact ⟨ws, hws⟩
    · exact ⟨a :: ws', fun vs => by rw [hws', List.cons_append]⟩

theorem tightenCarets_space_cons (h : vs.head? ≠ some '^') :
    tightenCarets false (' ' :: vs) = ' ' :: tightenCarets false vs := by
  rw [tightenCarets, if_neg (by simp [h])]
  rfl

/-- A space next to a power sign goes. -/
theorem tightenCarets_space (hc : c ≠ ' ') (h : c = '^' ∨ vs.head? = some '^') :
    tightenCarets false (us ++ c :: ' ' :: vs) = tightenCarets false (us ++ c :: vs) := by
  obtain ⟨ws, hws⟩ := tightenCarets_append_cons hc us false
  rw [hws, hws, tightenCarets, if_pos]
  simpa using h

theorem outside_of_mem_openers (h : c ∈ '^' :: openers) : isNameChar c = false := by
  rcases List.mem_cons.mp h with rfl | h
  · decide
  · exact (openers_outside h).2.1

theorem outside_of_mem_closers (h : d ∈ '^' :: closers) : isNameChar d = false ∧ d ≠ '(' := by
  rcases List.mem_cons.mp h with rfl | h
  · decide
  · exact (closers_outside h).2

end Signs

/-! ### All stages -/

/-- A text in small letters, with its blanks collapsed, points for decimal commas, and `^` for `**`. -/
def powerText (cs : List Char) : List Char := caretStars (pointCommas (collapseBlanks cs))

theorem plainText_eq_powerText (cs : List Char) : plainText cs = powerText (lowerCase cs) := by
  unfold plainText powerText
  rw [lowerCase_collapseBlanks]

section Stages

variable {us vs : List Char} {c d : Char} {names : List String}

/-- A text with points for decimal commas falls apart after a character that is neither a blank nor a comma. -/
theorem pointCommas_append_cons (hc : isBlank c = false ∧ c ≠ ',') (us : List Char) :
    ∃ ps, pointCommas (collapseBlanks (us ++ [c])) = ps ++ [c] ∧ ∀ vs, pointCommas (collapseBlanks (us ++ c :: vs)) =
      ps ++ c :: pointCommasAfter (c :: ps.reverse) (openGroups (c :: ps.reverse)) (squeeze false vs) := by
  obtain ⟨ws, hws⟩ := collapseBlanks_append_cons hc.1 us
  obtain ⟨ps, hps⟩ := pointCommasAfter_append_cons hc.2 ws []
  have hall : ∀ vs, pointCommas (collapseBlanks (us ++ c :: vs)) =
      ps ++ c :: pointCommasAfter (c :: ps.reverse) (openGroups (c :: ps.reverse)) (squeeze false vs) := by
    intro vs
    have := hps (squeeze false vs)
    rw [List.append_nil] at this
    rw [hws, pointCommas]
    exact this
  exact ⟨ps, hall [], hall⟩

/-- A text falls apart between two tokens that are no commas, and a space there stays between the parts. -/
theorem powerText_space (hc : isBlank c = false ∧ c ≠ ',') (hd : isBlank d = false ∧ d ≠ ',')
    (hname : isNameChar c = false ∨ isNameChar d = false ∧
      (d = '(' → opensTwoArguments (pointCommas (collapseBlanks (us ++ [c]))).reverse = true → hasArgumentComma 0 false vs = false))
    (hstar : d = '*' → scan isFunctionName .free (pointCommas (collapseBlanks (us ++ [c]))) ≠ .star ∧
      scan isFunctionName .free (pointCommas (collapseBlanks (us ++ [c]))) ≠ .clash) :
    ∃ zs, powerText (us ++ c :: d :: vs) = powerText (us ++ [c]) ++ zs ∧
      powerText (us ++ c :: ' ' :: d :: vs) = powerText (us ++ [c]) ++ ' ' :: zs ∧
      (zs.head? = some d ∨ d = '*' ∧ zs.head? = some '^') := by
  obtain ⟨ps, hleft, hps⟩ := pointCommas_append_cons hc us
  rw [hleft] at hname hstar
  rw [List.reverse_append, List.reverse_singleton, List.singleton_append, ← hasArgumentComma_squeeze.1] at hname
  have hsqueeze : squeeze false (d :: vs) = d :: squeeze false vs ∧ squeeze false (' ' :: d :: vs) = ' ' :: d :: squeeze false vs := by
    simp [squeeze, hd.1, isBlank_space]
  obtain ⟨zs, hzs, hhead⟩ : ∃ zs, pointCommasAfter (c :: ps.reverse) (openGroups (c :: ps.reverse)) (d :: squeeze false vs) = zs ∧
      zs.head? = some d := by
    refine ⟨_, rfl, ?_⟩
    rw [pointCommasAfter_cons, pointed_of_ne hd.2]
    rfl
  have hplain : pointCommas (collapseBlanks (us ++ c :: d :: vs)) = ps ++ [c] ++ zs := by
    rw [hps, hsqueeze.1, hzs, List.append_assoc, List.singleton_append]
  have hspaced : pointCommas (collapseBlanks (us ++ c :: ' ' :: d :: vs)) = ps ++ [c] ++ ' ' :: zs := by
    rw [hps, hsqueeze.2, pointCommasAfter_space hd.2 hname, hzs, List.append_assoc, List.singleton_append]
  have hsplit : ∀ ys, (ys.head? = some '*' → d = '*') → caretStars (ps ++ [c] ++ ys) = caretStars (ps ++ [c]) ++ caretStars ys :=
    fun ys hys => @caretStars_append_of_scan (ps ++ [c]) ys .free (by simp) fun h => hstar (hys h)
  have hspace : caretStars (' ' :: zs) = ' ' :: caretStars zs := by
    rw [caretStars.eq_2]
    exact fun _ h => absurd h (by decide)
  refine ⟨caretStars zs, ?_, ?_, ?_⟩
  · rw [powerText, powerText, hplain, hleft, hsplit]
    rw [hhead]
    exact fun h => Option.some.inj h
  · have hne : (' ' :: zs).head? = some '*' → d = '*' := fun h => absurd (Option.some.inj h) (by decide)
    rw [powerText, powerText, hspaced, hleft, hsplit _ hne, hspace]
  · by_cases hd : d = '*'
    · rw [← hhead]
      exact (head?_caretStars zs).imp_right fun h => ⟨hd, h⟩
    · obtain ⟨ys, rfl⟩ := List.head?_eq_some_iff.mp hhead
      rw [caretStars.eq_2]
      · exact .inl rfl
      · exact fun _ h _ => hd h

/-- A sign after a power sign is that of an exponent. -/
theorem ne_sign_of_scan (hclash : scan isFunctionName .free (us ++ ['^'] ++ [c]) ≠ .clash)
    (hexponent : scan isFunctionName .free (us ++ ['^'] ++ [c]) ≠ .exponent) : c ≠ '-' ∧ c ≠ '+' := by
  have hsign : kindOf c ≠ .sign := by
    intro hkind
    rw [scan_append, scan_append, scan_cons, scan_nil, scan_cons, scan_nil] at hclash hexponent
    rcases @next_caret isFunctionName (scan isFunctionName .free us) with h | h
    · rw [h, Site.next, hkind] at hexponent
      exact hexponent rfl
    · rw [h] at hclash
      exact hclash rfl
  constructor
  · rintro rfl
    exact hsign (by decide)
  · rintro rfl
    exact hsign (by decide)

/-- Where no power sign stands on either side of a space, it stays, and its place is a cut unless the sign of an exponent stands
before it. -/
theorem spacedAt_tightenCarets (hc : c ≠ ' ' ∧ c ≠ '^') (hd : d ≠ ' ' ∧ d ≠ '^') (hloose : c ∈ openers ∨ d ∈ closers)
    (hclash : scan isFunctionName .free (us ++ [c]) ≠ .clash) (hexponent : scan isFunctionName .free (us ++ [c]) ≠ .exponent) :
    SpacedAt IsCut (tightenCarets false (us ++ c :: d :: vs)) (tightenCarets false (us ++ c :: ' ' :: d :: vs)) := by
  obtain ⟨ts, hts⟩ := tightenCarets_append_cons hc.1 us false
  have hbeq : (c == '^') = false := by simpa using hc.2
  have htight : scan isFunctionName .free (ts ++ [c]) = scan isFunctionName .free (us ++ [c]) := by
    have hstop := hts []
    rw [tightenCarets] at hstop
    rw [← hstop]
    exact scan_tightenCarets fun h => absurd h Bool.false_ne_true
  rw [← htight] at hclash hexponent
  rw [hts, hts, hbeq, tightenCarets_space_cons (by simpa using hd.2), tightenCarets_cons hd.1]
  refine ⟨c :: ts.reverse, d :: tightenCarets (d == '^') vs, ⟨?_, by simpa using hc.2, by simpa using hd.2, ?_⟩, by simp, by simp⟩
  · exact hloose.imp (fun h => ⟨c, rfl, h⟩) fun h => ⟨d, rfl, h⟩
  · rintro sign start heq
    obtain ⟨rfl, hstart⟩ := List.cons.inj heq
    obtain rfl : ts = start.reverse ++ ['^'] := by rw [← List.reverse_reverse ts, hstart, List.reverse_cons]
    exact ne_sign_of_scan hclash hexponent

/-- **A space between two tokens**, one of them a sign or a parenthesis that does not start arguments, leaves the program as it
is, but for the space after the sign of an exponent. -/
theorem tightProgram?_space (hc : isBlank c = false ∧ c ≠ ',') (hd : isBlank d = false ∧ d ≠ ',')
    (hloose : c ∈ '^' :: openers ∨ d ∈ '^' :: closers)
    (hstar : d = '*' → scan isFunctionName .free (pointCommas (collapseBlanks (us ++ [c]))) ≠ .star)
    (hclash : scan isFunctionName .free (pointCommas (collapseBlanks (us ++ [c]))) ≠ .clash)
    (hexponent : scan isFunctionName .free (pointCommas (collapseBlanks (us ++ [c]))) ≠ .exponent) :
    tightProgram? names (tightenCarets false (powerText (us ++ c :: ' ' :: d :: vs))) =
      tightProgram? names (tightenCarets false (powerText (us ++ c :: d :: vs))) := by
  have hname : isNameChar c = false ∨ isNameChar d = false ∧
      (d = '(' → opensTwoArguments (pointCommas (collapseBlanks (us ++ [c]))).reverse = true → hasArgumentComma 0 false vs = false) :=
    hloose.imp outside_of_mem_openers fun h => ⟨(outside_of_mem_closers h).1, fun hopen => absurd hopen (outside_of_mem_closers h).2⟩
  obtain ⟨zs, hplain, hspaced, hhead⟩ := @powerText_space us vs c d hc hd hname fun h => ⟨hstar h, hclash⟩
  have hscan : scan isFunctionName .free (powerText (us ++ [c])) =
      scan isFunctionName .free (pointCommas (collapseBlanks (us ++ [c]))) := scan_caretStars (by simp)
  rw [← hscan] at hclash hexponent
  rw [hplain, hspaced]
  obtain ⟨ps, hps, -⟩ := pointCommas_append_cons hc us
  have hlast : (powerText (us ++ [c])).getLast? = some c ∨ (powerText (us ++ [c])).getLast? = some '^' := by
    have hstars := getLast?_caretStars (ps ++ [c])
    rwa [List.getLast?_concat, ← hps] at hstars
  have hcspace := ne_space_of_isBlank hc.1
  have hdspace := ne_space_of_isBlank hd.1
  by_cases hcaret : (powerText (us ++ [c])).getLast? = some '^' ∨ zs.head? = some '^'
  · -- next to a power sign the space goes
    obtain ⟨x, hx, hxspace⟩ : ∃ x, (powerText (us ++ [c])).getLast? = some x ∧ x ≠ ' ' := by
      rcases hlast with h | h
      · exact ⟨c, h, hcspace⟩
      · exact ⟨'^', h, by decide⟩
    obtain ⟨qs, hqs⟩ := List.getLast?_eq_some_iff.mp hx
    rw [hqs, List.append_assoc, List.append_assoc]
    refine congrArg (tightProgram? names) (tightenCarets_space hxspace (hcaret.imp_left fun h => ?_))
    exact Option.some.inj (hx.symm.trans h)
  · -- neither token is a power sign, so the place is a cut
    rw [not_or] at hcaret
    have hcc : c ≠ '^' := fun h => hcaret.1 (h ▸ hlast.resolve_right hcaret.1)
    have hhead : zs.head? = some d := hhead.resolve_right fun h => hcaret.2 h.2
    have hdc : d ≠ '^' := fun h => hcaret.2 (h ▸ hhead)
    obtain ⟨qs, hqs⟩ := List.getLast?_eq_some_iff.mp (hlast.resolve_right hcaret.1)
    obtain ⟨ys, rfl⟩ := List.head?_eq_some_iff.mp hhead
    rw [hqs] at hclash hexponent ⊢
    rw [List.append_assoc, List.append_assoc]
    refine tightProgram?_of_isCut (spacedAt_tightenCarets ⟨hcspace, hcc⟩ ⟨hdspace, hdc⟩ ?_ hclash hexponent)
    exact hloose.imp (fun h => (List.mem_cons.mp h).resolve_left hcc) fun h => (List.mem_cons.mp h).resolve_left hdc

/-- **A space before the arguments of a call** leaves the program as it is, unless the function takes two and a comma between two
digits separates them, or the call is an operand of a power. -/
theorem tightProgram?_call {last : Char} {before : List Char} (hc : isBlank c = false ∧ c ≠ ',')
    (hscan : scan isFunctionName .free (pointCommas (collapseBlanks (us ++ [c]))) = .name last before)
    (hcomma : opensTwoArguments (tightenCarets false (powerText (us ++ [c]))).reverse = true → hasArgumentComma 0 false vs = false)
    (hoperand : ∀ zs, tightenCarets false (powerText (us ++ c :: '(' :: vs)) = tightenCarets false (powerText (us ++ [c])) ++ zs →
      ¬ IsPowerOperand (tightenCarets false (powerText (us ++ [c]))).reverse zs) :
    tightProgram? names (tightenCarets false (powerText (us ++ c :: ' ' :: '(' :: vs))) =
      tightProgram? names (tightenCarets false (powerText (us ++ c :: '(' :: vs))) := by
  have hpower : scan isFunctionName .free (powerText (us ++ [c])) = .name last before :=
    (scan_caretStars (by simp)).trans hscan
  have htight : scan isFunctionName .free (tightenCarets false (powerText (us ++ [c]))) = .name last before :=
    (scan_tightenCarets fun h => absurd h Bool.false_ne_true).trans hpower
  -- the stages agree on the name
  obtain ⟨start, hname, hchars, hletter, houtside⟩ := exists_of_scan_name htight
  obtain ⟨start₁, hname₁, -, -, houtside₁⟩ := exists_of_scan_name hscan
  obtain ⟨start₂, hname₂, -, -, -⟩ := exists_of_scan_name hpower
  have hopens : opensTwoArguments (pointCommas (collapseBlanks (us ++ [c]))).reverse =
      opensTwoArguments (tightenCarets false (powerText (us ++ [c]))).reverse := by
    rw [hname₁, opensTwoArguments_append houtside₁, ← opensTwoArguments_append houtside, ← hname]
  obtain ⟨zs, hplain, hspaced, hhead⟩ := @powerText_space us vs c '(' hc (by decide)
    (.inr ⟨by decide, fun _ h => hcomma (hopens ▸ h)⟩) (by simp)
  obtain ⟨zs, rfl⟩ := List.head?_eq_some_iff.mp (hhead.resolve_right fun h => absurd h.1 (by decide))
  have hlast : last ≠ ' ' ∧ last ≠ '^' := by
    have := hchars last List.mem_cons_self
    constructor <;> rintro rfl <;> exact absurd this (by decide)
  have htext : powerText (us ++ [c]) = (before ++ start₂).reverse ++ [last] := by
    rw [← List.reverse_reverse (powerText _), hname₂]
    simp
  obtain ⟨ws, hws⟩ := tightenCarets_append_cons hlast.1 (before ++ start₂).reverse false
  have happend : ∀ ys, tightenCarets false (powerText (us ++ [c]) ++ ys) =
      tightenCarets false (powerText (us ++ [c])) ++ tightenCarets false ys := by
    intro ys
    rw [htext, List.append_assoc, List.singleton_append, hws, hws, beq_eq_false_iff_ne.mpr hlast.2, tightenCarets,
      List.append_assoc, List.singleton_append]
  have hoperand := hoperand (tightenCarets false ('(' :: zs)) (by rw [hplain, happend])
  have hdrop : (tightenCarets false (powerText (us ++ [c]))).reverse.dropWhile isNameChar = start :=
    congrArg Prod.snd (splitRun_eq_iff.mpr ⟨hname, hchars, houtside⟩ : splitRun isNameChar _ = _)
  rw [IsPowerOperand, hdrop, not_or] at hoperand
  rw [hplain, hspaced, happend, happend, tightenCarets_space_cons (by simp)]
  exact tightProgram?_of_callPlace ⟨_, _, ⟨last :: before, start, hname,
    { chars := hchars, letter := hletter, outside := houtside, exponent := hoperand.1,
      opens := ⟨_, tightenCarets_cons (by decide)⟩, base := hoperand.2 }⟩, by simp, by simp⟩

end Stages

end Numerics.Formula
