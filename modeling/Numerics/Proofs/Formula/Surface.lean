import Numerics.Formula.Token
import Numerics.Proofs.Formula.Site

/-!
# Surface tokens

What a reader takes for the tokens of a text (`surface`), and the places between neighbouring ones (`IsGap`).  The scan for
clashes knows what stands before a place: where it is within a literal or a name, or after a single star, the next token does
not go on with it (`IsGap.apart`), and after a power sign, or the sign of an exponent, these are the last tokens
(`fits_surface`).
-/

namespace Numerics.Formula

open Text

/-- The surface tokens of a text: runs of digits and points, names, `**`, and each other character that is no blank. -/
def surface (cs : List Char) : List (List Char) :=
  match cs with
  | [] => []
  | c :: rest =>
    if isBlank c then surface rest
    else if isNumberChar c then (c :: rest.takeWhile isNumberChar) :: surface (rest.dropWhile isNumberChar)
    else if isNameStart c then (c :: rest.takeWhile isNameChar) :: surface (rest.dropWhile isNameChar)
    else if c = '*' ∧ rest.head? = some '*' then ['*', '*'] :: surface rest.tail
    else [c] :: surface rest
termination_by cs.length
decreasing_by all_goals first | exact length_dropWhile_lt_cons _ _ _ | (simp only [List.length_tail, List.length_cons]; omega)

section Tokens

variable {c d : Char} {run rest cs : List Char}

@[simp] theorem surface_nil : surface [] = [] := by rw [surface]

theorem surface_blank (hc : isBlank c = true) : surface (c :: cs) = surface cs := by
  rw [surface, if_pos hc]

theorem surface_literal (hc : isNumberChar c = true) (hrun : ∀ d ∈ run, isNumberChar d = true)
    (hrest : StartsOutside isNumberChar rest) : surface (c :: (run ++ rest)) = (c :: run) :: surface rest := by
  have hblank : ¬ isBlank c = true := by
    intro hblank
    rw [(outside_of_isBlank hblank).2] at hc
    cases hc
  obtain ⟨htake, hdrop⟩ := Prod.mk.inj (splitRun_eq_iff.mpr ⟨rfl, hrun, hrest⟩ : splitRun isNumberChar (run ++ rest) = (run, rest))
  rw [surface, if_neg hblank, if_pos hc, htake, hdrop]

theorem surface_word (hc : isNameStart c = true) (hrun : ∀ d ∈ run, isNameChar d = true)
    (hrest : StartsOutside isNameChar rest) : surface (c :: (run ++ rest)) = (c :: run) :: surface rest := by
  have hblank : ¬ isBlank c = true := by
    intro hblank
    have := isNameChar_of_isNameStart hc
    rw [(outside_of_isBlank hblank).1] at this
    cases this
  have hnumber : ¬ isNumberChar c = true := by simp [isNumberChar_of_isNameStart hc]
  obtain ⟨htake, hdrop⟩ := Prod.mk.inj (splitRun_eq_iff.mpr ⟨rfl, hrun, hrest⟩ : splitRun isNameChar (run ++ rest) = (run, rest))
  rw [surface, if_neg hblank, if_neg hnumber, if_pos hc, htake, hdrop]

theorem surface_stars : surface ('*' :: '*' :: cs) = ['*', '*'] :: surface cs := by
  rw [surface, if_neg (by decide), if_neg (by decide), if_neg (by decide), if_pos ⟨rfl, rfl⟩, List.tail_cons]

theorem surface_symbol (hc : isBlank c = false ∧ isNumberChar c = false ∧ isNameStart c = false)
    (hstar : ¬ (c = '*' ∧ cs.head? = some '*')) : surface (c :: cs) = [c] :: surface cs := by
  rw [surface, hc.1, hc.2.1, hc.2.2, if_neg hstar]
  simp

/-- A comma is a token. -/
theorem surface_concat_comma (cs : List Char) : surface (cs ++ [',']) = surface cs ++ [[',']] := by
  have houtside : ∀ {P : Char → Bool} {tail : List Char}, P ',' = false → StartsOutside P tail →
      StartsOutside P (tail ++ [',']) := by
    intro P tail hcomma htail
    cases tail with
    | nil => exact startsOutside_cons.mpr hcomma
    | cons e es => exact htail
  fun_induction surface cs with
  | case1 => rw [List.nil_append, surface_symbol (by decide) (by decide), surface_nil, List.nil_append]
  | case2 d rest hd ih => rw [List.cons_append, surface_blank hd, ih]
  | case3 d rest _ hd ih =>
    obtain ⟨hsplit, hrun, htail⟩ := splitRun_eq_iff.mp (rfl : splitRun isNumberChar rest = _)
    rw [List.cons_append, List.cons_append, ← ih, ← surface_literal hd hrun (houtside (by decide) htail), ← List.append_assoc,
      ← hsplit]
  | case4 d rest _ _ hd ih =>
    obtain ⟨hsplit, hrun, htail⟩ := splitRun_eq_iff.mp (rfl : splitRun isNameChar rest = _)
    rw [List.cons_append, List.cons_append, ← ih, ← surface_word hd hrun (houtside (by decide) htail), ← List.append_assoc,
      ← hsplit]
  | case5 d rest _ _ _ hstars ih =>
    obtain ⟨rfl, hhead⟩ := hstars
    obtain ⟨rest, rfl⟩ := List.head?_eq_some_iff.mp hhead
    rw [List.cons_append, List.cons_append, surface_stars, List.cons_append, ← ih, List.tail_cons]
  | case6 d rest hblank hnumber hname hstars ih =>
    have hone : ¬ (d = '*' ∧ (rest ++ [',']).head? = some '*') := by
      cases rest with
      | nil => simp
      | cons e es => exact hstars
    rw [List.cons_append, surface_symbol (by simp [hblank, hnumber, hname]) hone, ih, List.cons_append]

/-- A run that is a token has ended. -/
theorem outside_of_surface {P : Char → Bool}
    (hsurface : ∀ {run rest}, (∀ e ∈ run, P e = true) → StartsOutside P rest →
      surface (c :: (run ++ rest)) = (c :: run) :: surface rest)
    (hrun : ∀ e ∈ run, P e = true) (h : surface (c :: (run ++ d :: cs)) = (c :: run) :: surface (d :: cs)) : P d = false := by
  rw [Bool.eq_false_iff]
  intro hd
  obtain ⟨hsplit, hmore, hrest⟩ := splitRun_eq_iff.mp (rfl : splitRun P cs = _)
  have hall : ∀ e ∈ run ++ d :: cs.takeWhile P, P e = true :=
    List.forall_mem_append.mpr ⟨hrun, List.forall_mem_cons.mpr ⟨hd, hmore⟩⟩
  have hlong := hsurface hall hrest
  rw [List.append_assoc, List.cons_append, ← hsplit, h] at hlong
  have hlength := congrArg List.length (List.cons.inj hlong).1
  simp at hlength

end Tokens

/-- Between the texts lies a place between two neighbouring surface tokens, neither of them a comma. -/
structure IsGap (before after : List Char) : Prop where
  parts : surface (before ++ after) = surface before ++ surface after
  last : ∃ t ∈ (surface before).getLast?, t ≠ [',']
  first : ∃ t ∈ (surface after).head?, t ≠ [',']

/-! ### What the scan knows of the last token -/

/-- A token that is a power sign. -/
def IsPowerSign (t : List Char) : Prop := t = ['^'] ∨ t = ['*', '*']

/-- A token that is a name. -/
def IsName (t : List Char) : Prop := ∃ c ∈ t.head?, isNameStart c = true

/-- The last token does not go on with the character. -/
def Site.EndsBefore (c : Char) : Site → Prop
  | number => isNumberChar c = false
  | name _ _ => isNameChar c = false
  | star => c ≠ '*'
  | _ => True

/-- The last tokens are what the place says they are. -/
def Site.Fits (ts : List (List Char)) : Site → Prop
  | power => ∃ us p, ts = us ++ [p] ∧ IsPowerSign p
  | exponent => ∃ us p c, ts = us ++ [p, [c]] ∧ IsPowerSign p ∧ (c = '-' ∨ c = '+')
  | name _ _ => ∃ us t, ts = us ++ [t] ∧ IsName t
  | _ => True

section Last

variable {callable : List Char → Bool} {s : Site} {c d : Char} {cs ds run rest : List Char} {ts : List (List Char)}

theorem Site.Fits.blank (h : s.Fits ts) (hd : isBlank d = true) :
    (s.next callable d).isBoundary = true ∧ s.next callable d ≠ .star ∧ (s.next callable d).Fits ts := by
  rw [Site.next, kindOf_of_isBlank hd]
  cases s <;> first | exact ⟨rfl, by simp [Site.after], h⟩ | exact ⟨rfl, by simp [Site.after], trivial⟩

theorem fits_stars (hstar : s ≠ .star) :
    (scan callable s ['*', '*']).isBoundary = true ∧ scan callable s ['*', '*'] ≠ .star ∧
      (scan callable s ['*', '*']).Fits (ts ++ [['*', '*']]) := by
  have hkind : kindOf '*' = .star := by decide
  rw [scan_cons, scan_cons, scan_nil, Site.next, Site.next, hkind]
  have hpower : Site.power.Fits (ts ++ [['*', '*']]) := ⟨ts, _, rfl, .inr rfl⟩
  cases s <;> first
    | exact absurd rfl hstar
    | exact ⟨rfl, by simp [Site.after], hpower⟩
    | exact ⟨rfl, by simp [Site.after], trivial⟩

/-- A symbol leads to a place that its token fits. -/
theorem Site.Fits.symbol (h : s.Fits ts) (hs : s.isBoundary = true) (hstar : s = .star → d ≠ '*')
    (hd : isBlank d = false ∧ isNumberChar d = false ∧ isNameStart d = false) :
    (s.next callable d).isBoundary = true ∧ (s.next callable d = .star → d = '*') ∧
      (s.next callable d).Fits (ts ++ [[d]]) := by
  have hkind := describes_kindOf d
  obtain ⟨hblank, hnumber, hstart⟩ := hd
  rw [Site.next]
  generalize kindOf d = k at hkind
  cases k with
  | blank => rw [Kind.Describes, hblank] at hkind; cases hkind
  | digit =>
    rw [Kind.Describes] at hkind
    rw [isNumberChar_of_isDigit hkind] at hnumber
    cases hnumber
  | point => rw [show d = '.' from hkind] at hnumber; cases hnumber
  | start => rw [Kind.Describes, hstart] at hkind; cases hkind
  | caret =>
    obtain rfl : d = '^' := hkind
    have hpower : Site.power.Fits (ts ++ [['^']]) := ⟨ts, _, rfl, .inl rfl⟩
    cases s <;> first | exact ⟨rfl, by simp [Site.after], hpower⟩ | exact ⟨rfl, by simp [Site.after], trivial⟩
  | star =>
    obtain rfl : d = '*' := hkind
    cases s <;> first | exact ⟨rfl, fun _ => rfl, trivial⟩ | exact absurd rfl (hstar rfl)
  | sign =>
    cases s with
    | power =>
      obtain ⟨us, p, rfl, hp⟩ := h
      refine ⟨rfl, by simp [Site.after], us, p, d, by simp, hp, ?_⟩
      rcases hkind with rfl | rfl
      · exact .inr rfl
      · exact .inl rfl
    | _ => exact ⟨rfl, by simp [Site.after], trivial⟩
  | opening =>
    cases s with
    | number => cases hs
    | name _ _ => cases hs
    | named _ _ =>
      simp only [Site.after]
      split <;> exact ⟨rfl, by simp, trivial⟩
    | _ => exact ⟨rfl, by simp [Site.after], trivial⟩
  | _ => cases s <;> first | exact ⟨rfl, by simp [Site.after], trivial⟩ | cases hs

theorem startsOutside_append {P : Char → Bool} (h : StartsOutside P rest) (hne : rest ≠ []) : StartsOutside P (rest ++ ds) := by
  obtain ⟨e, es, rfl⟩ := List.exists_cons_of_ne_nil hne
  exact h

/-- A literal that ends the text ends before the next character, and else the scan goes on after it. -/
theorem scan_surface_literal (hs : s.isBoundary = true) (hd : isNumberChar d = true) (hrun : ∀ e ∈ run, isNumberChar e = true)
    (hrest : StartsOutside isNumberChar rest)
    (hparts : surface (d :: (run ++ rest) ++ c :: ds) = (d :: run) :: surface rest ++ surface (c :: ds))
    (ih : surface (rest ++ c :: ds) = surface rest ++ surface (c :: ds) →
      (scan callable .closed rest).EndsBefore c ∧ (scan callable .closed rest).Fits (ts ++ [d :: run] ++ surface rest)) :
    (scan callable s (d :: (run ++ rest))).EndsBefore c ∧
      (scan callable s (d :: (run ++ rest))).Fits (ts ++ (d :: run) :: surface rest) := by
  cases hfree : s.isFree with
  | false =>
    rw [scan_cons, next_of_not_isFree hs hfree (.inl hd), scan_clash]
    exact ⟨trivial, trivial⟩
  | true =>
    rw [← List.cons_append, scan_append, scan_literal hfree hd hrun]
    by_cases hne : rest = []
    · subst hne
      rw [List.append_nil, surface_nil] at hparts
      exact ⟨outside_of_surface (surface_literal hd) hrun hparts, trivial⟩
    · rw [List.cons_append, List.append_assoc, surface_literal hd hrun (startsOutside_append hrest hne),
        List.cons_append] at hparts
      rw [scan_after_literal hrest hne]
      rw [List.append_assoc] at ih
      exact ih (List.cons.inj hparts).2

/-- A name that ends the text ends before the next character, and else the scan goes on after it. -/
theorem scan_surface_word (hs : s.isBoundary = true) (hd : isNameStart d = true) (hrun : ∀ e ∈ run, isNameChar e = true)
    (hrest : StartsOutside isNameChar rest)
    (hparts : surface (d :: (run ++ rest) ++ c :: ds) = (d :: run) :: surface rest ++ surface (c :: ds))
    (ih : ∀ last before, surface (rest ++ c :: ds) = surface rest ++ surface (c :: ds) →
      (scan callable (.named last before) rest).EndsBefore c ∧
        (scan callable (.named last before) rest).Fits (ts ++ [d :: run] ++ surface rest)) :
    (scan callable s (d :: (run ++ rest))).EndsBefore c ∧
      (scan callable s (d :: (run ++ rest))).Fits (ts ++ (d :: run) :: surface rest) := by
  cases hfree : s.isFree with
  | false =>
    rw [scan_cons, next_of_not_isFree hs hfree (.inr hd), scan_clash]
    exact ⟨trivial, trivial⟩
  | true =>
    obtain ⟨last, before, -, hscan⟩ := @scan_word callable s d run hfree hd hrun
    rw [← List.cons_append, scan_append, hscan]
    by_cases hne : rest = []
    · subst hne
      rw [List.append_nil, surface_nil] at hparts
      exact ⟨outside_of_surface (surface_word hd) hrun hparts, ts, d :: run, by rw [surface_nil], d, rfl, hd⟩
    · rw [List.cons_append, List.append_assoc, surface_word hd hrun (startsOutside_append hrest hne), List.cons_append] at hparts
      rw [scan_after_word hrest hne]
      have hrest := ih last before (List.cons.inj hparts).2
      rwa [List.append_assoc] at hrest

/-- **Last tokens.** The scan ends at a place that the last tokens fit, and where the next token does not start within them. -/
theorem scan_surface (hs : s.isBoundary = true) (hstar : s = .star → (cs ++ [c]).head? ≠ some '*') (hfits : s.Fits ts)
    (hparts : surface (cs ++ c :: ds) = surface cs ++ surface (c :: ds)) :
    (scan callable s cs).EndsBefore c ∧ (scan callable s cs).Fits (ts ++ surface cs) := by
  fun_induction surface cs generalizing s ts with
  | case1 =>
    rw [List.append_nil]
    refine ⟨?_, hfits⟩
    cases s <;> first | trivial | (cases hs; done) | exact fun hc => hstar rfl (by rw [hc]; rfl)
  | case2 d rest hd ih =>
    obtain ⟨hboundary, hne, hfits'⟩ := @Site.Fits.blank callable _ _ _ hfits hd
    rw [List.cons_append, surface_blank hd] at hparts
    exact ih hboundary (fun h => absurd h hne) hfits' hparts
  | case3 d rest _ hd ih =>
    obtain ⟨hsplit, hrun, htail⟩ := splitRun_eq_iff.mp (rfl : splitRun isNumberChar rest = _)
    generalize rest.takeWhile isNumberChar = run at *
    generalize rest.dropWhile isNumberChar = tail at *
    subst hsplit
    exact scan_surface_literal hs hd hrun htail hparts fun h => ih rfl (by simp) trivial h
  | case4 d rest _ _ hd ih =>
    obtain ⟨hsplit, hrun, htail⟩ := splitRun_eq_iff.mp (rfl : splitRun isNameChar rest = _)
    generalize rest.takeWhile isNameChar = run at *
    generalize rest.dropWhile isNameChar = tail at *
    subst hsplit
    exact scan_surface_word hs hd hrun htail hparts fun last before h => ih rfl (by simp) trivial h
  | case5 d rest _ _ _ hstars ih =>
    obtain ⟨rfl, hhead⟩ := hstars
    obtain ⟨rest, rfl⟩ := List.head?_eq_some_iff.mp hhead
    have hne : s ≠ .star := fun h => hstar h rfl
    obtain ⟨hboundary, hstar', hfits'⟩ := @fits_stars callable s ts hne
    rw [List.cons_append, List.cons_append, surface_stars, List.tail_cons, List.cons_append] at hparts
    have := ih hboundary (fun h => absurd h hstar') hfits' (List.cons.inj hparts).2
    rwa [List.append_assoc] at this
  | case6 d rest hblank hnumber hname hstars ih =>
    have hd : isBlank d = false ∧ isNumberChar d = false ∧ isNameStart d = false := by simp [hblank, hnumber, hname]
    have hhead : ∀ zs, (rest ++ c :: zs).head? = (rest ++ [c]).head? := by
      intro zs
      cases rest <;> rfl
    have hone : ¬ (d = '*' ∧ (rest ++ c :: ds).head? = some '*') := by
      rintro ⟨rfl, hhead⟩
      obtain ⟨zs, hzs⟩ := List.head?_eq_some_iff.mp hhead
      rw [List.cons_append, hzs, surface_stars, List.cons_append] at hparts
      exact absurd (List.cons.inj hparts).1 (by decide)
    rw [List.cons_append, surface_symbol hd hone, List.cons_append] at hparts
    have hnot : s = .star → d ≠ '*' := fun hs h => hstar hs (by rw [h]; rfl)
    obtain ⟨hboundary, hstar', hfits'⟩ := @Site.Fits.symbol callable _ _ _ hfits hs hnot hd
    have hrest := ih hboundary (fun h hstar => hone ⟨hstar' h, (hhead ds).trans hstar⟩) hfits' (List.cons.inj hparts).2
    rwa [List.append_assoc] at hrest

end Last

end Numerics.Formula
