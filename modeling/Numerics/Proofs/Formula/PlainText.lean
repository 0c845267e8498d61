import Numerics.Formula.Normal
import Numerics.Proofs.Formula.Commas
import Numerics.Proofs.Text.Spacing

/-!
# The text before powers are replaced

What the stages before the replacement of powers make: a text in lower case whose words are one space apart, without `**`
and without decimal commas (`isPlain_plainText`, `keepsCommas_plainText`).  Without power signs such a text goes through the
stages unchanged.
-/

namespace Numerics.Formula

open Text

/-- A text as the stages before the replacement of powers leave it. -/
structure IsPlain (cs : List Char) : Prop where
  small : ∀ c ∈ cs, IsSmall c
  spaced : IsSpaced cs
  stars : Apart '*' cs

/-! ### Decimal commas -/

section Commas

variable {x p q : Char} {before cs ys : List Char}

theorem pointed_eq_or (before : List Char) (c : Char) (after : List Char) :
    pointed before c after = c ∨ pointed before c after = '.' := by
  unfold pointed
  split
  · exact .inr rfl
  · exact .inl rfl

theorem mem_pointCommasAfter {d : Char} (h : d ∈ pointCommasAfter before (openGroups before) cs) : d ∈ cs ∨ d = '.' := by
  induction cs generalizing before with
  | nil => cases h
  | cons c cs ih =>
    rw [pointCommasAfter_cons] at h
    rcases List.mem_cons.mp h with rfl | h
    · rcases pointed_eq_or before c cs with heq | heq
      · exact .inl (heq.symm ▸ List.mem_cons_self)
      · exact .inr heq
    · exact (ih h).imp_left (List.mem_cons_of_mem _)

theorem apart_pointCommasAfter (hx : '.' ≠ x) (hp : q = x → p = x) (h : Apart x (p :: (cs ++ ys))) :
    Apart x (q :: (pointCommasAfter before (openGroups before) cs ++ ys)) := by
  induction cs generalizing before p q with
  | nil => exact h.cons_of_imp hp
  | cons c cs ih =>
    have hpointed : pointed before c cs = x → c = x := by
      rcases pointed_eq_or before c cs with heq | heq
      · exact heq.symm.trans
      · exact fun h => absurd (heq.symm.trans h) hx
    obtain ⟨hpc, htail⟩ := apart_cons_cons.mp h
    rw [pointCommasAfter_cons]
    exact apart_cons_cons.mpr ⟨fun hq => hpc ⟨hp hq.1, hpointed hq.2⟩, ih hpointed htail⟩

end Commas

/-! ### Double stars -/

section Stars

variable {p q : Char} {before before' cs ys : List Char}

theorem mem_caretStars {d : Char} (h : d ∈ caretStars cs) : d ∈ cs ∨ d = '^' := by
  fun_induction caretStars cs with
  | case1 cs ih =>
    rcases List.mem_cons.mp h with rfl | h
    · exact .inr rfl
    · exact (ih h).imp_left fun hd => List.mem_cons_of_mem _ (List.mem_cons_of_mem _ hd)
  | case2 c cs _ ih =>
    rcases List.mem_cons.mp h with rfl | h
    · exact .inl List.mem_cons_self
    · exact (ih h).imp_left (List.mem_cons_of_mem _)
  | case3 => cases h

theorem apart_caretStars (hp : q = ' ' → p = ' ') (h : Apart ' ' (p :: (cs ++ ys))) :
    Apart ' ' (q :: (caretStars cs ++ ys)) := by
  fun_induction caretStars cs generalizing p q with
  | case1 cs ih =>
    have hcaret : '^' ≠ ' ' := by decide
    refine apart_cons_cons.mpr ⟨fun hq => hcaret hq.2, ih ?_ h.tail.tail⟩
    exact fun hq => absurd hq hcaret
  | case2 c cs _ ih =>
    obtain ⟨hpc, htail⟩ := apart_cons_cons.mp h
    exact apart_cons_cons.mpr ⟨fun hq => hpc ⟨hp hq.1, hq.2⟩, ih id htail⟩
  | case3 => exact h.cons_of_imp hp

theorem head?_caretStars (cs : List Char) : (caretStars cs).head? = cs.head? ∨ (caretStars cs).head? = some '^' := by
  fun_cases caretStars cs
  · exact .inr rfl
  · exact .inl rfl
  · exact .inl rfl

theorem apart_star_caretStars : Apart '*' (caretStars cs) := by
  fun_induction caretStars cs with
  | case1 cs ih => exact (apart_cons (by decide)).mpr ih
  | case2 c cs hne ih =>
    refine List.isChain_cons.mpr ⟨?_, ih⟩
    rintro d hd ⟨rfl, rfl⟩
    rcases head?_caretStars cs with hhead | hhead
    · rw [hhead] at hd
      obtain ⟨cs', rfl⟩ := List.head?_eq_some_iff.mp hd
      exact hne _ rfl rfl
    · rw [hhead] at hd
      cases hd
  | case3 => exact List.isChain_nil

theorem caretStars_of_apart (h : Apart '*' cs) : caretStars cs = cs := by
  fun_induction caretStars cs with
  | case1 cs _ => exact absurd ⟨rfl, rfl⟩ (apart_cons_cons.mp h).1
  | case2 c cs _ ih => rw [ih h.tail]
  | case3 => rfl

/-- What separates arguments after two texts does so after signs that follow them, whatever the names before. -/
theorem SeparatesAfter.sign {c d : Char}
    (h : ∀ i, (openGroups before).getD i false = true → (openGroups before').getD i false = true)
    (hc : c = '*' ∨ c = '^' ∨ c = ' ') (hd : d = '^') : SeparatesAfter (c :: before) (d :: before') where
  groups i := by
    rcases hc with rfl | rfl | rfl <;> subst hd <;>
      rw [openGroups_cons (by decide) (by decide), openGroups_cons (by decide) (by decide)] <;> exact h i
  opens xs hxs := by
    have hcname : isNameChar c = false := by rcases hc with rfl | rfl | rfl <;> decide
    subst hd
    rw [opensTwoArguments_append (startsOutside_cons.mpr hcname)] at hxs
    rwa [opensTwoArguments_append (startsOutside_cons.mpr (by decide))]
  digit hdigit := by
    subst hd
    cases hdigit

theorem KeepsCommas.caretStars (h : SeparatesAfter before before') (hkeep : KeepsCommas before cs []) :
    KeepsCommas before' (caretStars cs) [] := by
  fun_induction Formula.caretStars cs generalizing before before' with
  | case1 cs ih =>
    rw [keepsCommas_cons, keepsCommas_cons] at hkeep
    refine ⟨nofun, ih (.sign (fun i hi => ?_) (.inl rfl) rfl) hkeep.2.2⟩
    rw [openGroups_cons (by decide) (by decide)] at hi
    exact h.groups i hi
  | case2 c cs _ ih =>
    rw [keepsCommas_cons] at hkeep ⊢
    refine ⟨fun hc => h.isDecimalComma ?_ (hkeep.1 hc), ih (h.cons c) hkeep.2⟩
    rw [List.append_nil, List.append_nil]
    rcases head?_caretStars cs with hhead | hhead <;> rw [hhead]
    · exact id
    · exact nofun
  | case3 => trivial

end Stars

/-! ### Spaces next to power signs -/

section Carets

variable {p q : Char} {afterCaret : Bool} {before before' cs ys : List Char}

theorem tightenCarets_cons {c : Char} (hspace : c ≠ ' ') :
    tightenCarets afterCaret (c :: ys) = c :: tightenCarets (c == '^') ys := by
  rw [tightenCarets, if_neg (by simp [hspace])]

theorem mem_of_mem_tightenCarets {d : Char} (h : d ∈ tightenCarets afterCaret cs) : d ∈ cs := by
  induction cs generalizing afterCaret with
  | nil => cases h
  | cons c cs ih =>
    rw [tightenCarets] at h
    split at h
    · exact List.mem_cons_of_mem _ (ih h)
    · rcases List.mem_cons.mp h with rfl | h
      · exact List.mem_cons_self
      · exact List.mem_cons_of_mem _ (ih h)

/-- Only spaces go with the spaces next to power signs. -/
theorem count_tightenCarets {d : Char} (hd : d ≠ ' ') (afterCaret : Bool) (cs : List Char) :
    (tightenCarets afterCaret cs).count d = cs.count d := by
  induction cs generalizing afterCaret with
  | nil => rfl
  | cons c cs ih =>
    rw [tightenCarets]
    split
    · next hspace =>
      obtain ⟨rfl, -⟩ : c = ' ' ∧ _ := by simpa using hspace
      rw [ih, List.count_cons_of_ne hd.symm]
    · rw [List.count_cons, List.count_cons, ih]

theorem tightenCarets_of_not_mem_space (h : ' ' ∉ cs) : tightenCarets afterCaret cs = cs := by
  induction cs generalizing afterCaret with
  | nil => rfl
  | cons c cs ih =>
    rw [List.mem_cons, not_or] at h
    rw [tightenCarets_cons (Ne.symm h.1), ih h.2]

theorem apart_tightenCarets (hp : q = ' ' → p = ' ') (h : Apart ' ' (p :: (cs ++ ys))) :
    Apart ' ' (q :: (tightenCarets afterCaret cs ++ ys)) := by
  induction cs generalizing afterCaret p q with
  | nil => exact h.cons_of_imp hp
  | cons c cs ih =>
    obtain ⟨hpc, htail⟩ := apart_cons_cons.mp h
    rw [tightenCarets]
    split
    · next hspace =>
      obtain ⟨rfl, -⟩ : c = ' ' ∧ _ := by simpa using hspace
      exact ih (fun _ => rfl) htail
    · exact apart_cons_cons.mpr ⟨fun hq => hpc ⟨hp hq.1, hq.2⟩, ih id htail⟩

/-- Where a space goes, a power sign stands on one side. -/
theorem apart_star_tightenCarets (h : Apart '*' (p :: cs)) : Apart '*' (p :: tightenCarets (p == '^') cs) := by
  induction cs generalizing p with
  | nil => exact h
  | cons c cs ih =>
    obtain ⟨hpc, htail⟩ := apart_cons_cons.mp h
    rw [tightenCarets]
    split
    · next hspace =>
      obtain ⟨rfl, hcaret⟩ : c = ' ' ∧ (p = '^' ∨ cs.head? = some '^') := by simpa using hspace
      refine ih ?_
      rcases hcaret with rfl | hhead
      · exact (apart_cons (by decide)).mpr htail.tail
      · obtain ⟨cs', rfl⟩ := List.head?_eq_some_iff.mp hhead
        exact apart_cons_cons.mpr ⟨nofun, htail.tail⟩
    · exact apart_cons_cons.mpr ⟨hpc, ih htail⟩

theorem tightenCarets_of_not_mem (h : '^' ∉ cs) : tightenCarets false cs = cs := by
  induction cs with
  | nil => rfl
  | cons c cs ih =>
    rw [List.mem_cons, not_or] at h
    have hhead : cs.head? ≠ some '^' := fun hhead => h.2 (List.mem_of_head? hhead)
    have hc : (c == '^') = false := beq_eq_false_iff_ne.mpr (Ne.symm h.1)
    rw [tightenCarets, if_neg (by simp [hhead]), hc, ih h.2]

theorem digit_head?_tightenCarets (h : (tightenCarets false cs).head?.any Char.isDigit = true) :
    cs.head?.any Char.isDigit = true := by
  cases cs with
  | nil => exact h
  | cons c cs =>
    rw [tightenCarets] at h
    split at h
    · next hspace =>
      obtain ⟨rfl, hhead⟩ : c = ' ' ∧ cs.head? = some '^' := by simpa using hspace
      obtain ⟨cs, rfl⟩ := List.head?_eq_some_iff.mp hhead
      rw [tightenCarets, if_neg (by simp)] at h
      cases h
    · exact h

/-- A space that goes stands next to a power sign, which no name reaches across. -/
theorem KeepsCommas.tightenCarets
    (hgroups : ∀ i, (openGroups before).getD i false = true → (openGroups before').getD i false = true)
    (hbefore : cs.head? = some '^' ∨ SeparatesAfter before before')
    (hcaret : afterCaret = true → before'.head? = some '^') (hkeep : KeepsCommas before cs []) :
    KeepsCommas before' (tightenCarets afterCaret cs) [] := by
  induction cs generalizing before before' afterCaret with
  | nil => trivial
  | cons c cs ih =>
    rw [keepsCommas_cons] at hkeep
    rw [Formula.tightenCarets]
    split
    · next hspace =>
      obtain ⟨rfl, hnext⟩ : c = ' ' ∧ (afterCaret = true ∨ cs.head? = some '^') := by simpa using hspace
      have hgroups' : ∀ i, (openGroups (' ' :: before)).getD i false = true → (openGroups before').getD i false = true := by
        rw [openGroups_cons (by decide) (by decide)]
        exact hgroups
      refine ih hgroups' ?_ hcaret hkeep.2
      rcases hnext with hafter | hhead
      · right
        obtain ⟨before', rfl⟩ := List.head?_eq_some_iff.mp (hcaret hafter)
        refine .sign (fun i hi => ?_) (.inr (.inr rfl)) rfl
        have := hgroups i hi
        rwa [openGroups_cons (by decide) (by decide)] at this
      · exact .inl hhead
    · have hcaret' : (c == '^') = true → (c :: before').head? = some '^' := by simp
      by_cases hc : c = '^'
      · subst hc
        have hsep : SeparatesAfter ('^' :: before) ('^' :: before') := .sign hgroups (.inr (.inl rfl)) rfl
        exact ⟨nofun, ih hsep.groups (.inr hsep) hcaret' hkeep.2⟩
      · have h : SeparatesAfter before before' := hbefore.resolve_left (by simpa using hc)
        refine ⟨fun hcomma => h.isDecimalComma ?_ (hkeep.1 hcomma), ih (h.cons c).groups (.inr (h.cons c)) hcaret' hkeep.2⟩
        rw [List.append_nil, List.append_nil, hcomma]
        exact digit_head?_tightenCarets

end Carets

/-! ### All stages -/

section Stages

variable {before after cs : List Char}

theorem apart_star_pointCommas (h : Apart '*' cs) : Apart '*' (pointCommas cs) := by
  have hcons : Apart '*' ('a' :: (cs ++ [])) := by
    rw [List.append_nil]
    exact (apart_cons (by decide)).mpr h
  have : Apart '*' ('a' :: (pointCommas cs ++ [])) := apart_pointCommasAfter (by decide) id hcons
  rw [List.append_nil] at this
  exact this.tail

/-- **Plain texts.** The stages make plain texts. -/
theorem isPlain_plainText (h : collapseBlanks cs ≠ []) : IsPlain (tightenCarets false (plainText cs)) := by
  have hspaced := (isSpaced_collapseBlanks h).lowerCase
  have hmem : ∀ c ∈ tightenCarets false (plainText cs), c ∈ lowerCase (collapseBlanks cs) ∨ c = '.' ∨ c = '^' := by
    intro c hc
    rcases mem_caretStars (mem_of_mem_tightenCarets hc) with hc | hc
    · exact (mem_pointCommasAfter hc).imp_right .inl
    · exact .inr (.inr hc)
  refine ⟨fun c hc => ?_, ⟨?_, fun c hc => ?_⟩, ?_⟩
  · rcases hmem c hc with hc | rfl | rfl
    · exact isSmall_of_mem_lowerAfter c hc
    · decide
    · decide
  · exact apart_tightenCarets id (apart_caretStars id (apart_pointCommasAfter (by decide) id hspaced.apart))
  · rcases hmem c hc with hc | rfl | rfl
    · exact hspaced.blank c hc
    · exact fun h => absurd h (by decide)
    · exact fun h => absurd h (by decide)
  · exact (apart_star_tightenCarets ((apart_cons (show 'a' ≠ '*' by decide)).mpr apart_star_caretStars)).tail

/-- The stages leave no decimal commas. -/
theorem keepsCommas_plainText : KeepsCommas [] (tightenCarets false (plainText cs)) [] :=
  KeepsCommas.tightenCarets (fun _ => id) (.inr (.refl [])) nofun (KeepsCommas.caretStars (.refl []) keepsCommas_pointCommas)

/-- A plain text has only its decimal commas to lose. -/
theorem IsPlain.plainText (h : IsPlain cs) : plainText cs = Formula.pointCommas cs := by
  unfold Formula.plainText
  rw [h.spaced.collapseBlanks, lowerCase_of_isSmall h.small, caretStars_of_apart (apart_star_pointCommas h.stars)]

end Stages

end Numerics.Formula
