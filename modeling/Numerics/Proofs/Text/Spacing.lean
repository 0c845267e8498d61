import Mathlib.Data.List.Chain
import Numerics.Proofs.Text.LowerCase

/-!
# Spacing

`Apart x cs` says that no two neighbours in a text are `x`.  A text whose words are one space apart has no neighbouring
spaces even between two more spaces (`IsSpaced`); these are the texts that the collapse of blanks makes and leaves as they
are, and lower case keeps them such.
-/

namespace Numerics.Text

/-- No two neighbours in the text are the character. -/
def Apart (x : Char) (cs : List Char) : Prop := cs.IsChain fun a b => ¬(a = x ∧ b = x)

section Apart

variable {x p q y : Char} {cs ds xs ys : List Char}

theorem apart_cons_cons : Apart x (p :: q :: cs) ↔ ¬(p = x ∧ q = x) ∧ Apart x (q :: cs) := List.isChain_cons_cons

theorem apart_singleton : Apart x [p] := List.isChain_singleton p

theorem Apart.tail (h : Apart x (p :: cs)) : Apart x cs := (List.isChain_cons.mp h).2

theorem Apart.of_append (h : Apart x (xs ++ ys)) : Apart x xs ∧ Apart x ys :=
  ⟨(List.isChain_append.mp h).1, (List.isChain_append.mp h).2.1⟩

/-- Another character keeps what stands around it apart. -/
theorem apart_append_cons (hy : y ≠ x) : Apart x (xs ++ y :: ys) ↔ Apart x xs ∧ Apart x ys := by
  unfold Apart
  rw [List.isChain_append, List.isChain_cons]
  simp [hy]

theorem apart_cons (hy : y ≠ x) : Apart x (y :: ys) ↔ Apart x ys := by
  rw [← List.nil_append (y :: ys), apart_append_cons hy]
  simp [Apart]

theorem apart_of_not_mem (h : x ∉ cs) : Apart x cs := by
  induction cs with
  | nil => exact List.isChain_nil
  | cons c cs ih =>
    rw [List.mem_cons, not_or] at h
    exact (apart_cons (Ne.symm h.1)).mpr (ih h.2)

theorem apart_append_of_ne (hne : ds ≠ []) (hds : ∀ d ∈ ds, d ≠ x) : Apart x (p :: (ds ++ ys)) ↔ Apart x ys := by
  induction ds generalizing p with
  | nil => exact absurd rfl hne
  | cons d ds ih =>
    obtain ⟨hd, hds⟩ := List.forall_mem_cons.mp hds
    rw [List.cons_append, apart_cons_cons, and_iff_right (fun h => hd h.2)]
    cases ds with
    | nil => exact apart_cons hd
    | cons e ds => exact ih (List.cons_ne_nil _ _) hds

/-- Where the first character of a text is put in another's place, the text stays apart if it was. -/
theorem Apart.cons_of_imp (h : Apart x (p :: cs)) (hp : q = x → p = x) : Apart x (q :: cs) := by
  by_cases hq : q = x
  · have : q = p := hq.trans (hp hq).symm
    rwa [this]
  · exact (apart_cons hq).mpr h.tail

end Apart

/-! ### Blanks -/

/-- The words of the text are one space apart, and nothing stands around them. -/
structure IsSpaced (cs : List Char) : Prop where
  apart : Apart ' ' (' ' :: (cs ++ [' ']))
  blank : ∀ c ∈ cs, isBlank c = true → c = ' '

section Blanks

variable {p c : Char} {cs xs ys : List Char}

theorem isBlank_space : isBlank ' ' = true := by decide

theorem ne_space_of_isBlank (h : isBlank c = false) : c ≠ ' ' := by
  rintro rfl
  cases h

theorem squeeze_append (h : ∀ c ∈ xs, isBlank c = false) : squeeze false (xs ++ ys) = xs ++ squeeze false ys := by
  induction xs with
  | nil => rfl
  | cons c xs ih =>
    obtain ⟨hc, hxs⟩ := List.forall_mem_cons.mp h
    rw [List.cons_append, squeeze, hc]
    simp [ih hxs]

theorem squeeze_spec (hp : p ≠ ' ') :
    Apart ' ' (p :: (squeeze false cs ++ [' '])) ∧ Apart ' ' (p :: (squeeze true cs ++ [' '])) := by
  induction cs generalizing p with
  | nil => simp [squeeze, apart_cons hp, apart_singleton]
  | cons c cs ih =>
    simp only [squeeze]
    cases hc : isBlank c with
    | true =>
      simp only [if_true]
      exact ⟨(ih hp).2, (ih hp).2⟩
    | false =>
      have hne := ne_space_of_isBlank hc
      simp only [Bool.false_eq_true, if_false, if_true, List.cons_append]
      exact ⟨(apart_cons hp).mpr (ih hne).1,
        (apart_cons hp).mpr (apart_cons_cons.mpr ⟨fun h => hne h.2, (ih hne).1⟩)⟩

theorem isBlank_of_mem_squeeze {gap : Bool} : ∀ c ∈ squeeze gap cs, isBlank c = true → c = ' ' := by
  induction cs generalizing gap with
  | nil => nofun
  | cons c cs ih =>
    simp only [squeeze]
    cases hc : isBlank c with
    | true =>
      simp only [if_true]
      exact ih
    | false =>
      have hcons : ∀ d ∈ c :: squeeze false cs, isBlank d = true → d = ' ' :=
        List.forall_mem_cons.mpr ⟨fun h => absurd h (by simp [hc]), ih⟩
      cases gap with
      | true => exact List.forall_mem_cons.mpr ⟨fun _ => rfl, hcons⟩
      | false => exact hcons

/-- **Collapsed blanks.** The words of a collapsed text are one space apart. -/
theorem isSpaced_collapseBlanks (h : collapseBlanks cs ≠ []) : IsSpaced (collapseBlanks cs) := by
  refine ⟨?_, isBlank_of_mem_squeeze⟩
  unfold collapseBlanks at h ⊢
  cases hcs : cs.dropWhile isBlank with
  | nil => simp [hcs, squeeze] at h
  | cons c ds =>
    have hc : isBlank c = false := by
      have := List.head?_dropWhile_not isBlank cs
      simpa [hcs] using this
    have hne := ne_space_of_isBlank hc
    simp only [squeeze, hc, Bool.false_eq_true, if_false, List.cons_append]
    exact apart_cons_cons.mpr ⟨fun h => hne h.2, (squeeze_spec hne).1⟩

theorem squeeze_of_apart (hblank : ∀ c ∈ cs, isBlank c = true → c = ' ') :
    (∀ p, p ≠ ' ' → Apart ' ' (p :: (cs ++ [' '])) → squeeze false cs = cs) ∧
      (Apart ' ' (' ' :: (cs ++ [' '])) → squeeze true cs = ' ' :: cs) := by
  induction cs with
  | nil => exact ⟨fun _ _ _ => rfl, fun h => absurd ⟨rfl, rfl⟩ (apart_cons_cons.mp h).1⟩
  | cons c cs ih =>
    obtain ⟨hc, hcs⟩ := List.forall_mem_cons.mp hblank
    simp only [squeeze]
    cases hcblank : isBlank c with
    | true =>
      obtain rfl := hc hcblank
      refine ⟨fun _ _ h => ?_, fun h => absurd ⟨rfl, rfl⟩ (apart_cons_cons.mp h).1⟩
      rw [if_pos rfl]
      exact (ih hcs).2 h.tail
    | false =>
      have hne := ne_space_of_isBlank hcblank
      simp only [Bool.false_eq_true, if_false, if_true]
      exact ⟨fun _ _ h => by rw [(ih hcs).1 c hne h.tail], fun h => by rw [(ih hcs).1 c hne h.tail]⟩

theorem IsSpaced.collapseBlanks (h : IsSpaced cs) : collapseBlanks cs = cs := by
  have htrue := (squeeze_of_apart h.blank).2 h.apart
  unfold Text.collapseBlanks
  cases cs with
  | nil => rfl
  | cons c cs =>
    have hne : c ≠ ' ' := fun hc => (apart_cons_cons.mp h.apart).1 ⟨rfl, hc⟩
    have hc : isBlank c = false := Bool.eq_false_iff.mpr fun hc => hne (h.blank c List.mem_cons_self hc)
    simp only [squeeze, hc, Bool.false_eq_true, if_false, if_true, List.cons.injEq, true_and] at htrue
    simp [squeeze, hc, htrue]

end Blanks

/-! ### Lower case -/

section LowerCase

variable {p q c d : Char} {before cs after : List Char}

theorem lowerAt_ne_nil : lowerAt before c after ≠ [] := by
  unfold lowerAt
  split
  · exact List.cons_ne_nil _ _
  · split <;> exact List.cons_ne_nil _ _

/-- The only blank that a small form of a character can be is the character. -/
theorem eq_of_isBlank_of_mem_lowerAt (hd : d ∈ lowerAt before c after) (hblank : isBlank d = true) : d = c := by
  rw [(lowerAt_spec hd).2 hblank] at hd
  exact List.mem_singleton.mp hd

theorem apart_lowerAfter (hblank : ∀ c ∈ cs, isBlank c = true → c = ' ') (hp : q = ' ' → p = ' ')
    (h : Apart ' ' (p :: (cs ++ [' ']))) : Apart ' ' (q :: (lowerAfter before cs ++ [' '])) := by
  induction cs generalizing before p q with
  | nil => exact h.cons_of_imp hp
  | cons c cs ih =>
    have hcs := (List.forall_mem_cons.mp hblank).2
    by_cases hspace : c = ' '
    · subst hspace
      obtain ⟨hpc, htail⟩ := apart_cons_cons.mp h
      have : lowerAt before ' ' cs = [' '] := by
        unfold lowerAt
        rw [if_neg (by decide), if_neg (by decide)]
        rfl
      rw [lowerAfter, this]
      exact apart_cons_cons.mpr ⟨fun hq => hpc ⟨hp hq.1, rfl⟩, ih hcs id htail⟩
    · have hne : ∀ d ∈ lowerAt before c cs, d ≠ ' ' := by
        rintro d hd rfl
        exact hspace (eq_of_isBlank_of_mem_lowerAt hd isBlank_space).symm
      rw [lowerAfter, List.append_assoc, apart_append_of_ne lowerAt_ne_nil hne]
      exact (ih hcs id h.tail).tail

theorem isBlank_of_mem_lowerAfter (hblank : ∀ c ∈ cs, isBlank c = true → c = ' ') :
    ∀ d ∈ lowerAfter before cs, isBlank d = true → d = ' ' := by
  induction cs generalizing before with
  | nil => nofun
  | cons c cs ih =>
    obtain ⟨hc, hcs⟩ := List.forall_mem_cons.mp hblank
    intro d hd hdblank
    rcases List.mem_append.mp hd with hd | hd
    · obtain rfl := eq_of_isBlank_of_mem_lowerAt hd hdblank
      exact hc hdblank
    · exact ih hcs d hd hdblank

/-- Lower case keeps the words one space apart. -/
theorem IsSpaced.lowerCase (h : IsSpaced cs) : IsSpaced (lowerCase cs) where
  apart := apart_lowerAfter h.blank id h.apart
  blank := isBlank_of_mem_lowerAfter h.blank

end LowerCase

end Numerics.Text
