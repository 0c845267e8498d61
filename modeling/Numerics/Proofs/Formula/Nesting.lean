import Mathlib.Data.List.Basic
import Numerics.Formula.Power

/-!
# Nesting

`Balanced o c` says that the groups of a text between the parentheses `o` and `c` are closed.  A group is found from its
first parenthesis exactly if what stands between it and the last one is balanced (`splitGroup?_eq_some_iff`).  Read
backwards, a balanced text is balanced for the exchanged parentheses, so the same holds for groups that are found from
their end.
-/

namespace Numerics.Formula

/-- All groups of the text are closed, and no parenthesis closes a group that the text does not open. -/
inductive Balanced (opening closing : Char) : List Char → Prop where
  | nil : Balanced opening closing []
  | plain {c : Char} {cs : List Char} :
      c ≠ opening → c ≠ closing → Balanced opening closing cs → Balanced opening closing (c :: cs)
  | group {xs ys : List Char} :
      Balanced opening closing xs → Balanced opening closing ys →
      Balanced opening closing (opening :: xs ++ closing :: ys)

section Balanced

variable {opening closing : Char} {xs ys cs : List Char}

theorem Balanced.append (hx : Balanced opening closing xs) (hy : Balanced opening closing ys) :
    Balanced opening closing (xs ++ ys) := by
  induction hx with
  | nil => exact hy
  | plain ho hc _ ih => exact .plain ho hc ih
  | group hx _ _ ih =>
    rw [List.append_assoc, List.cons_append]
    exact .group hx ih

theorem balanced_of_forall (h : ∀ c ∈ cs, c ≠ opening ∧ c ≠ closing) : Balanced opening closing cs := by
  induction cs with
  | nil => exact .nil
  | cons c cs ih =>
    obtain ⟨hc, hcs⟩ := List.forall_mem_cons.mp h
    exact .plain hc.1 hc.2 (ih hcs)

/-- Read backwards, the two parentheses are exchanged. -/
theorem Balanced.reverse (h : Balanced opening closing xs) : Balanced closing opening xs.reverse := by
  induction h with
  | nil => exact .nil
  | plain ho hc _ ih =>
    rw [List.reverse_cons]
    exact ih.append (.plain hc ho .nil)
  | @group xs ys _ _ ihx ihy =>
    have : (opening :: xs ++ closing :: ys).reverse = ys.reverse ++ (closing :: xs.reverse ++ opening :: []) := by
      simp
    rw [this]
    exact ihy.append (.group ihx .nil)

end Balanced

/-! ### Groups -/

section Groups

variable {opening closing : Char} {xs rest : List Char}

/-- The end of a group is not found within a balanced text. -/
theorem splitGroup?_append (hne : opening ≠ closing) (hx : Balanced opening closing xs) (depth : Nat) :
    splitGroup? opening closing (depth + 1) (xs ++ rest) =
      (splitGroup? opening closing (depth + 1) rest).map fun x => (xs ++ x.1, x.2) := by
  induction hx generalizing depth rest with
  | nil => simp
  | plain ho hc _ ih =>
    rw [List.cons_append, splitGroup?, if_neg ho, if_neg hc, ih, Option.map_map]
    rfl
  | @group xs ys _ _ ihx ihy =>
    have : opening :: xs ++ closing :: ys ++ rest = opening :: (xs ++ closing :: (ys ++ rest)) := by simp
    rw [this, splitGroup?, if_pos rfl, ihx, splitGroup?, if_neg hne.symm, if_pos rfl, if_neg (by omega),
      Nat.add_sub_cancel, ihy]
    simp [Function.comp_def]

/-- The first parenthesis that closes more groups than the text opens comes after a balanced text. -/
theorem exists_balanced_of_splitGroup? {depth : Nat} {cs group : List Char}
    (h : splitGroup? opening closing (depth + 1) cs = some (group, rest)) :
    ∃ xs ys, Balanced opening closing xs ∧ cs = xs ++ closing :: ys ∧
      (depth = 0 → group = xs ++ [closing] ∧ rest = ys) ∧
      (0 < depth → ∃ group', group = xs ++ closing :: group' ∧
        splitGroup? opening closing depth ys = some (group', rest)) := by
  match cs with
  | [] => cases h
  | c :: cs =>
    rw [splitGroup?] at h
    split at h
    · next ho =>
      obtain ⟨⟨g, r⟩, hg, heq⟩ := Option.map_eq_some_iff.mp h
      cases heq
      obtain ⟨xs, ys, hx, rfl, -, hrest⟩ := exists_balanced_of_splitGroup? hg
      obtain ⟨g', rfl, hg'⟩ := hrest (Nat.succ_pos depth)
      obtain ⟨us, vs, hu, rfl, hzero, hpos⟩ := exists_balanced_of_splitGroup? hg'
      refine ⟨opening :: xs ++ closing :: us, vs, .group hx hu, by simp [ho], fun h0 => ?_, fun h0 => ?_⟩
      · obtain ⟨rfl, rfl⟩ := hzero h0
        exact ⟨by simp [ho], rfl⟩
      · obtain ⟨g'', rfl, hg''⟩ := hpos h0
        exact ⟨g'', by simp [ho], hg''⟩
    · next ho =>
      split at h
      · next hc =>
        subst hc
        refine ⟨[], cs, .nil, rfl, fun h0 => ?_, fun h0 => ?_⟩
        · rw [if_pos (by omega)] at h
          cases h
          exact ⟨rfl, rfl⟩
        · rw [if_neg (by omega)] at h
          obtain ⟨⟨g, r⟩, hg, heq⟩ := Option.map_eq_some_iff.mp h
          cases heq
          exact ⟨g, rfl, hg⟩
      · next hc =>
        obtain ⟨⟨g, r⟩, hg, heq⟩ := Option.map_eq_some_iff.mp h
        cases heq
        obtain ⟨xs, ys, hx, rfl, hzero, hpos⟩ := exists_balanced_of_splitGroup? hg
        refine ⟨c :: xs, ys, .plain ho hc hx, rfl, fun h0 => ?_, fun h0 => ?_⟩
        · obtain ⟨rfl, rfl⟩ := hzero h0
          exact ⟨rfl, rfl⟩
        · obtain ⟨g', rfl, hg'⟩ := hpos h0
          exact ⟨g', rfl, hg'⟩
termination_by cs.length

/-- **Groups end where they are closed.** -/
theorem splitGroup?_eq_some_iff (hne : opening ≠ closing) {cs group : List Char} :
    splitGroup? opening closing 0 (opening :: cs) = some (group, rest) ↔
      ∃ xs, Balanced opening closing xs ∧ group = opening :: xs ++ [closing] ∧ cs = xs ++ closing :: rest := by
  rw [splitGroup?, if_pos rfl]
  constructor
  · intro h
    obtain ⟨⟨g, r⟩, hg, heq⟩ := Option.map_eq_some_iff.mp h
    cases heq
    obtain ⟨xs, ys, hx, rfl, hzero, -⟩ := exists_balanced_of_splitGroup? hg
    obtain ⟨rfl, rfl⟩ := hzero rfl
    exact ⟨xs, hx, rfl, rfl⟩
  · rintro ⟨xs, hx, rfl, rfl⟩
    rw [splitGroup?_append hne hx, splitGroup?, if_neg hne.symm, if_pos rfl, if_pos (Nat.le_refl _)]
    rfl

/-- A text either closes the group, or leaves a number of them open to what follows it. -/
theorem splitGroup?_append_cases (cs : List Char) (depth : Nat) :
    (∃ group rest, ∀ zs, splitGroup? opening closing depth (cs ++ zs) = some (group, rest ++ zs)) ∨
      ∃ depth', (0 < depth → 0 < depth') ∧ ∀ zs, splitGroup? opening closing depth (cs ++ zs) =
        (splitGroup? opening closing depth' zs).map fun x => (cs ++ x.1, x.2) := by
  induction cs generalizing depth with
  | nil => exact .inr ⟨depth, id, fun zs => by simp⟩
  | cons c cs ih =>
    have hmap : ∀ d : Nat, (depth ≠ 0 → 0 < d) →
        (∃ group rest, ∀ zs, ((splitGroup? opening closing d (cs ++ zs)).map fun x => (c :: x.1, x.2)) = some (group, rest ++ zs)) ∨
          ∃ depth', (0 < depth → 0 < depth') ∧ ∀ zs, ((splitGroup? opening closing d (cs ++ zs)).map fun x => (c :: x.1, x.2)) =
            (splitGroup? opening closing depth' zs).map fun x => (c :: cs ++ x.1, x.2) := by
      intro d hd
      rcases ih d with ⟨group, rest, h⟩ | ⟨depth', hpos, h⟩
      · exact .inl ⟨c :: group, rest, fun zs => by rw [h]; rfl⟩
      · exact .inr ⟨depth', fun h0 => hpos (hd (by omega)), fun zs => by rw [h, Option.map_map]; rfl⟩
    simp only [List.cons_append, splitGroup?]
    split
    · exact hmap _ fun _ => Nat.succ_pos _
    · split
      · split
        · exact .inl ⟨[c], cs, fun zs => rfl⟩
        · exact hmap _ fun _ => by omega
      · exact hmap _ fun h0 => by omega

/-- In a balanced text every group is closed. -/
theorem Balanced.exists_group (hne : opening ≠ closing) {us vs : List Char} (h : Balanced opening closing (us ++ opening :: vs)) :
    ∃ group rest, splitGroup? opening closing 0 (opening :: vs) = some (group, rest) := by
  obtain ⟨cs, hcs⟩ : ∃ cs, cs = us ++ opening :: vs := ⟨_, rfl⟩
  rw [← hcs] at h
  induction h generalizing us vs with
  | nil => simp at hcs
  | @plain c cs ho _ _ ih =>
    cases us with
    | nil => exact absurd (List.cons.inj hcs).1 ho
    | cons u us => exact ih (List.cons.inj hcs).2
  | @group xs ys hx _ ihx ihy =>
    cases us with
    | nil =>
      obtain rfl : xs ++ closing :: ys = vs := (List.cons.inj hcs).2
      exact ⟨_, _, (splitGroup?_eq_some_iff hne).mpr ⟨xs, hx, rfl, rfl⟩⟩
    | cons u us =>
      rcases List.append_eq_append_iff.mp (List.cons.inj hcs).2 with ⟨zs, rfl, hy⟩ | ⟨zs, rfl, hv⟩
      · cases zs with
        | nil => exact absurd (List.cons.inj hy).1 hne.symm
        | cons z zs => exact ihy (List.cons.inj hy).2
      · cases zs with
        | nil => exact absurd (List.cons.inj hv).1 hne
        | cons z zs =>
          obtain ⟨rfl, rfl⟩ := List.cons.inj hv
          obtain ⟨group, rest, hgroup⟩ := ihx rfl
          rcases @splitGroup?_append_cases opening closing (opening :: zs) 0 with ⟨g, r, hall⟩ | ⟨depth', -, hall⟩
          · exact ⟨g, _, hall _⟩
          · have hnone := hall []
            rw [List.append_nil, hgroup] at hnone
            cases hnone

end Groups

end Numerics.Formula
