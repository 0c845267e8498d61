import Mathlib
import Numerics.Text.Blank
import Numerics.Text.LowerCase

/-!
# Lower case is final

No small letter of the table is itself a capital of it, and none is a blank, so a text in lower case stays what it is
(`lowerCase_of_isSmall`).
-/

namespace Numerics.Text

/-- No image of the range is a capital of the other range: the code points lie apart, or every other one is left out. -/
def CaseRange.misses (r s : CaseRange) : Bool :=
  (r.image + (r.last - r.first)).blt s.first || s.last.blt r.image ||
    (s.step.beq 2 && (r.step.beq 2 || r.first.beq r.last) && ((r.image + s.first) % 2).beq 1)

theorem CaseRange.lower?_eq_some_iff {r : CaseRange} {n m : Nat} :
    r.lower? n = some m ↔ r.first ≤ n ∧ n ≤ r.last ∧ (n - r.first) % r.step = 0 ∧ m = r.image + (n - r.first) := by
  unfold lower?
  split
  · next h =>
    have hrange : r.first ≤ n ∧ n ≤ r.last ∧ (n - r.first) % r.step = 0 := by simpa [and_assoc] using h
    simp [hrange, eq_comm]
  · next h =>
    refine iff_of_false nofun fun hm => h ?_
    simp [hm.1, hm.2.1, hm.2.2.1]

theorem CaseRange.lower?_of_misses {r s : CaseRange} {n m : Nat} (h : r.misses s = true) (hn : r.lower? n = some m) :
    s.lower? m = none := by
  obtain ⟨hfirst, hlast, hstep, rfl⟩ := lower?_eq_some_iff.mp hn
  rw [Option.eq_none_iff_forall_ne_some]
  intro k hk
  obtain ⟨hfirst', hlast', hstep', -⟩ := lower?_eq_some_iff.mp hk
  simp only [misses, Bool.or_eq_true, Bool.and_eq_true, Nat.blt_eq, Nat.beq_eq] at h
  rcases h with (h | h) | ⟨⟨hs, hr | hr⟩, h⟩
  · omega
  · omega
  · rw [hs] at hstep'
    rw [hr] at hstep
    omega
  · rw [hs] at hstep'
    omega

theorem all_misses : capitals.all (fun r => capitals.all r.misses) = true := by decide +kernel

/-- Every small letter of the table is a character, and neither a blank nor `İ`. -/
theorem images_valid : ∀ r ∈ capitals,
    (r.image + (r.last - r.first) < 0xD800 ∨ 0xDFFF < r.image ∧ r.image + (r.last - r.first) < 0x110000) ∧
      (r.image + (r.last - r.first) < 0x130 ∨ 0x130 < r.image) ∧
      ∀ b ∈ blankRanges, r.image + (r.last - r.first) < b.1 ∨ b.2 < r.image := by decide +kernel

/-- The character is its own small form wherever it stands. -/
def IsSmall (c : Char) : Prop := c ≠ 'Σ' ∧ c ≠ 'İ' ∧ lowerChar c = c

instance (c : Char) : Decidable (IsSmall c) := inferInstanceAs (Decidable (_ ∧ _ ∧ _))

/-! ### Small letters of the table -/

section Table

variable {r : CaseRange} {n m : Nat}

theorem toNat_ofNat_image (hr : r ∈ capitals) (h : r.lower? n = some m) : (Char.ofNat m).toNat = m := by
  obtain ⟨-, hlast, -, rfl⟩ := CaseRange.lower?_eq_some_iff.mp h
  have hvalid := (images_valid r hr).1
  rw [Char.toNat_ofNat, if_pos]
  unfold Nat.isValidChar
  omega

theorem findSome?_image (hr : r ∈ capitals) (h : r.lower? n = some m) : capitals.findSome? (·.lower? m) = none :=
  List.findSome?_eq_none_iff.mpr fun s hs => CaseRange.lower?_of_misses (List.all_eq_true.mp (List.all_eq_true.mp all_misses r hr) s hs) h

theorem isSmall_image (hr : r ∈ capitals) (h : r.lower? n = some m) : IsSmall (Char.ofNat m) := by
  have htoNat := toNat_ofNat_image hr h
  have hnone := findSome?_image hr h
  obtain ⟨-, hlast, -, hm⟩ := CaseRange.lower?_eq_some_iff.mp h
  refine ⟨?_, ?_, ?_⟩
  · -- the sigma is a capital of the table
    intro heq
    rw [heq] at htoNat
    rw [← htoNat] at hnone
    exact absurd hnone (by decide +kernel)
  · intro heq
    rw [heq] at htoNat
    have hdot : 0x130 = m := htoNat
    have := (images_valid r hr).2.1
    omega
  · unfold lowerChar
    rw [htoNat, hnone]
    split
    · refine Char.toLower_eq_of_not_isUpper fun hupper => ?_
      have hascii := List.findSome?_eq_none_iff.mp hnone ⟨0x41, 0x5A, 1, 0x61⟩ List.mem_cons_self
      have hrange : 65 ≤ m ∧ m ≤ 90 := by
        rw [← htoNat]
        simpa [Char.isUpper, UInt32.le_iff_toNat_le] using hupper
      rw [CaseRange.lower?_eq_some_iff.mpr ⟨hrange.1, hrange.2, Nat.mod_one _, rfl⟩] at hascii
      cases hascii
    · rfl

theorem isBlank_image (hr : r ∈ capitals) (h : r.lower? n = some m) : isBlank (Char.ofNat m) = false := by
  obtain ⟨-, hlast, -, hm⟩ := CaseRange.lower?_eq_some_iff.mp h
  rw [isBlank, covers, toNat_ofNat_image hr h, List.any_eq_false]
  intro b hb
  have := (images_valid r hr).2.2 b hb
  simp only [Bool.and_eq_true, decide_eq_true_eq]
  omega

end Table

/-! ### Texts in lower case -/

section LowerCase

variable {c : Char} {before cs after : List Char}

/-- A small form is small, and a blank only as the character it is the form of. -/
theorem lowerChar_spec (hc : c ≠ 'Σ' ∧ c ≠ 'İ') :
    IsSmall (lowerChar c) ∧ (isBlank (lowerChar c) = true → lowerChar c = c) := by
  by_cases hascii : c.toNat < 128
  · have hlower : lowerChar c = c.toLower := if_pos hascii
    by_cases hupper : c.isUpper
    · have hrange : 65 ≤ c.toNat ∧ c.toNat ≤ 90 := by simpa [Char.isUpper, UInt32.le_iff_toNat_le] using hupper
      have himage : CaseRange.lower? ⟨0x41, 0x5A, 1, 0x61⟩ c.toNat = some (c.toNat + 32) :=
        CaseRange.lower?_eq_some_iff.mpr ⟨hrange.1, hrange.2, Nat.mod_one _, by simp only; omega⟩
      rw [hlower, Char.toLower_eq_of_isUpper hupper, isBlank_image List.mem_cons_self himage]
      exact ⟨isSmall_image List.mem_cons_self himage, nofun⟩
    · have : lowerChar c = c := hlower.trans (Char.toLower_eq_of_not_isUpper hupper)
      rw [this]
      exact ⟨⟨hc.1, hc.2, this⟩, fun _ => rfl⟩
  · cases himage : capitals.findSome? (·.lower? c.toNat) with
    | none =>
      have : lowerChar c = c := by rw [lowerChar, if_neg hascii, himage]
      rw [this]
      exact ⟨⟨hc.1, hc.2, this⟩, fun _ => rfl⟩
    | some m =>
      obtain ⟨r, hr, h⟩ := List.exists_of_findSome?_eq_some himage
      have : lowerChar c = Char.ofNat m := by rw [lowerChar, if_neg hascii, himage]
      rw [this, isBlank_image hr h]
      exact ⟨isSmall_image hr h, nofun⟩

/-- The small forms of a character are small, and there is a blank among them only if it is the character. -/
theorem lowerAt_spec {d : Char} (hd : d ∈ lowerAt before c after) :
    IsSmall d ∧ (isBlank d = true → lowerAt before c after = [c]) := by
  unfold lowerAt at hd ⊢
  split at hd
  · next hc =>
    have : d = 'ς' ∨ d = 'σ' := by
      split at hd
      · exact .inl (List.mem_singleton.mp hd)
      · exact .inr (List.mem_singleton.mp hd)
    rcases this with rfl | rfl <;> exact ⟨by decide +kernel, fun h => absurd h (by decide)⟩
  · next hsigma =>
    split at hd
    · next hc =>
      have : d = 'i' ∨ d = '\u0307' := by simpa using hd
      rcases this with rfl | rfl <;> exact ⟨by decide +kernel, fun h => absurd h (by decide)⟩
    · next hdot =>
      have := lowerChar_spec ⟨hsigma, hdot⟩
      rw [List.mem_singleton.mp hd]
      rw [if_neg hsigma, if_neg hdot]
      exact ⟨this.1, fun h => by rw [this.2 h]⟩

theorem isSmall_of_mem_lowerAfter : ∀ c ∈ lowerAfter before cs, IsSmall c := by
  induction cs generalizing before with
  | nil => nofun
  | cons c cs ih =>
    intro d hd
    rcases List.mem_append.mp hd with hd | hd
    · exact (lowerAt_spec hd).1
    · exact ih d hd

theorem lowerAfter_of_isSmall (h : ∀ c ∈ cs, IsSmall c) : lowerAfter before cs = cs := by
  induction cs generalizing before with
  | nil => rfl
  | cons c cs ih =>
    obtain ⟨⟨hsigma, hdot, hc⟩, hcs⟩ := List.forall_mem_cons.mp h
    rw [lowerAfter, ih hcs, lowerAt, if_neg hsigma, if_neg hdot, hc]
    rfl

/-- **Lower case is final.** -/
theorem lowerCase_of_isSmall (h : ∀ c ∈ cs, IsSmall c) : lowerCase cs = cs := lowerAfter_of_isSmall h

end LowerCase

end Numerics.Text
