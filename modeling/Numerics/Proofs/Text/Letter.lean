import Mathlib.Data.List.TakeWhile
import Numerics.Formula.Power

/-!
# Runs of letters and digits

What separates the characters of names, literals and signs, and when a text splits after a run of them.
-/

namespace Numerics.Text

section Characters

variable {c : Char}

theorem isNameStart_of_isAlphabetic (h : isAlphabetic c = true) : isNameStart c = true := by
  simp [isNameStart, h]

theorem isNameChar_of_isNameStart (h : isNameStart c = true) : isNameChar c = true := by
  simp only [isNameStart, Bool.or_eq_true] at h
  simp only [isNameChar, isAlphanumeric, Bool.or_eq_true]
  exact h.imp_left .inl

theorem isNameChar_of_isDigit (h : c.isDigit = true) : isNameChar c = true := by
  simp [isNameChar, isAlphanumeric, isNumeric, h]

theorem isNumberChar_of_isDigit (h : c.isDigit = true) : isNumberChar c = true := by
  simp [isNumberChar, h]

theorem toNat_of_isDigit (h : c.isDigit = true) : 48 ≤ c.toNat ∧ c.toNat ≤ 57 := by
  simpa [Char.isDigit, UInt32.le_iff_toNat_le] using h

theorem toNat_of_isUpper (h : c.isUpper = true) : 65 ≤ c.toNat ∧ c.toNat ≤ 90 := by
  have hval : 65 ≤ c.val ∧ c.val ≤ 90 := of_decide_eq_true h
  simpa [UInt32.le_iff_toNat_le] using hval

theorem toNat_of_isLower (h : c.isLower = true) : 97 ≤ c.toNat ∧ c.toNat ≤ 122 := by
  have hval : (decide (97 ≤ c.val) && decide (c.val ≤ 122)) = true := h
  simpa [UInt32.le_iff_toNat_le] using hval

theorem isAlphabetic_of_isDigit (h : c.isDigit = true) : isAlphabetic c = false := by
  obtain ⟨h₁, h₂⟩ := toNat_of_isDigit h
  have halpha : c.isAlpha = false := by
    rw [Bool.eq_false_iff]
    intro ha
    rcases Bool.or_eq_true_iff.mp ha with ha | ha
    · have := toNat_of_isUpper ha
      omega
    · have := toNat_of_isLower ha
      omega
  have : ¬ 128 ≤ c.toNat := by omega
  simp [isAlphabetic, halpha, this]

theorem isNumberChar_of_isNameStart (h : isNameStart c = true) : isNumberChar c = false := by
  cases hn : isNumberChar c with
  | false => rfl
  | true =>
    simp only [isNumberChar, Bool.or_eq_true, beq_iff_eq] at hn
    rcases hn with hd | rfl
    · have : c ≠ '_' := by
        rintro rfl
        exact absurd hd (by decide)
      simp [isNameStart, isAlphabetic_of_isDigit hd, this] at h
    · exact absurd h (by decide)

end Characters

end Numerics.Text

namespace Numerics.Formula

section Runs

variable {p : Char → Bool} {cs xs ys : List Char}

/-- A text starts outside a class of characters. -/
def StartsOutside (p : Char → Bool) (cs : List Char) : Prop := ∀ c ∈ cs.head?, p c = false

theorem startsOutside_nil : StartsOutside p [] := nofun

theorem startsOutside_cons {c : Char} : StartsOutside p (c :: cs) ↔ p c = false := by
  simp [StartsOutside]

theorem splitRun_eq_iff : splitRun p cs = (xs, ys) ↔ cs = xs ++ ys ∧ (∀ c ∈ xs, p c = true) ∧ StartsOutside p ys := by
  constructor
  · intro h
    cases h
    refine ⟨(List.takeWhile_append_dropWhile).symm, fun c hc => List.mem_takeWhile_imp hc, fun c hc => ?_⟩
    have := List.head?_dropWhile_not p cs
    simp_all
  · rintro ⟨rfl, hx, hy⟩
    unfold splitRun
    rw [List.takeWhile_append_of_pos hx, List.dropWhile_append_of_pos hx]
    cases ys with
    | nil => simp
    | cons y ys =>
      have : p y = false := hy y rfl
      simp [this]

end Runs

end Numerics.Formula
