import Mathlib.Data.List.Forall2
import Numerics.Proofs.Integral.SizeCap

/-!
# Counts in words

A rule makes the count of its first sum from the one that it is asked for, and the next counts from the ones before.  As words
these counts are what they are as numbers (`Rule.fits_fixedCount_iff`, `Rule.fits_startingCount_iff`, `Rule.grows_of_le_cap`),
but for one case: Simpson's rule has no even word for the largest one, and goes on with none at all (`simpson_count_wraps`).
-/

namespace Numerics

namespace Rule

variable {rule : Rule} {n : ℕ} {w count : UInt64}

/-- The numbers of subintervals that a rule may use where it is asked for `n`: no fewer, and one more at most or the least number
that it can do with; an even number for Simpson's rule. -/
structure Suits (rule : Rule) (n count : ℕ) : Prop where
  le : n ≤ count
  le_succ : count ≤ n + 1 ∨ count = 2
  simpson : rule = .simpson → Even count ∧ 2 ≤ count

/-- As a word the count is the number `exact`, and that suits the rule. -/
structure Fits (rule : Rule) (w count : UInt64) (exact : ℕ) : Prop where
  toNat_eq : count.toNat = exact
  suits : rule.Suits w.toNat count.toNat

/-- The count and the next one are words, the next one is larger, and even for Simpson's rule. -/
structure Grows (rule : Rule) (count : UInt64) : Prop where
  toNat_eq : (rule.grow count).toNat = rule.growNat count.toNat
  lt : count < rule.grow count
  simpson : rule = .simpson → Even (rule.grow count).toNat

/-- No even word is as large as the count. -/
def IsBeyondEven (rule : Rule) (w : UInt64) : Prop := rule = .simpson ∧ w.toNat = 2 ^ 64 - 1

theorem suits_evenNat : simpson.Suits n (evenNat (max n 2)) := by
  refine ⟨(le_max_left n 2).trans le_evenNat, ?_, fun _ => ⟨even_evenNat, (le_max_right n 2).trans le_evenNat⟩⟩
  unfold evenNat
  omega

theorem suits_fixedNat : rule.Suits n (rule.fixedNat n) := by
  cases rule with
  | simpson => exact suits_evenNat
  | _ => exact ⟨le_rfl, .inl (Nat.le_succ n), nofun⟩

theorem suits_startingNat : rule.Suits n (rule.startingNat n) := by
  cases rule with
  | simpson => exact suits_evenNat
  | _ =>
    refine ⟨le_max_left _ _, ?_, nofun⟩
    simp only [startingNat]
    omega

/-- Rounding up to an even number leaves the words only at their end. -/
theorem evenNat_lt_word (h : w.toNat ≠ 2 ^ 64 - 1) : evenNat (max w.toNat 2) < 2 ^ 64 := by
  have hw := w.toNat_lt
  unfold evenNat
  omega

theorem fixedNat_lt_word (h : ¬ rule.IsBeyondEven w) : rule.fixedNat w.toNat < 2 ^ 64 := by
  cases rule with
  | simpson => exact evenNat_lt_word fun hw => h ⟨rfl, hw⟩
  | _ => exact w.toNat_lt

theorem startingNat_lt_word (h : ¬ rule.IsBeyondEven w) : rule.startingNat w.toNat < 2 ^ 64 := by
  have hw := w.toNat_lt
  cases rule with
  | simpson => exact evenNat_lt_word fun hw => h ⟨rfl, hw⟩
  | _ =>
    simp only [startingNat]
    omega

/-- The words end with an odd one. -/
theorem counts_of_isBeyondEven (h : rule.IsBeyondEven w) : rule.fixedCount w = 0 ∧ rule.startingCount w = 0 := by
  obtain ⟨rfl, hw⟩ := h
  obtain rfl : w = 18446744073709551615 := UInt64.toNat_inj.mp hw
  decide

theorem not_suits_zero (h : rule.IsBeyondEven w) : ¬ rule.Suits w.toNat (0 : UInt64).toNat := fun hsuits => by
  have hle := hsuits.le
  rw [h.2] at hle
  exact absurd hle (by decide)

/-- **Given counts.** -/
theorem fits_fixedCount_iff : rule.Fits w (rule.fixedCount w) (rule.fixedNat w.toNat) ↔ ¬ rule.IsBeyondEven w := by
  constructor
  · intro hfits hbeyond
    have hsuits := hfits.suits
    rw [(counts_of_isBeyondEven hbeyond).1] at hsuits
    exact not_suits_zero hbeyond hsuits
  · intro h
    have heq := toNat_fixedCount (fixedNat_lt_word h)
    exact ⟨heq, heq ▸ suits_fixedNat⟩

/-- **Counts to start with.** -/
theorem fits_startingCount_iff : rule.Fits w (rule.startingCount w) (rule.startingNat w.toNat) ↔ ¬ rule.IsBeyondEven w := by
  constructor
  · intro hfits hbeyond
    have hsuits := hfits.suits
    rw [(counts_of_isBeyondEven hbeyond).2] at hsuits
    exact not_suits_zero hbeyond hsuits
  · intro h
    have heq := toNat_startingCount (startingNat_lt_word h)
    exact ⟨heq, heq ▸ suits_startingNat⟩

/-- **Growth.** Up to the cap there is room in the words. -/
theorem grows_of_le_cap (hcap : count ≤ rule.cap) (heven : rule = .simpson → Even count.toNat) : rule.Grows count := by
  have heq := toNat_grow (growNat_lt_word (UInt64.le_iff_toNat_le.mp hcap))
  refine ⟨heq, ?_, ?_⟩
  · rw [UInt64.lt_iff_toNat_lt, heq]
    exact lt_growNat
  · rintro rfl
    rw [heq]
    exact even_growNat_simpson (heven rfl)

end Rule

namespace Integral

open Query

variable {α : Type} [Scalar α] {f : α → α} {a b : α} {n : UInt64} {rules : List Rule}

/-- **Counts in words.** The first sum of an integration has the count that the rule makes of the one that it is asked for.
This one fits, unless it is the largest word and Simpson's rule is to make it even; and all counts that follow one within the
cap do. -/
theorem counts_in_words (f : α → α) (rule : Rule) {a b : α} {n : UInt64} (hab : checkInterval a b = .ok ()) (hn : 0 < n.toNat) :
    integrate f a b n rule = .ok (sumAt f a b rule (rule.fixedCount n)) ∧
      (∀ rules, ∃ es, integrateFixed f a b n rules = .ok es ∧
        List.Forall₂ (fun rule (e : Estimate α) => e.n = rule.fixedCount n ∧ e.value = sumAt f a b rule e.n) rules es) ∧
      (rule.Fits n (rule.fixedCount n) (rule.fixedNat n.toNat) ↔ ¬ rule.IsBeyondEven n) ∧
      (∀ s : Settings α, s.validate = .ok () →
        (∃ later, sumCounts f a b s rule = rule.startingCount s.initialCount :: later) ∧
        (rule.Fits s.initialCount (rule.startingCount s.initialCount) (rule.startingNat s.initialCount.toNat) ↔
          ¬ rule.IsBeyondEven s.initialCount)) ∧
      ∀ count ≤ rule.cap, (rule = .simpson → Even count.toNat) → rule.Grows count := by
  refine ⟨integrate_eq_sumAt_fixedCount hab hn, fun rules => ⟨_, integrateFixed_eq hab hn, ?_⟩, Rule.fits_fixedCount_iff,
    fun s _ => ⟨?_, Rule.fits_startingCount_iff⟩, fun count => Rule.grows_of_le_cap⟩
  · rw [List.forall₂_map_right_iff, List.forall₂_same]
    intro rule _
    unfold fixedEstimate
    rw [value_bind, value_counted]
    exact ⟨rfl, rfl⟩
  · obtain ⟨later, hlater, -⟩ := requests_schedule (sumAt f a b rule) s rule
    exact ⟨later, hlater⟩

/-- Two words before the end, Simpson's rule still has an even count. -/
theorem counts_in_words_near_end :
    let n : UInt64 := 18446744073709551613
    checkInterval (0 : Float) 1 = .ok () ∧ 0 < n.toNat ∧ ¬ Rule.simpson.IsBeyondEven n ∧
      Rule.simpson.fixedCount n = 18446744073709551614 ∧
      Rule.simpson.Fits n (Rule.simpson.fixedCount n) (Rule.simpson.fixedNat n.toNat) := by
  intro n
  have hab : checkInterval (0 : Float) 1 = .ok () := by decide +kernel
  have hn : 0 < n.toNat := by decide
  have hbeyond : ¬ Rule.simpson.IsBeyondEven n := fun h => absurd h.2 (by decide)
  obtain ⟨-, -, hfits, -⟩ := counts_in_words (fun x : Float => x * x) .simpson hab hn
  exact ⟨hab, hn, hbeyond, by decide, hfits.mpr hbeyond⟩

/-- Simpson's rule with the largest word: no subinterval is left, and the integral of zero is not defined. -/
theorem simpson_count_wraps :
    (¬ ∀ (rule : Rule) (n : UInt64), 0 < n.toNat → rule.Fits n (rule.fixedCount n) (rule.fixedNat n.toNat)) ∧
      Rule.simpson.fixedCount 18446744073709551615 = 0 ∧ Rule.simpson.startingCount 18446744073709551615 = 0 ∧
      integrate (fun x : Float => 0 * x) 0 1 18446744073709551615 .simpson = .ok Scalar.undefined := by
  have hbeyond : Rule.simpson.IsBeyondEven 18446744073709551615 := ⟨rfl, rfl⟩
  obtain ⟨hfixed, hstarting⟩ := Rule.counts_of_isBeyondEven hbeyond
  have hab : checkInterval (0 : Float) 1 = .ok () := by decide +kernel
  have hsum : sumAt (fun x : Float => 0 * x) 0 1 .simpson 0 = Scalar.undefined := by decide +kernel
  refine ⟨fun hclaim => ?_, hfixed, hstarting, ?_⟩
  · exact Rule.fits_fixedCount_iff.mp (hclaim .simpson 18446744073709551615 (by decide)) hbeyond
  · rw [integrate_eq_sumAt_fixedCount hab (by decide), hfixed, hsum]

end Integral

end Numerics
