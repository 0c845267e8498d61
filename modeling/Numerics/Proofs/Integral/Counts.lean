import Mathlib.Algebra.Ring.Parity
import Mathlib.Order.Lattice
import Numerics.Integral.Rule

/-!
# Counts that fit into words

A rule's counts without a bound on their size (`startingNat`, `growNat`), which words agree with as long as they hold them
(`toNat_startingCount`, `toNat_grow`).  Growth always increases a count, keeps those of Simpson's rule even, and leaves room
in a word after every count up to the cap (`growNat_lt_word`).
-/

namespace Numerics.Rule

/-- The number, or the next one if it is odd. -/
def evenNat (n : ℕ) : ℕ := n + n % 2

/-- The first count of an adaptive run that is to start with `n`. -/
def startingNat (rule : Rule) (n : ℕ) : ℕ :=
  match rule with
  | simpson => evenNat (max n 2)
  | trapezoids => max n 2
  | _ => max n 1

/-- The count that the rule uses when `n` subintervals are asked for. -/
def fixedNat (rule : Rule) (n : ℕ) : ℕ :=
  match rule with
  | simpson => evenNat (max n 2)
  | _ => n

/-- The larger one of a multiple of `n`, rounded up, and the number after `n`. -/
def scaledNat (n numerator denominator : ℕ) : ℕ := max ((n * numerator + (denominator - 1)) / denominator) (n + 1)

/-- The count after `n` in an adaptive run. -/
def growNat (rule : Rule) (n : ℕ) : ℕ :=
  match rule with
  | leftRectangles | rightRectangles => scaledNat n 3 2
  | midpoints | trapezoids => scaledNat n 6 5
  | simpson =>
    if n < 10 then n + 2
    else if n < 100 then evenNat (scaledNat n 3 2)
    else if n < 1000 then evenNat (scaledNat n 13 10)
    else evenNat (scaledNat n 6 5)

/-- The first two counts of an adaptive run that is to start with `n` are no larger than words can be. -/
def CountsFit (rule : Rule) (n : UInt64) : Prop := rule.growNat (rule.startingNat n.toNat) < 2 ^ 64

instance (rule : Rule) (n : UInt64) : Decidable (rule.CountsFit n) := inferInstanceAs (Decidable (_ < _))

variable {rule : Rule} {n : ℕ} {w : UInt64} {p q : ℕ}

/-! ### Growth -/

theorem le_evenNat : n ≤ evenNat n := Nat.le_add_right _ _

theorem even_evenNat : Even (evenNat n) := by
  rw [Nat.even_iff]
  unfold evenNat
  omega

theorem evenNat_of_even (h : Even n) : evenNat n = n := by
  rw [Nat.even_iff] at h
  unfold evenNat
  omega

theorem lt_scaledNat : n < scaledNat n p q := (Nat.lt_succ_self n).trans_le (le_max_right _ _)

/-- Growth increases every count. -/
theorem lt_growNat : n < rule.growNat n := by
  have heven : ∀ {p q}, n < evenNat (scaledNat n p q) := lt_scaledNat.trans_le le_evenNat
  cases rule with
  | simpson =>
    unfold growNat
    split_ifs
    · exact Nat.lt_add_of_pos_right Nat.two_pos
    all_goals exact heven
  | _ => exact lt_scaledNat

theorem even_growNat_simpson (h : Even n) : Even (simpson.growNat n) := by
  simp only [growNat]
  split_ifs
  · exact h.add even_two
  all_goals exact even_evenNat

/-- Simpson's rule grows an even count by two at least. -/
theorem add_two_le_growNat_simpson (h : Even n) : n + 2 ≤ simpson.growNat n := by
  have heven := Nat.even_iff.mp (even_growNat_simpson h)
  have hlt : n < simpson.growNat n := lt_growNat
  rw [Nat.even_iff] at h
  omega

theorem even_startingNat_simpson : Even (simpson.startingNat n) := even_evenNat

theorem even_fixedNat : rule = simpson → Even (rule.fixedNat n) := by
  rintro rfl
  exact even_evenNat

theorem fixedNat_pos (h : 0 < n) : 0 < rule.fixedNat n := by
  cases rule with
  | simpson => exact (Nat.two_pos.trans_le (le_max_right n 2)).trans_le le_evenNat
  | _ => exact h

theorem fixedNat_le : rule.fixedNat n ≤ n + 2 := by
  cases rule <;> simp only [fixedNat, evenNat] <;> omega

/-- Counts that suit the rule are used as they are. -/
theorem fixedNat_of_even (h : 0 < n) (heven : rule = simpson → Even n) : rule.fixedNat n = n := by
  cases rule with
  | simpson =>
    have htwo : 2 ≤ n := Nat.le_of_dvd h (heven rfl).two_dvd
    rw [fixedNat, max_eq_left htwo, evenNat_of_even (heven rfl)]
  | _ => rfl

theorem fixedNat_two_mul (h : 0 < n) : rule.fixedNat (2 * n) = 2 * n :=
  fixedNat_of_even (Nat.mul_pos Nat.two_pos h) fun _ => even_two_mul n

theorem startingNat_pos : 0 < rule.startingNat n := by
  cases rule with
  | simpson => exact (Nat.two_pos.trans_le (le_max_right n 2)).trans_le le_evenNat
  | trapezoids => exact Nat.two_pos.trans_le (le_max_right n 2)
  | _ => exact Nat.one_pos.trans_le (le_max_right n 1)

/-- After a count up to the cap there is room for the next one in a word. -/
theorem growNat_lt_word (h : n ≤ rule.cap.toNat) : rule.growNat n < 2 ^ 64 := by
  have hcap : n ≤ 1000000 := by
    refine h.trans ?_
    cases rule <;> decide
  cases rule with
  | simpson =>
    simp only [growNat, evenNat, scaledNat]
    split_ifs <;> omega
  | _ =>
    simp only [growNat, scaledNat]
    omega

/-! ### Words -/

theorem toNat_add_of_lt {v w : UInt64} (h : v.toNat + w.toNat < 2 ^ 64) : (v + w).toNat = v.toNat + w.toNat := by
  rw [UInt64.toNat_add, Nat.mod_eq_of_lt h]

theorem toNat_max {v w : UInt64} : (max v w).toNat = max v.toNat w.toNat := by
  change (if v ≤ w then w else v).toNat = _
  simp only [Nat.max_def, UInt64.le_iff_toNat_le]
  split <;> rfl

theorem toNat_roundUpEven (h : evenNat w.toNat < 2 ^ 64) : (roundUpEven w).toNat = evenNat w.toNat :=
  toNat_add_of_lt h

/-- Rounding up gives even words, also where it wraps around. -/
theorem even_roundUpEven : Even (roundUpEven w).toNat := by
  rw [Nat.even_iff, roundUpEven, UInt64.toNat_add, UInt64.toNat_mod]
  change (w.toNat + w.toNat % 2) % 2 ^ 64 % 2 = 0
  omega

theorem even_startingCount_simpson : Even (simpson.startingCount w).toNat := even_roundUpEven

theorem even_grow_simpson (h : Even w.toNat) : Even (simpson.grow w).toNat := by
  unfold grow
  dsimp only
  split_ifs
  · rw [Nat.even_iff] at h ⊢
    rw [UInt64.toNat_add]
    change (w.toNat + 2) % 2 ^ 64 % 2 = 0
    omega
  all_goals exact even_roundUpEven

theorem toNat_scaled (h : scaledNat w.toNat p q < 2 ^ 64) : (max (scaled w p q) (w + 1)).toNat = scaledNat w.toNat p q := by
  have hscaled := (le_max_left _ _).trans_lt h
  have hnext := (le_max_right _ _).trans_lt h
  rw [toNat_max, toNat_add_of_lt hnext, scaled, UInt64.toNat_ofNat', Nat.mod_eq_of_lt hscaled]
  rfl

theorem toNat_roundUpEven_max (h : evenNat (max w.toNat 2) < 2 ^ 64) :
    (roundUpEven (max w 2)).toNat = evenNat (max w.toNat 2) := by
  have hmax : (max w 2).toNat = max w.toNat 2 := toNat_max
  rw [toNat_roundUpEven (by rwa [hmax]), hmax]

theorem toNat_fixedCount (h : rule.fixedNat w.toNat < 2 ^ 64) : (rule.fixedCount w).toNat = rule.fixedNat w.toNat := by
  cases rule with
  | simpson => exact toNat_roundUpEven_max h
  | _ => rfl

theorem fixedCount_of_even (h : 0 < w.toNat) (heven : rule = simpson → Even w.toNat) : rule.fixedCount w = w := by
  have hfixed := fixedNat_of_even h heven
  rw [← UInt64.toNat_inj, toNat_fixedCount (by rw [hfixed]; exact w.toNat_lt), hfixed]

theorem toNat_startingCount (h : rule.startingNat w.toNat < 2 ^ 64) :
    (rule.startingCount w).toNat = rule.startingNat w.toNat := by
  cases rule with
  | simpson => exact toNat_roundUpEven_max h
  | _ => exact toNat_max

theorem toNat_grow (h : rule.growNat w.toNat < 2 ^ 64) : (rule.grow w).toNat = rule.growNat w.toNat := by
  cases rule with
  | simpson =>
    simp only [grow, growNat, UInt64.lt_iff_toNat_lt, UInt64.toNat_ofNat] at h ⊢
    have heven : ∀ {p q}, evenNat (scaledNat w.toNat p q) < 2 ^ 64 →
        (roundUpEven (max (scaled w p q) (w + 1))).toNat = evenNat (scaledNat w.toNat p q) := by
      intro p q hfit
      have hscaled := toNat_scaled (le_evenNat.trans_lt hfit)
      rw [toNat_roundUpEven (by rwa [hscaled]), hscaled]
    split_ifs at h ⊢ with h10 h100 h1000
    · exact toNat_add_of_lt h
    all_goals simp_all
  | _ => exact toNat_scaled h

end Numerics.Rule
