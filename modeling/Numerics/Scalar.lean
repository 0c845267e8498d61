/-!
# The numbers that methods compute with

Every method of the library is written once, for any type of numbers with the operations below. `Float` is the type
that runs; a field in which the operations are exact gives the method of the textbook.

* `isNegative` is the sign, which negative zero has too, and `isFinite` rules out what is infinite or no number;
* `undefined` is the sentinel that stands for the value of an objective where it has none;
* `goldenCut` is the fraction at which golden-section methods cut a bracket, the root of `t² + t = 1` up to the
  precision of the type;
* `halvings w e` is a number of halvings that takes a width `w` to at most `e`, if halving can take it there.
-/

namespace Numerics

/-- Numbers with the four operations, an order, a sign, and the constants that methods need. -/
class Scalar (α : Type) extends Add α, Sub α, Mul α, Div α, Neg α, LT α, LE α, NatCast α where
  abs : α → α
  isFinite : α → Bool
  isNegative : α → Bool
  undefined : α
  goldenCut : α
  halvings : α → α → Nat
  decideLt : ∀ a b : α, Decidable (a < b)
  decideLe : ∀ a b : α, Decidable (a ≤ b)

namespace Scalar

variable {α : Type} [Scalar α]

instance (a b : α) : Decidable (a < b) := decideLt a b

instance (a b : α) : Decidable (a ≤ b) := decideLe a b

/-- Numerals stand for whole numbers. -/
instance (priority := low) (n : Nat) : OfNat α n := ⟨(n : α)⟩

/-- One unit of the decimal place `k`: the `10 ^ k`-th part of one. -/
@[inline] def place (k : Nat) : α := 1 / ((Nat.pow 10 k : Nat) : α)

/-- One half. -/
@[inline] def half : α := 1 / 2

/-- The smaller of two numbers, the second of equal ones. -/
@[inline] def least (a b : α) : α := if a < b then a else b

/-- The larger of two numbers, the second of equal ones. -/
@[inline] def greatest (a b : α) : α := if b < a then a else b

/-- The number in `[lo, hi]` nearest to `x`. -/
@[inline] def clamp (x lo hi : α) : α := if x < lo then lo else if hi < x then hi else x

/-- The middle of two numbers, from the first one. -/
@[inline] def midpoint (lo hi : α) : α := lo + (hi - lo) / 2

/-- Strictly before in the order that puts negative zero before zero. -/
@[inline] def precedes (a b : α) : Bool := a < b || (!(b < a) && isNegative a && !isNegative b)

/-- Of different signs, zero having the sign that it carries. -/
@[inline] def oppositeSigns (a b : α) : Bool := isNegative a != isNegative b

end Scalar

/-- The sentinel of machine numbers, a thousandth of the largest one. -/
@[noinline] def sentinel : Float := 1.7976931348623156e305

/-- Machine numbers.  The largest one is 2098 halvings above the least positive one, so a width that each step halves gets to any
positive tolerance within 2200 of them.  The width of a bracket need not do so: two neighbouring numbers have none between them,
and halving leaves them as they are. -/
instance : Scalar Float where
  natCast n := .ofNat n
  abs := Float.abs
  isFinite := Float.isFinite
  isNegative x := x.toBits >>> 63 == 1
  undefined := sentinel
  goldenCut := 1.618033988749895 - 1
  halvings _ _ := 2200
  decideLt := inferInstance
  decideLe := inferInstance

end Numerics
