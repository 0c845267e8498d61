import Numerics.Decimal.Binary

/-!
# The fewest digits that read back

Every real number near enough to a float reads back as that float: the half-way points to its neighbours bound an
interval, ends included iff the significand is even. Of the decimal grids with 1, 2, … 17 digits the first one
with a point in the interval is taken, and of its points the nearest to the float; a tie goes up. If a grid has
a point in the interval at all, one of the two grid points around the float is in it, so only those are tried.
-/

namespace Numerics.Decimal

/-- The number `coefficient · 10 ^ exponent`. -/
structure Scientific where
  coefficient : Nat
  exponent : Int
  deriving Repr, DecidableEq

namespace Binary

/-- Twice the distance to the half-way point below, in quarters of the last bit: the lower neighbour of a power
of two is only half as far. -/
def quartersBelow (b : Binary) : Nat :=
  if b.significand = Nat.pow 2 52 ∧ -1074 < b.exponent then 1 else 2

/-- The point of the grid `10 ^ grid` that is nearest to `b` among the two around it, if it reads back. -/
def onGrid? (b : Binary) (grid : Int) : Option Nat :=
  -- all quantities are multiples of a common unit: a quarter of the last bit is `unit` of them, a grid step `step`
  let unit := Nat.pow 2 (b.exponent - 2).toNat * Nat.pow 10 (-grid).toNat
  let step := Nat.pow 2 (2 - b.exponent).toNat * Nat.pow 10 grid.toNat
  let value := 4 * b.significand * unit
  let low := value - b.quartersBelow * unit
  let high := value + 2 * unit
  let closed := b.significand % 2 == 0
  let reads (point : Nat) : Bool :=
    (low < point * step && point * step < high) || (closed && (low == point * step || point * step == high))
  let below := value / step
  let above := below + 1
  match reads below, reads above with
  | true, true => if above * step - value ≤ value - below * step then some above else some below
  | true, false => some below
  | false, true => some above
  | false, false => none

/-- The exponent `k` with `10 ^ k ≤ b < 10 ^ (k + 1)`, for `b` not zero: a guess from the bit lengths that is
never too large, raised while the next power still fits. -/
def decimalExponent (b : Binary) : Int :=
  let num := b.numerator
  let den := b.denominator
  let fits (k : Int) : Bool := den * Nat.pow 10 k.toNat ≤ num * Nat.pow 10 (-k).toNat
  let guess : Int := ((num.log2 : Int) - den.log2 - 1) * 30103 / 100000 - 1
  let next (k : Int) : Int := if fits (k + 1) then k + 1 else k
  next (next (next guess))

/-- The first hit on the grids that give `digits`, `digits + 1`, … digits to a number of the size of `b`. -/
def firstHit (b : Binary) (size : Int) (digits : Nat) : Nat → Scientific
  | 0 => ⟨0, 0⟩
  | tries + 1 =>
    let grid := size + 1 - digits
    match b.onGrid? grid with
    | some c => ⟨c, grid⟩
    | none => firstHit b size (digits + 1) tries

/-- The shortest decimal that reads back as `b`, nearest to it among those; zero has coefficient 0. -/
def shortest (b : Binary) : Scientific :=
  if b.isZero then ⟨0, 0⟩ else firstHit b b.decimalExponent 1 17

end Binary

end Numerics.Decimal
