/-!
# Floats as exact binary fractions

A finite float is a sign with `significand · 2 ^ exponent`. Decimal texts are computed from this pair in exact
integer arithmetic, so no digit depends on rounding.
-/

namespace Numerics.Decimal

/-- The number `significand · 2 ^ exponent`. -/
structure Binary where
  significand : Nat
  exponent : Int
  deriving Repr, DecidableEq

/-- What the bits of a float stand for. -/
inductive Reading where
  | undefined
  | infinite (negative : Bool)
  | finite (negative : Bool) (magnitude : Binary)
  deriving Repr, DecidableEq

/-- The reading of the 64 bits: a sign, 11 bits of exponent, and 52 bits of fraction below a bit that is set
unless all bits of the exponent are zero. -/
def Reading.ofBits (bits : UInt64) : Reading :=
  let n := bits.toNat
  let negative := n / Nat.pow 2 63 == 1
  let exponent : Nat := n / Nat.pow 2 52 % Nat.pow 2 11
  let fraction := n % Nat.pow 2 52
  if exponent = 0 then .finite negative ⟨fraction, -1074⟩
  else if exponent < 2047 then .finite negative ⟨fraction + Nat.pow 2 52, (exponent : Int) - 1075⟩
  else if fraction = 0 then .infinite negative
  else .undefined

/-- The reading of a float. -/
def Reading.of (x : Float) : Reading := .ofBits x.toBits

namespace Binary

/-- The magnitude is zero. -/
def isZero (b : Binary) : Bool := b.significand == 0

/-- Numerator of the magnitude as a fraction. -/
def numerator (b : Binary) : Nat := b.significand * Nat.pow 2 b.exponent.toNat

/-- Denominator of the magnitude as a fraction. -/
def denominator (b : Binary) : Nat := Nat.pow 2 (-b.exponent).toNat

end Binary

end Numerics.Decimal
