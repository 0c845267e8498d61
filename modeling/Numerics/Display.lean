import Numerics.Decimal.Notation

/-!
# Digits worth showing

A result that is known to a tolerance is shown with as many decimal places as the tolerance has.
-/

namespace Numerics.Display

/-- The number of places for a tolerance that says nothing. -/
def fallbackPlaces : Nat := 6

/-- The decimal places for a tolerance: between 1 and 15. -/
def decimalPlaces (epsilon : Float) : Nat :=
  if !epsilon.isFinite || epsilon ≤ 0 then fallbackPlaces
  else
    let places := (-epsilon.log10).ceil
    if places < 1 then 1 else if 15 < places then 15 else places.toUInt64.toNat

/-- The value with the places for a tolerance. -/
def format (value epsilon : Float) : String := Decimal.fixed (decimalPlaces epsilon) value

end Numerics.Display
