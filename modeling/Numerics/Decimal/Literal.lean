/-!
# Numeric literals

A literal is a run of digits with at most one point in it, and at least one digit: `2`, `2.5`, `2.` and `.5`.
It stands for the nearest float.
-/

namespace Numerics.Decimal

/-- The number that the decimal digits spell. -/
def digitsValue (cs : List Char) : Nat := cs.foldl (fun n c => 10 * n + (c.toNat - '0'.toNat)) 0

/-- The digits before and after the point of a literal; none if the text is no literal. -/
def literalParts? (cs : List Char) : Option (List Char × List Char) :=
  let whole := cs.takeWhile Char.isDigit
  match cs.dropWhile Char.isDigit with
  | [] => if whole.isEmpty then none else some (whole, [])
  | c :: fraction =>
    if c = '.' && fraction.all Char.isDigit && !(whole.isEmpty && fraction.isEmpty) then some (whole, fraction)
    else none

/-- The float nearest to the literal. -/
def readLiteral? (cs : List Char) : Option Float :=
  (literalParts? cs).map fun (whole, fraction) =>
    Float.ofScientific (digitsValue (whole ++ fraction)) true fraction.length

end Numerics.Decimal
