import Numerics.Decimal.Shortest

/-!
# Decimal texts of floats

Three notations: positional with the fewest digits that read back (`Decimal.plain`), scientific with the same
digits (`Decimal.scientific`), and positional with a given number of places (`Decimal.fixed`), where the exact value
is rounded and a tie goes to the even neighbour. Zero keeps its sign in all three.
-/

namespace Numerics.Decimal

/-- The texts of values that have no digits, and the sign of those that have. -/
def signed (digits : Binary → List Char) : Reading → List Char
  | .undefined => ['N', 'a', 'N']
  | .infinite false => ['i', 'n', 'f']
  | .infinite true => ['-', 'i', 'n', 'f']
  | .finite false b => digits b
  | .finite true b => '-' :: digits b

/-- The decimal digits of a number. -/
def digitsOf (n : Nat) : List Char := Nat.toDigits 10 n

/-- The text without the zeros at its end. -/
def dropFinalZeros (cs : List Char) : List Char := (cs.reverse.dropWhile (· == '0')).reverse

/-- The digits of `s` without zeros at the end, and the power of ten of the first of them. -/
def Scientific.leading (s : Scientific) : List Char × Int :=
  let all := digitsOf s.coefficient
  (dropFinalZeros all, s.exponent + all.length - 1)

/-- The digits with the point after the one of power 0; `exponent` is the power of the first. -/
def positional (digits : List Char) (exponent : Int) : List Char :=
  if exponent < 0 then
    '0' :: '.' :: (List.replicate (-exponent - 1).toNat '0' ++ digits)
  else
    let whole := exponent.toNat + 1
    if digits.length ≤ whole then digits ++ List.replicate (whole - digits.length) '0'
    else digits.take whole ++ '.' :: digits.drop whole

/-- A whole number, with its sign if negative. -/
def integerText (n : Int) : List Char :=
  if n < 0 then '-' :: digitsOf n.natAbs else digitsOf n.natAbs

/-- Positional text with the fewest digits, never with an exponent. -/
def Binary.plain (b : Binary) : List Char :=
  if b.isZero then ['0'] else positional b.shortest.leading.1 b.shortest.leading.2

/-- One digit, the others after a point if there are any, and the power of ten. -/
def Binary.scientific (b : Binary) : List Char :=
  if b.isZero then ['0', 'e', '0']
  else
    let (digits, exponent) := b.shortest.leading
    let fraction := if digits.length ≤ 1 then [] else '.' :: digits.drop 1
    digits.take 1 ++ fraction ++ 'e' :: integerText exponent

/-- The quotient rounded to the nearest whole number, a tie to the even one. -/
def roundDiv (num den : Nat) : Nat :=
  let quotient := num / den
  let twice := 2 * (num % den)
  if den < twice || (twice == den && quotient % 2 == 1) then quotient + 1 else quotient

/-- Positional text with the given number of places. -/
def Binary.fixed (places : Nat) (b : Binary) : List Char :=
  let digits := digitsOf (roundDiv (b.numerator * Nat.pow 10 places) b.denominator)
  let padded := List.replicate (places + 1 - digits.length) '0' ++ digits
  let whole := padded.length - places
  if places = 0 then padded else padded.take whole ++ '.' :: padded.drop whole

/-- Fewest digits, positional: `0.001`, `-1`, `100000000000000000000000`. -/
def plain (x : Float) : String := .ofList (signed Binary.plain (.of x))

/-- Fewest digits, scientific: `0e0`, `1.5e-13`. -/
def scientific (x : Float) : String := .ofList (signed Binary.scientific (.of x))

/-- The exact value rounded to a number of places: `0.10`, `-0.0`. -/
def fixed (places : Nat) (x : Float) : String := .ofList (signed (Binary.fixed places) (.of x))

end Numerics.Decimal
