/-!
# Quadrature rules and their subinterval counts

Counts are machine words. A rule may need more subintervals than it is given (Simpson's rule an even number, two at
least), and an adaptive run goes from one count to a larger one, up to a cap.
-/

namespace Numerics

/-- A composite quadrature rule. -/
inductive Rule where
  | leftRectangles
  | rightRectangles
  | midpoints
  | trapezoids
  | simpson
  deriving Repr, DecidableEq

namespace Rule

/-- The rules in the order of their presentation. -/
def all : List Rule := [leftRectangles, rightRectangles, midpoints, trapezoids, simpson]

/-- The rule in words. -/
def label : Rule → String
  | leftRectangles => "left rectangles"
  | rightRectangles => "right rectangles"
  | midpoints => "midpoint rectangles"
  | trapezoids => "trapezoids"
  | simpson => "Simpson"

/-- The count, or the next one if it is odd. -/
def roundUpEven (n : UInt64) : UInt64 := n + n % 2

/-- The count that the rule uses when `n` subintervals are asked for. -/
def fixedCount (rule : Rule) (n : UInt64) : UInt64 :=
  match rule with
  | simpson => roundUpEven (max n 2)
  | _ => n

/-- The first count of an adaptive run that is to start with `n`. -/
def startingCount (rule : Rule) (n : UInt64) : UInt64 :=
  match rule with
  | simpson => roundUpEven (max n 2)
  | trapezoids => max n 2
  | _ => max n 1

/-- The count `n * numerator / denominator`, rounded up.  For the fractions of `grow` and counts of at most 48 digits, far beyond
the caps, it is the product of machine numbers, rounded up (`scaled_eq_ceil_product`).  Not so for all larger counts: there the
product itself is rounded to fewer digits, and above the largest word it would be cut to that word, where this count wraps around. -/
def scaled (n : UInt64) (numerator denominator : Nat) : UInt64 :=
  .ofNat ((n.toNat * numerator + (denominator - 1)) / denominator)

/-- The count after `n` in an adaptive run: half as many again for the rules that converge slowly, a fifth more for
the better ones; Simpson's rule starts with small steps and slows down. -/
def grow (rule : Rule) (n : UInt64) : UInt64 :=
  match rule with
  | leftRectangles | rightRectangles => max (scaled n 3 2) (n + 1)
  | midpoints | trapezoids => max (scaled n 6 5) (n + 1)
  | simpson =>
    if n < 10 then n + 2
    else if n < 100 then roundUpEven (max (scaled n 3 2) (n + 1))
    else if n < 1000 then roundUpEven (max (scaled n 13 10) (n + 1))
    else roundUpEven (max (scaled n 6 5) (n + 1))

/-- The largest count that an adaptive run goes on to. -/
def cap : Rule → UInt64
  | simpson => 50000
  | _ => 1000000

/-- The most sums of an adaptive run, confirmations not counted. -/
def maxRounds : Rule → Nat
  | simpson => 30
  | _ => 50

end Rule

end Numerics
