import Numerics.Decimal.Notation
import Numerics.Side

/-!
# What can be wrong with a formula

`ParseError` is found once, when a text is turned into a formula; `EvalError` is found by a single evaluation. Each
constructor is a cause, and `message` gives its wording.
-/

namespace Numerics.Formula

open Decimal (plain)

/-- What may stand at a place where something else was found. -/
inductive Expected where
  | endOfFormula
  | operand
  | closingParen
  | separator
  | binaryOperator
  deriving Repr, DecidableEq

/-- The wording of an expectation. -/
def Expected.text : Expected → String
  | .endOfFormula => "end of formula"
  | .operand => "number, name or '('"
  | .closingParen => "')'"
  | .separator => "',' or ')'"
  | .binaryOperator => "binary operator"

/-- Why a text is no formula. -/
inductive ParseError where
  /-- The text has no characters but blanks. -/
  | empty
  /-- No token starts with the character at this position. -/
  | unexpectedChar (char : Char) (position : Nat)
  /-- A run of digits and points is no number. -/
  | invalidNumber (text : String)
  /-- The token found cannot stand here. -/
  | unexpectedToken (found : String) (expected : Expected)
  /-- The text ends where something has to follow. -/
  | unexpectedEnd (expected : Expected)
  /-- A parenthesis has no partner. -/
  | unbalancedParens
  /-- The sign of a power has no operand on one side. -/
  | missingPowerOperand (side : Side)
  /-- Powers are left after the last pass. -/
  | passLimit (passes : Nat)
  /-- A call of a name that is no function. -/
  | unknownFunction (name : String)
  /-- A name that is neither variable nor constant. -/
  | unknownSymbol (name : String)
  /-- A call with a number of arguments the function does not take. -/
  | arity (name : String) (expected : String) (got : Nat)
  /-- A function's name without arguments. -/
  | bareFunction (name : String)
  deriving Repr, DecidableEq

/-- The name of a side. -/
def sideName : Side → String
  | .left => "left"
  | .right => "right"

/-- The wording of a parse error. -/
def ParseError.message : ParseError → String
  | .empty => "formula is empty"
  | .unexpectedChar c position => s!"unexpected character '{c}' at position {position}"
  | .invalidNumber text => s!"invalid number literal '{text}'"
  | .unexpectedToken found expected => s!"unexpected token {found} (expected {expected.text})"
  | .unexpectedEnd expected => s!"unexpected end of formula (expected {expected.text})"
  | .unbalancedParens => "unbalanced parentheses"
  | .missingPowerOperand side => s!"power operator '^' is missing its {sideName side} operand"
  | .passLimit passes => s!"power rewrite did not terminate after {passes} passes"
  | .unknownFunction name => s!"unknown function: {name}"
  | .unknownSymbol name => s!"unknown variable or constant: {name}"
  | .arity name expected got => s!"function {name} takes {expected} argument(s), got {got}"
  | .bareFunction name => s!"'{name}' is a function and must be called with parentheses"

/-- Why a formula has no value at a point. -/
inductive EvalError where
  /-- The function is not defined for the argument. -/
  | domain (function : String) (argument : Float)
  /-- The number of values differs from the number of variables. -/
  | bindings (expected got : Nat)
  /-- The result is infinite or no number. -/
  | nonFinite
  /-- The instructions do not leave exactly one value, or read one that is missing. -/
  | malformed
  deriving Repr

/-- The wording of an evaluation error. -/
def EvalError.message : EvalError → String
  | .domain function argument => s!"{function} is undefined for {plain argument}"
  | .bindings expected got => s!"expected {expected} variable value(s), got {got}"
  | .nonFinite => "result is not a finite number"
  | .malformed => "malformed bytecode"

end Numerics.Formula
