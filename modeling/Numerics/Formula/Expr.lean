/-!
# Formulas as trees
-/

namespace Numerics.Formula

/-- A formula as a tree. The operators of trees made from text are `+`, `-`, `*`, `/` with two operands and `-` with
one; a tree made otherwise may carry any character, which the compiler judges. -/
inductive Expr where
  | number (value : Float)
  | symbol (name : String)
  | binary (left : Expr) (op : Char) (right : Expr)
  | unary (op : Char) (operand : Expr)
  | call (function : String) (arguments : List Expr)
  deriving Repr

end Numerics.Formula
