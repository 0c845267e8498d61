import Numerics.Formula.Normal
import Numerics.Formula.Parser
import Numerics.Formula.Program

/-!
# Formulas

A formula of named variables: its text, the text's normal form, and the program for it. `Formula.compile` makes it,
once, and `evaluate` gives its value at a point.
-/

namespace Numerics

open Formula in
/-- A formula of named variables, compiled. -/
structure Formula where
  source : String
  normalized : String
  names : List String
  program : Program
  deriving Repr

namespace Formula

/-- The formula that a text spells over variables with these names, in order; as everywhere in formulas, letters
count without their case. -/
def compile (text : String) (names : List String) : Except ParseError Formula := do
  let normalized ← normalize text
  let tree ← Expr.parse normalized
  let names := names.map fun v => .ofList (Text.lowerCase v.toList)
  let program ← tree.compile names
  return { source := text, normalized, names, program }

/-- A formula of `x`. -/
def ofX (text : String) : Except ParseError Formula := compile text ["x"]

/-- A formula of `x` and `y`. -/
def ofXY (text : String) : Except ParseError Formula := compile text ["x", "y"]

/-- The number of variables. -/
def dimension (f : Formula) : Nat := f.names.length

/-- The value with the variables bound in order. -/
def evaluate (f : Formula) (values : List Float) : Except EvalError Float :=
  if values.length ≠ f.dimension then .error (.bindings f.dimension values.length)
  else (f.program.execute values).outcome []

end Formula

end Numerics
