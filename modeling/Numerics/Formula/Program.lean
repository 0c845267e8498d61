import Numerics.Formula.Expr
import Numerics.Formula.Function

/-!
# Programs of a stack machine

A formula is evaluated by a list of instructions on a stack of floats, top first. `Expr.compile` resolves all names
once and keeps count of the stack's height, so that `Program.maxDepth` says how high the stack grows.

* `const v`, `var i`: push a value, or the value of the variable declared at place `i`;
* `add`, `sub`, `mul`, `div`: pop `b`, then `a`, and push the result for `(a, b)`;
* `neg`: pop a value and push its negation;
* `call1 f`, `call2 f`: pop the arguments, the last one first, and push the value of `f`.
-/

namespace Numerics.Formula

/-- An instruction. -/
inductive Instr where
  | const (value : Float)
  | var (index : Nat)
  | add
  | sub
  | mul
  | div
  | neg
  | call1 (function : UnaryFunction)
  | call2 (function : BinaryFunction)
  deriving Repr

/-- Instructions, and the height their stack reaches. -/
structure Program where
  instrs : List Instr
  maxDepth : Nat
  deriving Repr

/-- What a machine computes with: the operators, and the forms of the functions. -/
structure Arithmetic where
  add : Float → Float → Float
  sub : Float → Float → Float
  mul : Float → Float → Float
  div : Float → Float → Float
  neg : Float → Float
  unary : UnaryFunction → Float → Except EvalError Float
  binary : BinaryFunction → Float → Float → Except EvalError Float

/-- The operators of floats, and the functions as their tables have them. -/
@[inline] def Arithmetic.float : Arithmetic where
  add a b := a + b
  sub a b := a - b
  mul a b := a * b
  div a b := a / b
  neg a := -a
  unary f x := f.apply x
  binary f x y := f.apply x y

/-- A computation on the stack; a failure leaves the stack as it is then. -/
abbrev Machine := EStateM EvalError (List Float)

namespace Machine

/-- Puts a value on the stack. -/
@[inline] def push (v : Float) : Machine Unit := fun stack => .ok () (v :: stack)

/-- Takes the value on top of the stack. -/
@[inline] def pop : Machine Float
  | [] => .error .malformed []
  | v :: stack => .ok v stack

/-- The outcome of a function, as a step that leaves the stack alone. -/
@[inline] def lift (outcome : Except EvalError Float) : Machine Float := fun stack =>
  match outcome with
  | .ok v => .ok v stack
  | .error e => .error e stack

/-- Takes two values, `b` from the top and `a` below it, and puts the result for `(a, b)`. -/
@[inline] def combine (f : Float → Float → Except EvalError Float) : Machine Unit := do
  let b ← pop
  let a ← pop
  push (← lift (f a b))

/-- What a computation gives on a stack, whatever stack it leaves. -/
def outcome {α : Type} (m : Machine α) (stack : List Float) : Except EvalError α :=
  match m.run stack with
  | .ok v _ => .ok v
  | .error e _ => .error e

end Machine

open Machine

/-- Runs one instruction with the values of the variables. -/
@[inline] def Instr.step (A : Arithmetic) (vars : List Float) : Instr → Machine Unit
  | .const v => push v
  | .var i => match vars[i]? with
    | some v => push v
    | none => throw .malformed
  | .add => combine fun a b => .ok (A.add a b)
  | .sub => combine fun a b => .ok (A.sub a b)
  | .mul => combine fun a b => .ok (A.mul a b)
  | .div => combine fun a b => .ok (A.div a b)
  | .neg => do push (A.neg (← pop))
  | .call1 f => do push (← lift (A.unary f (← pop)))
  | .call2 f => combine (A.binary f)

/-- Runs instructions in order. -/
def runInstrs (A : Arithmetic) (vars : List Float) : List Instr → Machine Unit
  | [] => pure ()
  | i :: rest => do i.step A vars; runInstrs A vars rest

/-- Runs a program on an empty stack, whatever stack it is given; its value is the one value left, which has to be
finite. -/
def Program.executeOver (A : Arithmetic) (p : Program) (vars : List Float) : Machine Float := do
  set ([] : List Float)
  runInstrs A vars p.instrs
  let result ← pop
  if !(← get).isEmpty then throw .malformed
  if !result.isFinite then throw .nonFinite
  return result

/-- Runs a program over floats. -/
def Program.execute (p : Program) (vars : List Float) : Machine Float := p.executeOver .float vars

/-! ## Compiling -/

/-- Instructions so far, the height of the stack after them, and the greatest height on the way. -/
structure Code where
  instrs : Array Instr
  depth : Nat
  maxDepth : Nat

namespace Code

/-- No instructions. -/
def empty : Code := ⟨#[], 0, 0⟩

/-- One more instruction, which leaves the height as it is. -/
def emit (c : Code) (i : Instr) : Code := { c with instrs := c.instrs.push i }

/-- One more instruction, which pushes a value. -/
def emitPush (c : Code) (i : Instr) : Code := ⟨c.instrs.push i, c.depth + 1, max c.maxDepth (c.depth + 1)⟩

/-- One more instruction, which leaves one value fewer. -/
def emitMerge (c : Code) (i : Instr) : Code := { c.emit i with depth := c.depth - 1 }

end Code

/-- The last place at which a name is declared. -/
def lastIndex? (name : String) : List String → Option Nat
  | [] => none
  | v :: vs => match lastIndex? name vs with
    | some i => some (i + 1)
    | none => if v = name then some 0 else none

/-- The constants that formulas may name. -/
def constant? (name : String) : Option Float :=
  if name = "pi" then some 3.141592653589793
  else if name = "e" then some 2.718281828459045
  else none

/-- The instruction for a name: a variable, else a constant. -/
def resolve (vars : List String) (name : String) : Except ParseError Instr :=
  match lastIndex? name vars, constant? name with
  | some i, _ => .ok (.var i)
  | none, some v => .ok (.const v)
  | none, none =>
    if (Function.named? name).isSome then .error (.bareFunction name) else .error (.unknownSymbol name)

/-- The instruction for an operator with two operands. -/
def operator (op : Char) : Except ParseError Instr :=
  match op with
  | '+' => .ok .add
  | '-' => .ok .sub
  | '*' => .ok .mul
  | '/' => .ok .div
  | other => .error (.unexpectedToken s!"'{other}'" .binaryOperator)

/-- The code after a call of a function whose arguments are on the stack. -/
def Code.emitCall (c : Code) (f : Function) (name : String) (count : Nat) : Except ParseError Code :=
  match count, f.unary, f.binary with
  | 1, some g, _ => .ok (c.emit (.call1 g))
  | 2, _, some g => .ok (c.emitMerge (.call2 g))
  | _, _, _ => .error (.arity name f.arity count)

namespace Expr

mutual

/-- The code with the instructions for a tree, whose value they push. -/
def compileAfter (vars : List String) (c : Code) : Expr → Except ParseError Code
  | number v => .ok (c.emitPush (.const v))
  | symbol name => do return c.emitPush (← resolve vars name)
  | binary left op right => do
    let c ← left.compileAfter vars c
    let c ← right.compileAfter vars c
    return c.emitMerge (← operator op)
  | unary _ operand => do return (← operand.compileAfter vars c).emit .neg
  | call name arguments =>
    match Function.named? name with
    | none => .error (.unknownFunction name)
    | some f => do
      let c ← compileAllAfter vars c arguments
      c.emitCall f name arguments.length

/-- The code with the instructions for trees in order. -/
def compileAllAfter (vars : List String) (c : Code) : List Expr → Except ParseError Code
  | [] => .ok c
  | e :: es => do compileAllAfter vars (← e.compileAfter vars c) es

end

/-- The program of a tree over variables in order; of variables with one name the last counts. -/
def compile (vars : List String) (e : Expr) : Except ParseError Program := do
  let c ← e.compileAfter vars .empty
  return ⟨c.instrs.toList, c.maxDepth⟩

end Expr

end Numerics.Formula
