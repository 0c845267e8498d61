import Numerics.Formula.Expr
import Numerics.Formula.Token

/-!
# Trees from tokens

Recursive descent over the grammar

    expression := term (('+' | '-') term)*
    term       := unary (('*' | '/') unary)*
    unary      := ('-' | '+') unary | primary
    primary    := number | name | name '(' arguments ')' | '(' expression ')'
    arguments  := nothing | expression (',' expression)*

Operators of one rank group to the left; a plus sign with one operand and parentheses leave no node. Each function
reads one phrase from the front of the tokens and returns its tree with the tokens after it, which are fewer: the
recursion ends because a call is given fewer tokens, or as many for a phrase of lower rank.
-/

namespace Numerics.Formula

/-- What is read from the front of the tokens `ts`, with the tokens after it. -/
abbrev Reading (α : Type) (ts : List Token) := Except ParseError (α × {us : List Token // us.length < ts.length})

/-- What is read from the front of the tokens `ts`, perhaps none of them, with the tokens after it. -/
abbrev Continuing (α : Type) (ts : List Token) := Except ParseError (α × {us : List Token // us.length ≤ ts.length})

/-- The failure at a place where the first of the tokens cannot stand; `missing` if there are none. -/
def unexpected {α : Type} (expected : Expected) (missing : ParseError) : List Token → Except ParseError α
  | [] => .error missing
  | token :: _ => .error (.unexpectedToken token.describe expected)

/-- The operator that continues a sum. -/
def sumOperator? : Token → Option Char
  | .plus => some '+'
  | .minus => some '-'
  | _ => none

/-- The operator that continues a product. -/
def productOperator? : Token → Option Char
  | .star => some '*'
  | .slash => some '/'
  | _ => none

mutual

/-- Reads an expression. -/
def expression (ts : List Token) : Reading Expr ts := do
  let (first, ⟨us, _⟩) ← term ts
  let (sum, ⟨vs, _⟩) ← sumAfter first us
  return (sum, ⟨vs, by omega⟩)
termination_by (ts.length, 3)

/-- Reads the rest of a sum that starts with `left`. -/
def sumAfter (left : Expr) (ts : List Token) : Continuing Expr ts :=
  match ts with
  | [] => .ok (left, ⟨[], Nat.le_refl _⟩)
  | t :: ts =>
    match sumOperator? t with
    | none => .ok (left, ⟨t :: ts, Nat.le_refl _⟩)
    | some op => do
      let (right, ⟨us, _⟩) ← term ts
      let (sum, ⟨vs, _⟩) ← sumAfter (.binary left op right) us
      return (sum, ⟨vs, by simp only [List.length_cons]; omega⟩)
termination_by (ts.length, 0)

/-- Reads a term. -/
def term (ts : List Token) : Reading Expr ts := do
  let (first, ⟨us, _⟩) ← signed ts
  let (product, ⟨vs, _⟩) ← productAfter first us
  return (product, ⟨vs, by omega⟩)
termination_by (ts.length, 2)

/-- Reads the rest of a product that starts with `left`. -/
def productAfter (left : Expr) (ts : List Token) : Continuing Expr ts :=
  match ts with
  | [] => .ok (left, ⟨[], Nat.le_refl _⟩)
  | t :: ts =>
    match productOperator? t with
    | none => .ok (left, ⟨t :: ts, Nat.le_refl _⟩)
    | some op => do
      let (right, ⟨us, _⟩) ← signed ts
      let (product, ⟨vs, _⟩) ← productAfter (.binary left op right) us
      return (product, ⟨vs, by simp only [List.length_cons]; omega⟩)
termination_by (ts.length, 0)

/-- Reads a factor with its signs. -/
def signed (ts : List Token) : Reading Expr ts :=
  match ts with
  | .minus :: ts => do
    let (operand, ⟨us, _⟩) ← signed ts
    return (.unary '-' operand, ⟨us, by simp only [List.length_cons]; omega⟩)
  | .plus :: ts => do
    let (operand, ⟨us, _⟩) ← signed ts
    return (operand, ⟨us, by simp only [List.length_cons]; omega⟩)
  | ts => primary ts
termination_by (ts.length, 1)

/-- Reads a number, a name, a call or a group. -/
def primary (ts : List Token) : Reading Expr ts :=
  match ts with
  | .number value :: ts => .ok (.number value, ⟨ts, Nat.lt_succ_self _⟩)
  | .name function :: .openParen :: ts => do
    let (given, ⟨us, _⟩) ← arguments ts
    return (.call function given, ⟨us, by simp only [List.length_cons]; omega⟩)
  | .name text :: ts => .ok (.symbol text, ⟨ts, Nat.lt_succ_self _⟩)
  | .openParen :: ts => do
    let (inner, ⟨us, h⟩) ← expression ts
    match us, h with
    | .closeParen :: us, h => return (inner, ⟨us, Nat.lt_succ_of_lt (Nat.lt_of_succ_lt h)⟩)
    | us, _ => unexpected .closingParen .unbalancedParens us
  | ts => unexpected .operand (.unexpectedEnd .operand) ts
termination_by (ts.length, 0)

/-- Reads arguments and the parenthesis that closes them. -/
def arguments (ts : List Token) : Reading (List Expr) ts :=
  match ts with
  | .closeParen :: ts => .ok ([], ⟨ts, Nat.lt_succ_self _⟩)
  | ts => someArguments ts
termination_by (ts.length, 5)

/-- Reads at least one argument, and the parenthesis that closes the arguments. -/
def someArguments (ts : List Token) : Reading (List Expr) ts := do
  let (first, ⟨us, h⟩) ← expression ts
  match us, h with
  | .comma :: us, h => do
    have : us.length < ts.length := Nat.lt_of_succ_lt h
    let (others, ⟨vs, _⟩) ← someArguments us
    return (first :: others, ⟨vs, by omega⟩)
  | .closeParen :: us, h => return ([first], ⟨us, Nat.lt_of_succ_lt h⟩)
  | us, _ => unexpected .separator .unbalancedParens us
termination_by (ts.length, 4)

end

namespace Expr

/-- The tree of a list of tokens. -/
def ofTokens (ts : List Token) : Except ParseError Expr :=
  match ts with
  | [] => .error .empty
  | ts => do
    let (tree, ⟨rest, _⟩) ← expression ts
    match rest with
    | [] => return tree
    | token :: _ => .error (.unexpectedToken token.describe .endOfFormula)

/-- The tree of a text in normal form. -/
def parse (text : String) : Except ParseError Expr := do
  ofTokens (← tokens text.toList)

end Expr

end Numerics.Formula
