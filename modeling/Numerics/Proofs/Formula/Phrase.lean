import Numerics.Decimal.Literal
import Numerics.Formula.Expr
import Numerics.Formula.Function
import Numerics.Formula.Token

/-!
# Formulas as they are written

A `Phrase` is a formula with everything that its writing leaves open: the case of letters, spaces, `^` or `**`, and points
or commas in literals.  Its rank says how tightly its parts are bound:

    0  sum      := product (('+' | '-') product)*
    1  product  := signed (('*' | '/') signed)*
    2  signed   := ('-' | '+') signed | power
    3  power    := primary (('^' | '**') ('-' | '+')? primary)*
    4  primary  := literal | name | function '(' sum ')' | function '(' sum ',' sum ')' | '(' sum ')'

`written` is its text, `tree` its meaning, in which powers are calls that group to the left.
-/

namespace Numerics.Formula

open Decimal

/-! ### Words, literals and signs -/

/-- The ASCII characters of names. -/
def isWordChar (c : Char) : Bool := c.isAlphanum || c == '_'

/-- A letter with letters, digits and low lines after it. -/
def IsWord (cs : List Char) : Prop := ∃ c ds, cs = c :: ds ∧ c.isAlpha = true ∧ ∀ d ∈ ds, isWordChar d = true

/-- A name without arguments, as it is written; a digit does not end it. -/
structure BareName where
  text : List Char
  isWord : IsWord text
  isDigit_getLast? : text.getLast?.any Char.isDigit = false

/-- One of the names of a function, as it is written. -/
structure FunctionName where
  text : List Char
  isSome_named? : (Function.named? (.ofList (text.map Char.toLower))).isSome = true

/-- The function takes two arguments. -/
def FunctionName.takesTwo (f : FunctionName) : Bool := Function.takesTwo (.ofList (f.text.map Char.toLower))

/-- The digits of a literal before and after its point; without a fraction it has no point. -/
structure Literal where
  whole : List Char
  fraction : List Char
  whole_ne_nil : whole ≠ []
  isDigit : ∀ c ∈ whole ++ fraction, c.isDigit = true

/-- The text of a literal with a comma or a point. -/
def Literal.text (l : Literal) (comma : Bool) : List Char :=
  if l.fraction.isEmpty then l.whole else l.whole ++ (if comma then ',' else '.') :: l.fraction

/-- The float nearest to the literal. -/
def Literal.value (l : Literal) : Float :=
  Float.ofScientific (digitsValue (l.whole ++ l.fraction)) true l.fraction.length

/-- A sign of one operand. -/
inductive Sign where
  | plus
  | minus

def Sign.char : Sign → Char
  | .plus => '+'
  | .minus => '-'

/-- The tree of an operand with a sign; a plus leaves no node. -/
def Sign.apply (e : Expr) : Sign → Expr
  | .plus => e
  | .minus => .unary '-' e

/-- An operator of two operands. -/
inductive Operator where
  | plus
  | minus
  | star
  | slash

def Operator.char : Operator → Char
  | .plus => '+'
  | .minus => '-'
  | .star => '*'
  | .slash => '/'

/-- The rank of phrases with the operator, which is that of its left operand. -/
def Operator.rank : Operator → Nat
  | .plus => 0
  | .minus => 0
  | .star => 1
  | .slash => 1

/-! ### Phrases -/

/-- A formula as it is written.  `before` and `after` are numbers of spaces, `stars` stands for `**`, and `comma` asks for a
decimal comma where one is read as such. -/
inductive Phrase : Nat → Type where
  | literal (l : Literal) (comma : Bool) : Phrase 4
  | name (x : BareName) : Phrase 4
  | call (f : FunctionName) (argument : Phrase 0) : Phrase 4
  | callTwo (f : FunctionName) (h : f.takesTwo = true) (first : Phrase 0) (before after : Nat) (second : Phrase 0) : Phrase 4
  | group (inner : Phrase 0) : Phrase 4
  | power (base : Phrase 3) (before : Nat) (stars : Bool) (after : Nat) (sign : Option Sign) (exponent : Phrase 4) : Phrase 3
  | signed (sign : Sign) (operand : Phrase 2) : Phrase 2
  | binary (op : Operator) (left : Phrase op.rank) (before after : Nat) (right : Phrase (op.rank + 1)) : Phrase op.rank
  | weaken {rank : Nat} (e : Phrase (rank + 1)) : Phrase rank

namespace Phrase

/-- The number of powers. -/
def powers : {rank : Nat} → Phrase rank → Nat
  | _, literal _ _ => 0
  | _, name _ => 0
  | _, call _ argument => argument.powers
  | _, callTwo _ _ first _ _ second => first.powers + second.powers
  | _, group inner => inner.powers
  | _, power base _ _ _ _ exponent => base.powers + 1 + exponent.powers
  | _, signed _ operand => operand.powers
  | _, binary _ left _ _ right => left.powers + right.powers
  | _, weaken e => e.powers

/-- The tree that the phrase stands for; letters count without their case. -/
def tree : {rank : Nat} → Phrase rank → Expr
  | _, literal l _ => .number l.value
  | _, name x => .symbol (.ofList (x.text.map Char.toLower))
  | _, call f argument => .call (.ofList (f.text.map Char.toLower)) [argument.tree]
  | _, callTwo f _ first _ _ second => .call (.ofList (f.text.map Char.toLower)) [first.tree, second.tree]
  | _, group inner => inner.tree
  | _, power base _ _ _ sign exponent => .call "pow" [base.tree, sign.elim exponent.tree (Sign.apply exponent.tree)]
  | _, signed sign operand => sign.apply operand.tree
  | _, binary op left _ _ right => .binary left.tree op.char right.tree
  | _, weaken e => e.tree

end Phrase

/-! ### Pieces -/

/-- A piece of a formula's text. -/
inductive Piece where
  | literal (l : Literal) (comma : Bool)
  | word (text : List Char)
  /-- A function's name and the parenthesis after it. -/
  | callee (text : List Char)
  /-- A parenthesis or the sign of one operand. -/
  | mark (c : Char)
  /-- An operator of two operands or the comma between two arguments, with the spaces around it. -/
  | between (before : Nat) (c : Char) (after : Nat)
  | caret (before : Nat) (stars : Bool) (after : Nat)

namespace Piece

/-- A number of spaces. -/
def gap (n : Nat) : List Char := List.replicate n ' '

def text : Piece → List Char
  | literal l comma => l.text comma
  | word cs => cs
  | callee cs => cs ++ ['(']
  | mark c => [c]
  | between before c after => gap before ++ [c] ++ gap after
  | caret before stars after => gap before ++ (if stars then ['*', '*'] else ['^']) ++ gap after

/-- The tokens of a piece. -/
def tokens : Piece → List Token
  | literal l _ => [.number l.value]
  | word cs => [.name (.ofList cs)]
  | callee cs => [.name (.ofList cs), .openParen]
  | mark c => (Token.ofSign? c).toList
  | between _ c _ => (Token.ofSign? c).toList
  | caret _ _ _ => []

end Piece

/-- The pieces of a sign that may be missing. -/
def signPieces (sign : Option Sign) : List Piece := sign.toList.map fun s => .mark s.char

/-- The text of some pieces. -/
def textOf (ps : List Piece) : List Char := ps.flatMap Piece.text

namespace Phrase

/-- The pieces of the phrase as it is written; `inTwo` says that the innermost parenthesis around it is that of a function
of two arguments, where commas separate. -/
def pieces (inTwo : Bool) : {rank : Nat} → Phrase rank → List Piece
  | _, literal l comma => [.literal l (comma && !inTwo)]
  | _, name x => [.word x.text]
  | _, call f argument => .callee f.text :: argument.pieces f.takesTwo ++ [.mark ')']
  | _, callTwo f _ first before after second =>
    .callee f.text :: first.pieces true ++ .between before ',' after :: second.pieces true ++ [.mark ')']
  | _, group inner => .mark '(' :: inner.pieces false ++ [.mark ')']
  | _, power base before stars after sign exponent =>
    base.pieces inTwo ++ .caret before stars after :: signPieces sign ++ exponent.pieces inTwo
  | _, signed sign operand => .mark sign.char :: operand.pieces inTwo
  | _, binary op left before after right => left.pieces inTwo ++ .between before op.char after :: right.pieces inTwo
  | _, weaken e => e.pieces inTwo

/-- The text of the phrase. -/
def written {rank : Nat} (e : Phrase rank) : List Char := textOf (e.pieces false)

/-- The pieces of the phrase in lower case, with points, single spaces and tight power signs, or with calls for powers. -/
def plain (calls : Bool) : {rank : Nat} → Phrase rank → List Piece
  | _, literal l _ => [.literal l false]
  | _, name x => [.word (x.text.map Char.toLower)]
  | _, call f argument => .callee (f.text.map Char.toLower) :: argument.plain calls ++ [.mark ')']
  | _, callTwo f _ first before after second =>
    .callee (f.text.map Char.toLower) :: first.plain calls ++ .between (min before 1) ',' (min after 1) :: second.plain calls ++
      [.mark ')']
  | _, group inner => .mark '(' :: inner.plain calls ++ [.mark ')']
  | _, power base _ _ _ sign exponent =>
    if calls then
      .callee ['p', 'o', 'w'] :: base.plain calls ++ .between 0 ',' 0 :: signPieces sign ++ exponent.plain calls ++ [.mark ')']
    else base.plain calls ++ .caret 0 false 0 :: signPieces sign ++ exponent.plain calls
  | _, signed sign operand => .mark sign.char :: operand.plain calls
  | _, binary op left before after right =>
    left.plain calls ++ .between (min before 1) op.char (min after 1) :: right.plain calls
  | _, weaken e => e.plain calls

/-- The text of the phrase with calls for powers. -/
def rewritten {rank : Nat} (e : Phrase rank) : List Char := textOf (e.plain true)

end Phrase

end Numerics.Formula
