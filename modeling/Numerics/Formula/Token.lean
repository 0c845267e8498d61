import Numerics.Decimal.Literal
import Numerics.Formula.Error
import Numerics.Text.Blank
import Numerics.Text.Letter

/-!
# Tokens

A formula's text falls into numeric literals, names and seven signs; each literal and each name is as long as it
can be, and blanks may stand between tokens. Positions count characters.
-/

namespace Numerics.Formula

open Text Decimal

/-- A token. -/
inductive Token where
  | number (value : Float)
  | name (text : String)
  | plus
  | minus
  | star
  | slash
  | comma
  | openParen
  | closeParen
  deriving Repr

/-- The wording of a token in messages. -/
def Token.describe : Token → String
  | .number value => s!"number {plain value}"
  | .name text => s!"'{text}'"
  | .plus => "'+'"
  | .minus => "'-'"
  | .star => "'*'"
  | .slash => "'/'"
  | .comma => "','"
  | .openParen => "'('"
  | .closeParen => "')'"

/-- The token that is the character alone. -/
def Token.ofSign? : Char → Option Token
  | '+' => some .plus
  | '-' => some .minus
  | '*' => some .star
  | '/' => some .slash
  | ',' => some .comma
  | '(' => some .openParen
  | ')' => some .closeParen
  | _ => none

theorem length_dropWhile_lt_cons (p : Char → Bool) (c : Char) (cs : List Char) :
    (cs.dropWhile p).length < (c :: cs).length :=
  Nat.lt_succ_of_le (List.dropWhile_sublist p).length_le

/-- The tokens of a text that starts at a position. -/
def tokensFrom (position : Nat) (cs : List Char) : Except ParseError (List Token) :=
  match cs with
  | [] => .ok []
  | c :: rest =>
    if isBlank c then tokensFrom (position + 1) rest
    else if isNumberChar c then
      let run := c :: rest.takeWhile isNumberChar
      match readLiteral? run with
      | none => .error (.invalidNumber (.ofList run))
      | some value =>
        (tokensFrom (position + run.length) (rest.dropWhile isNumberChar)).map (.number value :: ·)
    else if isNameStart c then
      let run := c :: rest.takeWhile isNameChar
      (tokensFrom (position + run.length) (rest.dropWhile isNameChar)).map (.name (.ofList run) :: ·)
    else
      match Token.ofSign? c with
      | none => .error (.unexpectedChar c position)
      | some token => (tokensFrom (position + 1) rest).map (token :: ·)
termination_by cs.length
decreasing_by all_goals first | exact length_dropWhile_lt_cons _ _ _ | simp

/-- The tokens of a text. -/
def tokens (cs : List Char) : Except ParseError (List Token) := tokensFrom 0 cs

end Numerics.Formula
