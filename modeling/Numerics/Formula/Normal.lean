import Numerics.Formula.Commas
import Numerics.Formula.Power
import Numerics.Text.Blank
import Numerics.Text.LowerCase

/-!
# The normal form of a formula's text

One space between words, lower case, points for decimal commas, `^` for `**`, and calls for powers, in this order.
-/

namespace Numerics.Formula

open Text

/-- The text up to the replacement of powers: lower case without needless blanks, decimal commas or `**`. -/
def plainText (cs : List Char) : List Char := caretStars (pointCommas (lowerCase (collapseBlanks cs)))

/-- The normal form of a text of characters. -/
def normalChars (cs : List Char) : Except ParseError (List Char) :=
  if (collapseBlanks cs).isEmpty then .error .empty else replacePowers (plainText cs)

/-- The normal form of a formula's text. -/
def normalize (text : String) : Except ParseError String := (normalChars text.toList).map .ofList

end Numerics.Formula
