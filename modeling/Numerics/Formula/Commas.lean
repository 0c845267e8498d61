import Numerics.Formula.Function
import Numerics.Text.Letter

/-!
# Decimal commas

A comma between two digits is a decimal point, unless the innermost open parenthesis starts the arguments of a
function that takes two: there it separates the arguments.
-/

namespace Numerics.Formula

open Text

/-- The name right before a place, given the characters before it, nearest first; none if the run of name
characters does not start with a letter. -/
def nameBefore? (before : List Char) : Option String :=
  let run := (before.takeWhile isNameChar).reverse
  if run.head?.any isAlphabetic then some (.ofList run) else none

/-- A parenthesis at a place would start the arguments of a function that takes two. -/
def opensTwoArguments (before : List Char) : Bool := (nameBefore? before).any Function.takesTwo

/-- The text after `before` with decimal points for decimal commas. `groups` tells of each open parenthesis,
innermost first, whether it starts the arguments of a function that takes two. -/
def pointCommasAfter (before : List Char) (groups : List Bool) : List Char → List Char
  | [] => []
  | c :: cs =>
    if c = '(' then c :: pointCommasAfter (c :: before) (opensTwoArguments before :: groups) cs
    else if c = ')' then c :: pointCommasAfter (c :: before) groups.tail cs
    else if c = ',' && before.head?.any Char.isDigit && cs.head?.any Char.isDigit && !groups.headD false then
      '.' :: pointCommasAfter ('.' :: before) groups cs
    else c :: pointCommasAfter (c :: before) groups cs

/-- The text with decimal points for decimal commas. -/
def pointCommas (cs : List Char) : List Char := pointCommasAfter [] [] cs

end Numerics.Formula
