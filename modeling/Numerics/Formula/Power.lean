import Numerics.Formula.Error
import Numerics.Text.Letter

/-!
# Powers as calls

`pow(left,right)` in place of `left^right`, one sign at a time and the leftmost first, so that powers group to the
left. The operands are found by scanning outward from the sign:

* a run of digits and points (`2.5^x`);
* a name (`x^2`);
* a group in parentheses (`(x+1)^2`). On the left a name before the group is its function and goes with it
  (`sin(x)^2`), on the right a group after a name is its arguments (`2^sin(x)`).

The right operand may have one sign of its own (`x^-1`). Text left of the sign is kept nearest character first.
-/

namespace Numerics.Formula

open Text

/-- Splits a text after the parenthesis that closes the group it starts with, given the number of groups already
open; none if no parenthesis does. Read backwards, the parts of the two parentheses are exchanged. -/
def splitGroup? (opening closing : Char) (depth : Nat) : List Char → Option (List Char × List Char)
  | [] => none
  | c :: cs =>
    if c = opening then (splitGroup? opening closing (depth + 1) cs).map fun (g, rest) => (c :: g, rest)
    else if c = closing then
      if depth ≤ 1 then some ([c], cs)
      else (splitGroup? opening closing (depth - 1) cs).map fun (g, rest) => (c :: g, rest)
    else (splitGroup? opening closing depth cs).map fun (g, rest) => (c :: g, rest)

/-- Splits a text after its longest initial part of characters with a property. -/
def splitRun (p : Char → Bool) (cs : List Char) : List Char × List Char := (cs.takeWhile p, cs.dropWhile p)

/-- The name of the function whose arguments end where the text starts, nearest character first, and the text
before it: the run of name characters, if a letter starts it. -/
def splitCallee (before : List Char) : List Char × List Char :=
  let (name, rest) := splitRun isNameChar before
  if name.getLast?.any isAlphabetic then (name, rest) else ([], before)

/-- The operand left of a power sign and what stands before it, both nearest character first. -/
def leftOperand (before : List Char) : Except ParseError (List Char × List Char) :=
  match before with
  | [] => .error (.missingPowerOperand .left)
  | c :: _ =>
    if isNumberChar c then .ok (splitRun isNumberChar before)
    else if isNameStart c then .ok (splitRun isNameChar before)
    else if c = ')' then
      match splitGroup? ')' '(' 0 before with
      | none => .error .unbalancedParens
      | some (group, rest) =>
        let (name, rest) := splitCallee rest
        .ok (group ++ name, rest)
    else .error (.missingPowerOperand .left)

/-- The group in parentheses that a text starts with, and what follows it. -/
def leadingGroup (cs : List Char) : Except ParseError (List Char × List Char) :=
  match splitGroup? '(' ')' 0 cs with
  | none => .error .unbalancedParens
  | some parts => .ok parts

/-- The operand right of a power sign and its own sign, without that sign. -/
def unsignedOperand (after : List Char) : Except ParseError (List Char × List Char) :=
  match after with
  | [] => .error (.missingPowerOperand .right)
  | c :: _ =>
    if isNumberChar c then .ok (splitRun isNumberChar after)
    else if isNameStart c then
      let (name, rest) := splitRun isNameChar after
      if rest.head? = some '(' then
        (leadingGroup rest).map fun (group, rest) => (name ++ group, rest)
      else .ok (name, rest)
    else if c = '(' then leadingGroup after
    else .error (.missingPowerOperand .right)

/-- The operand right of a power sign, and what follows it. -/
def rightOperand (after : List Char) : Except ParseError (List Char × List Char) :=
  match after with
  | [] => .error (.missingPowerOperand .right)
  | c :: cs =>
    if c = '-' || c = '+' then (unsignedOperand cs).map fun (operand, rest) => (c :: operand, rest)
    else unsignedOperand after

/-- The text with a call for the power sign between `before`, nearest character first, and `after`. -/
def replacePower (before after : List Char) : Except ParseError (List Char) := do
  let (left, start) ← leftOperand before
  let (right, rest) ← rightOperand after
  return start.reverse ++ ['p', 'o', 'w', '('] ++ left.reverse ++ [','] ++ right ++ [')'] ++ rest

/-- The most passes, the one that finds no power sign left among them. -/
def maxPasses : Nat := 1000

/-- The text without power signs: one pass for each, the leftmost first, and one more to find none left. -/
def replacePasses : Nat → List Char → Except ParseError (List Char)
  | 0, _ => .error (.passLimit maxPasses)
  | passes + 1, cs =>
    match cs.dropWhile (· != '^') with
    | [] => .ok cs
    | _ :: after => do
      let replaced ← replacePower (cs.takeWhile (· != '^')).reverse after
      replacePasses passes replaced

/-- `^` for every `**`, from the left. -/
def caretStars : List Char → List Char
  | '*' :: '*' :: cs => '^' :: caretStars cs
  | c :: cs => c :: caretStars cs
  | [] => []

/-- The text without the spaces next to power signs; `afterCaret` says that one stands right before it. -/
def tightenCarets (afterCaret : Bool) : List Char → List Char
  | [] => []
  | c :: cs =>
    if c = ' ' && (afterCaret || cs.head? == some '^') then tightenCarets afterCaret cs
    else c :: tightenCarets (c == '^') cs

/-- The text with calls for powers. -/
def replacePowers (cs : List Char) : Except ParseError (List Char) :=
  replacePasses maxPasses (tightenCarets false cs)

end Numerics.Formula
