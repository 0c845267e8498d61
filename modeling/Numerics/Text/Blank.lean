import Numerics.Text.CodeRange

/-!
# Blank characters

The property *White_Space*, and the text that is left when every run of blanks becomes one space.
-/

namespace Numerics.Text

/-- Code points with the property *White_Space*. -/
def blankRanges : List (Nat × Nat) := [
  (0x9, 0xD), (0x20, 0x20), (0x85, 0x85), (0xA0, 0xA0), (0x1680, 0x1680), (0x2000, 0x200A), (0x2028, 0x2029),
  (0x202F, 0x202F), (0x205F, 0x205F), (0x3000, 0x3000)]

/-- Spaces, tabs, line ends and the like of every script. -/
def isBlank (c : Char) : Bool := covers blankRanges c

/-- The text with each run of blanks made one space, and a run at its end dropped; `gap` says that a run of
blanks stands right before the text. -/
def squeeze (gap : Bool) : List Char → List Char
  | [] => []
  | c :: cs =>
    if isBlank c then squeeze true cs
    else if gap then ' ' :: c :: squeeze false cs
    else c :: squeeze false cs

/-- The words of the text with one space between neighbours. -/
def collapseBlanks (cs : List Char) : List Char := squeeze false (cs.dropWhile isBlank)

end Numerics.Text
