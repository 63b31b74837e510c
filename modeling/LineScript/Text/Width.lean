import LineScript.Text.Blank
import LineScript.Text.Width.Zero
import LineScript.Text.Width.Wide

/-!
# Display width

The number of screen columns a character takes: none for a mark that combines
with the character before it, two for a wide East Asian character or an emoji,
one for nearly everything else.
-/

namespace LineScript.Text

/-- The Khmer sign that stands for "and so on" and is written as three. -/
def beyyal : Char := '\u17D8'

/-- The columns a character takes on a screen.  A wide mark that combines takes
none. -/
def displayWidth (c : Char) : Nat :=
  if inRanges zeroWidthRanges c.toNat then 0
  else if inRanges wideRanges c.toNat then 2
  else if c = beyyal then 3
  else 1

end LineScript.Text
