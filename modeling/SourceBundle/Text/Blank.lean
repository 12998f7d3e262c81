/-
Blanks: the space characters and separators of Unicode 14. A line made
of blanks alone counts as empty where leading lines are dropped.
-/
import SourceBundle.Text.CharRange

namespace SourceBundle.Text

def blankRanges : CharRanges :=
  [(0x85, 0x85), (0xA0, 0xA0), (0x1680, 0x1680), (0x2000, 0x200A), (0x2028, 0x2029),
   (0x202F, 0x202F), (0x205F, 0x205F), (0x3000, 0x3000)]

/-- Whether the character is a blank: tab to carriage return, the four information separators,
the space, and the blanks beyond ASCII. -/
def isBlank (c : Char) : Bool :=
  if c.toNat < 128 then (9 ≤ c.toNat && c.toNat ≤ 13) || (28 ≤ c.toNat && c.toNat ≤ 32)
  else blankRanges.has c

end SourceBundle.Text
