/-!
# Blank characters

The characters that count as white space around and between the words of a build file are those
of the Unicode property `White_Space`. The zero-width space, the byte order mark and the
separators U+001C to U+001F are not among them.
-/

set_option autoImplicit false

namespace FirmwareIndex.Text

/-- The code points with the property `White_Space`, as closed ranges in ascending order. -/
def blankRanges : List (Nat × Nat) :=
  [(0x09, 0x0D), (0x20, 0x20), (0x85, 0x85), (0xA0, 0xA0), (0x1680, 0x1680), (0x2000, 0x200A),
   (0x2028, 0x2029), (0x202F, 0x202F), (0x205F, 0x205F), (0x3000, 0x3000)]

/-- Whether a code point lies in one of the closed ranges. -/
def inRanges (ranges : List (Nat × Nat)) (n : Nat) : Bool :=
  ranges.any fun r => r.1 ≤ n && n ≤ r.2

/-- Whether a character is a blank. -/
def isBlank (c : Char) : Bool :=
  inRanges blankRanges c.toNat

/-- Whether a character is a space or a tab, the two characters that runs are made of. -/
def isGap (c : Char) : Bool :=
  c = ' ' || c = '\t'

end FirmwareIndex.Text
