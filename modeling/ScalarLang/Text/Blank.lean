import ScalarLang.Text.Ranges

/-!
# Blanks

The characters that separate tokens: the controls from tab to carriage return, the next-line
control, and the spaces and line separators of every script.
-/

namespace ScalarLang.Text

/-- The ranges of blanks, ascending. -/
def blankRanges : List (Nat × Nat) :=
  [(0x9, 0xd), (0x20, 0x20), (0x85, 0x85), (0xa0, 0xa0), (0x1680, 0x1680),
   (0x2000, 0x200a), (0x2028, 0x2029), (0x202f, 0x202f), (0x205f, 0x205f), (0x3000, 0x3000)]

/-- Whether `c` separates tokens. -/
def isBlank (c : Char) : Bool :=
  inRanges c.toNat blankRanges

end ScalarLang.Text
