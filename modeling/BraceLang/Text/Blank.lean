/-!
# Blank characters

The characters that separate tokens are those with the Unicode property
White_Space. There are twenty-five of them, and none lies beyond the basic
plane, so a table of ranges states the class outright.
-/

namespace BraceLang.Text

/-- First and last code point of each run of characters with the property White_Space. -/
def blankRanges : List (Nat × Nat) :=
  [(0x0009, 0x000D), (0x0020, 0x0020), (0x0085, 0x0085), (0x00A0, 0x00A0), (0x1680, 0x1680),
   (0x2000, 0x200A), (0x2028, 0x2029), (0x202F, 0x202F), (0x205F, 0x205F), (0x3000, 0x3000)]

/-- Whether a character has the property White_Space. -/
def isBlank (character : Char) : Bool :=
  blankRanges.any fun range => range.1 ≤ character.toNat && character.toNat ≤ range.2

end BraceLang.Text
