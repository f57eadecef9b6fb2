import FormulaEngine.Text.CharRange

/-!
# Blanks

A blank is a character with the Unicode property `White_Space`.  Blanks separate tokens and
are cut off both ends of the text of a moment.
-/

namespace FormulaEngine

/-- The characters with the Unicode property `White_Space`. -/
def blanks : CharRanges := ⟨
  [(0x9, 0xD), (0x20, 0x20), (0x85, 0x85), (0xA0, 0xA0), (0x1680, 0x1680), (0x2000, 0x200A),
   (0x2028, 0x2029), (0x202F, 0x202F), (0x205F, 0x205F), (0x3000, 0x3000)]⟩

/-- Whether a character is a blank. -/
def isBlank (c : Char) : Bool := blanks.contains c

/-- The text without the blanks at its two ends. -/
def trimBlanks (cs : List Char) : List Char :=
  ((cs.dropWhile isBlank).reverse.dropWhile isBlank).reverse

end FormulaEngine
