/-!
# Blank characters

Trimming a line removes the characters with the Unicode property `White_Space`: twenty-five
characters in ten ranges. A byte-order mark and the zero-width space do not have the property.
-/

namespace ByteMachine.Text

/-- Code point ranges of the property `White_Space`, both ends included. -/
def blankRanges : List (Nat × Nat) :=
  [(0x09, 0x0D), (0x20, 0x20), (0x85, 0x85), (0xA0, 0xA0), (0x1680, 0x1680),
   (0x2000, 0x200A), (0x2028, 0x2029), (0x202F, 0x202F), (0x205F, 0x205F), (0x3000, 0x3000)]

/-- Whether a character has the property `White_Space`. -/
def isBlank (c : Char) : Bool :=
  blankRanges.any fun (first, last) => first ≤ c.toNat && c.toNat ≤ last

/-- Blanks removed from the front. -/
def trimStart (text : List Char) : List Char :=
  text.dropWhile isBlank

/-- Blanks removed from the back. -/
def trimEnd (text : List Char) : List Char :=
  (trimStart text.reverse).reverse

/-- Blanks removed from both sides; those in between stay. -/
def trim (text : List Char) : List Char :=
  trimEnd (trimStart text)

end ByteMachine.Text
