/-!
# Blank characters

A character is blank when Unicode gives it the property White_Space. Texts are handled as lists of
characters: `trim` drops the blanks at both ends, and `words` cuts at every run of blanks.
-/

namespace LineTemplate.Text

/-- The ranges of code points with the property White_Space, in increasing order. -/
def blankRanges : List (Nat × Nat) :=
  [(0x09, 0x0D), (0x20, 0x20), (0x85, 0x85), (0xA0, 0xA0), (0x1680, 0x1680), (0x2000, 0x200A),
   (0x2028, 0x2029), (0x202F, 0x202F), (0x205F, 0x205F), (0x3000, 0x3000)]

/-- A blank lies in one of the ranges. -/
def isBlank (c : Char) : Bool :=
  blankRanges.any fun (low, high) => low ≤ c.toNat && c.toNat ≤ high

/-- Drops the blanks in front. -/
def trimLeft (cs : List Char) : List Char :=
  cs.dropWhile isBlank

/-- Drops the blanks at the end. -/
def trimRight (cs : List Char) : List Char :=
  (cs.reverse.dropWhile isBlank).reverse

/-- Drops the blanks at both ends. -/
def trim (cs : List Char) : List Char :=
  trimRight (trimLeft cs)

/-- The longest pieces without a blank, in order. -/
def words (cs : List Char) : List (List Char) :=
  (cs.splitOnP isBlank).filter fun piece => !piece.isEmpty

/-- The property holds of 25 characters. -/
example : (blankRanges.map fun (low, high) => high + 1 - low).sum = 25 := by decide

end LineTemplate.Text
