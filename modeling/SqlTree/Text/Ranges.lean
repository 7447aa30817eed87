/-!
# Ranges of characters

A property of characters is given by the ranges of code points that have it.

* `Text.inRanges` decides it for one character.
* `Text.isAscii` is the property of the first 128 characters.
-/

namespace SqlTree

namespace Text

/-- Whether a character lies in one of the ranges, whose ends belong to them. -/
def inRanges (ranges : List (Nat × Nat)) (c : Char) : Bool :=
  ranges.any fun r => r.1 ≤ c.toNat && c.toNat ≤ r.2

/-- Whether a character is one of the first 128. -/
def isAscii (c : Char) : Bool := c.toNat < 128

end Text

end SqlTree
