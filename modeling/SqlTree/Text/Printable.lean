import SqlTree.Text.PrintTable
import SqlTree.Text.Ranges

/-!
# Printable characters

A character is printable when it can be told from its print alone: it has a printed form, and it is
not drawn onto the character before it. An accented letter is printable when it is one character,
and the accent by itself is not.
-/

namespace SqlTree

namespace Text

/-- Whether a character is seen by itself. -/
def isPrintable (c : Char) : Bool :=
  !inRanges PrintTable.extending c && !inRanges PrintTable.unprinted c

example : isPrintable 'é' ∧ isPrintable ' ' ∧ isPrintable '🙂' := by decide +kernel

example : ¬ isPrintable '\u0301' ∧ ¬ isPrintable '\u00a0' ∧ ¬ isPrintable '\x7f' := by
  decide +kernel

/-- A halfwidth sound mark stands beside its syllable, a combining one upon it. -/
example : isPrintable '\uff9e' ∧ ¬ isPrintable '\u3099' := by decide +kernel

/-- The filler of a vowel is a letter that is not seen; the first vowel is seen. -/
example : ¬ isPrintable '\u1160' ∧ isPrintable '\u1161' := by decide +kernel

end Text

end SqlTree
