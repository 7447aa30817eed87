import SqlTree.Text.CaseTable
import SqlTree.Text.Ranges

/-!
# Lowercase

The lowercase of a text by the Unicode standard. Every character has a small form of its own, with
two exceptions: the dotted capital `İ` becomes two characters, and the small form of a capital sigma
depends on its place. A sigma is final when, passing over ignorable characters, a character with
case stands before it and none stands behind it.

A long beginning in ASCII is set apart: its whole blocks of sixteen characters are no context for a
sigma behind them, which is never final when nothing but ignorable characters comes in between.

* `Text.lead` is the length of the part set apart.
* `Text.lowerFrom` is the lowercase of what stands in a context.
* `Text.lower` is the lowercase of a text.
-/

namespace SqlTree

namespace Text

/-- Whether a character has case. -/
def isCased (c : Char) : Bool := inRanges CaseTable.cased c

/-- Whether a character is passed over when the case of a neighbour is asked for. -/
def isCaseIgnorable (c : Char) : Bool := inRanges CaseTable.ignorable c

/-- The small form of a character outside any context. -/
def smallForm (c : Char) : Char :=
  match CaseTable.runs.find? (·.covers c.toNat) with
  | some r => Char.ofNat (c.toNat + r.shift).toNat
  | none => c

/-- Whether the first character that is not ignorable has case. -/
def meetsCased (cs : List Char) : Bool :=
  match cs.find? (!isCaseIgnorable ·) with
  | some c => isCased c
  | none => false

/-- The small form of a sigma between `before`, nearest character first, and `after`. -/
def smallSigma (before after : List Char) : Char :=
  if meetsCased before && !meetsCased after then 'ς' else 'σ'

/-- The lowercase of characters that stand behind `before`, whose nearest character comes first. -/
def lowerFrom (before : List Char) : List Char → List Char
  | [] => []
  | c :: rest =>
    (if c = 'Σ' then [smallSigma before rest]
      else if c = 'İ' then ['i', '\u0307']
      else [smallForm c]) ++ lowerFrom (c :: before) rest

/-- The length of the ASCII characters that begin a text, cut to a multiple of sixteen. -/
def lead (cs : List Char) : Nat := (cs.takeWhile isAscii).length / 16 * 16

/-- The lowercase of a text: its lead character by character, and the rest in no context. -/
def lower (s : String) : String :=
  let cs := s.toList
  String.ofList ((cs.take (lead cs)).map smallForm ++ lowerFrom [] (cs.drop (lead cs)))

example : lower "ΟΔΟΣ" = "οδος" := by decide +kernel

example : lower "ΣΑ" = "σα" := by decide +kernel

example : lower "İ" = "i\u0307" := by decide +kernel

/-- Fifteen letters are a context, sixteen are set apart, and the seventeenth is a context again. -/
example : lower "ABCDEFGHIJKLMNOΣ" = "abcdefghijklmnoς" ∧
    lower "ABCDEFGHIJKLMNOPΣ" = "abcdefghijklmnopσ" ∧
    lower "ABCDEFGHIJKLMNOPQΣ" = "abcdefghijklmnopqς" := by decide +kernel

end Text

end SqlTree
