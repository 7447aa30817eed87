import SqlTree.Decimal.Binary64
import SqlTree.Decimal.Shortest

/-!
# Styles of decimal numbers

How the digits of a number are laid out: positionally or with an exponent, with or without a
fraction when there is none to show. `Decimal.Style` is the record of these choices, and
`Binary64.write` writes a number under one of them.
-/

namespace SqlTree

namespace Decimal

/-- The choices of a style for numbers. -/
structure Style where
  /-- Whether a number whose decimal point has this place is written positionally. -/
  isPositional : Int → Bool
  /-- Whether a whole number written positionally ends in `.0`. -/
  keepsFraction : Bool

/-- The digits laid out around the decimal point. -/
def writePositional (d : Decimal) (keepsFraction : Bool) : String :=
  let whole := d.digits.take d.point.toNat ++
    List.replicate (d.point.toNat - d.digits.length) '0'
  let fraction := List.replicate (-d.point).toNat '0' ++ d.digits.drop d.point.toNat
  let whole := if whole.isEmpty then ['0'] else whole
  let fraction :=
    if !fraction.isEmpty then '.' :: fraction
    else if keepsFraction then ['.', '0']
    else []
  String.ofList (whole ++ fraction)

/-- One digit before the decimal point, the rest behind it, and a power of ten. -/
def writeScientific (d : Decimal) : String :=
  let fraction := if d.digits.length ≤ 1 then [] else '.' :: d.digits.drop 1
  String.ofList (d.digits.take 1 ++ fraction) ++ "e" ++ toString (d.point - 1)

/-- The text of a positive decimal. -/
def write (style : Style) (d : Decimal) : String :=
  if style.isPositional d.point then d.writePositional style.keepsFraction
  else d.writeScientific

end Decimal

namespace Binary64

/-- The text of a number: its shortest digits under `style`, or its name when it is not finite. -/
def write (style : Decimal.Style) (x : Binary64) : String :=
  if x.isNaN then "NaN"
  else
    let sign := if x.isNegative then "-" else ""
    if x.isInfinite then sign ++ "inf"
    else if x.isZero then sign ++ if style.keepsFraction then "0.0" else "0"
    else sign ++ (Decimal.shortest ⟨x.significand, x.exponent, x.isNarrowBelow⟩).write style

end Binary64

end SqlTree
