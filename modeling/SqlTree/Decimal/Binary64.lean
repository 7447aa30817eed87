/-!
# Binary64 numbers

A number of storage class REAL is kept as its 64 bits: a sign bit, eleven exponent bits and
fifty-two fraction bits. The bits are the number: nothing here goes through floating-point
arithmetic, so every function is exact and reduces in the logic.

* `Binary64.significand` and `Binary64.exponent` read the magnitude as `m · 2 ^ q`.
* `Binary64.equal` is the equality of numbers, under which NaN differs from itself and the two
  zeros agree; equality of bits is the equality of the type.
* `Binary64.ofBinary32` widens a number of half the size, without loss.
-/

namespace SqlTree

/-- A binary64 number, given by its bits. -/
structure Binary64 where
  bits : UInt64
  deriving DecidableEq, Inhabited

namespace Binary64

/-! ## The three fields -/

/-- Whether the sign bit is set. -/
def isNegative (x : Binary64) : Bool := Nat.pow 2 63 ≤ x.bits.toNat

/-- The biased exponent, below `2 ^ 11`. -/
def exponentField (x : Binary64) : Nat := x.bits.toNat / Nat.pow 2 52 % Nat.pow 2 11

/-- The fraction, below `2 ^ 52`. -/
def fractionField (x : Binary64) : Nat := x.bits.toNat % Nat.pow 2 52

/-- The number with the given sign, biased exponent and fraction. -/
def ofFields (negative : Bool) (exponent fraction : Nat) : Binary64 :=
  ⟨((if negative then Nat.pow 2 63 else 0) + exponent * Nat.pow 2 52 + fraction).toUInt64⟩

/-! ## Classes -/

/-- Not a number: the largest exponent with a fraction. -/
def isNaN (x : Binary64) : Bool := x.exponentField = 2047 && x.fractionField ≠ 0

/-- Infinite: the largest exponent without a fraction. -/
def isInfinite (x : Binary64) : Bool := x.exponentField = 2047 && x.fractionField = 0

/-- Zero of either sign. -/
def isZero (x : Binary64) : Bool := x.exponentField = 0 && x.fractionField = 0

/-- Equality of numbers: NaN equals nothing, and the two zeros are equal. -/
def equal (x y : Binary64) : Bool :=
  !x.isNaN && !y.isNaN && (x.bits == y.bits || (x.isZero && y.isZero))

/-! ## Magnitude -/

/-- The integer `m` in the magnitude `m · 2 ^ q` of a finite number. -/
def significand (x : Binary64) : Nat :=
  if x.exponentField = 0 then x.fractionField else Nat.pow 2 52 + x.fractionField

/-- The exponent `q` in the magnitude `m · 2 ^ q` of a finite number. -/
def exponent (x : Binary64) : Int := (max 1 x.exponentField : Nat) - 1075

/-- Whether the gap to the next smaller magnitude is half the gap to the next larger one, as it is
at a power of two. -/
def isNarrowBelow (x : Binary64) : Bool := x.fractionField = 0 && 1 < x.exponentField

/-! ## Widening -/

/-- The binary64 number equal to the binary32 number with the given bits. NaN becomes a quiet NaN
with the same sign and leading fraction bits. -/
def ofBinary32 (b : UInt32) : Binary64 :=
  let negative := Nat.pow 2 31 ≤ b.toNat
  let exponent := b.toNat / Nat.pow 2 23 % Nat.pow 2 8
  let fraction := b.toNat % Nat.pow 2 23
  if exponent = 255 then
    if fraction = 0 then ofFields negative 2047 0
    else ofFields negative 2047 (Nat.pow 2 51 + fraction % Nat.pow 2 22 * Nat.pow 2 29)
  else if exponent = 0 then
    if fraction = 0 then ofFields negative 0 0
    else
      let top := fraction.log2
      ofFields negative (top + 874) ((fraction - Nat.pow 2 top) * Nat.pow 2 (52 - top))
  else ofFields negative (exponent + 896) (fraction * Nat.pow 2 29)

end Binary64

end SqlTree
