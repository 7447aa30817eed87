/-!
# Shortest decimals

The shortest decimal that reads back as a given positive binary number `m · 2 ^ q`. The reals that
round to the number form an interval around it; for one digit, two digits and so on, the two
neighbours of the number on that decimal grid are tested against the interval, and the first grid
with a hit wins. Of two hits on one grid the nearer is taken, and the upper one in an exact tie.
All arithmetic is on natural numbers.

* `Decimal` holds digits and the place of the decimal point.
* `Decimal.shortest` is the search.
-/

namespace SqlTree

/-- A positive decimal number `0.d₁d₂… · 10 ^ point`. -/
structure Decimal where
  digits : List Char
  point : Int
  deriving DecidableEq

namespace Decimal

/-- A number `m · 2 ^ q` with `0 < m`. `narrow` says that the gap below it is half the gap above
it. -/
structure Binary where
  m : Nat
  q : Int
  narrow : Bool

namespace Binary

/-- The factor of `m` in the numerator of `m · 2 ^ q / 10 ^ k`. -/
def factor (x : Binary) (k : Int) : Nat := Nat.pow 2 x.q.toNat * Nat.pow 10 (-k).toNat

/-- The denominator of `m · 2 ^ q / 10 ^ k`. -/
def denominator (x : Binary) (k : Int) : Nat := Nat.pow 2 (-x.q).toNat * Nat.pow 10 k.toNat

/-- The largest integer `u` with `u · 10 ^ k` at most the number. -/
def floorAt (x : Binary) (k : Int) : Nat := x.m * x.factor k / x.denominator k

/-- Whether `c · 10 ^ k` rounds to the number. The ends of the interval belong to it when `m` is
even. -/
def covers (x : Binary) (k : Int) (c : Nat) : Bool :=
  let low := (4 * x.m - if x.narrow then 1 else 2) * x.factor k
  let high := (4 * x.m + 2) * x.factor k
  let at4 := 4 * c * x.denominator k
  if x.m % 2 = 0 then low ≤ at4 && at4 ≤ high else low < at4 && at4 < high

/-- Whether the number is nearer to `u · 10 ^ k` than to `(u + 1) · 10 ^ k`. -/
def isNearerFloor (x : Binary) (k : Int) (u : Nat) : Bool :=
  2 * (x.m * x.factor k) < (2 * u + 1) * x.denominator k

/-- The neighbour of the number on the grid of multiples of `10 ^ k` that reads back, if there is
one. -/
def hitAt (x : Binary) (k : Int) : Option Nat :=
  let u := x.floorAt k
  match x.covers k u, x.covers k (u + 1) with
  | true, true => if x.isNearerFloor k u then some u else some (u + 1)
  | true, false => some u
  | false, true => some (u + 1)
  | false, false => none

/-- Whether `10 ^ e` is at most the number. -/
def isAtLeastTenTo (x : Binary) (e : Int) : Bool := x.denominator e ≤ x.m * x.factor e

/-- The largest `e` for which `10 ^ e` is at most the number. The logarithm to base two gives a
guess that is off by at most one. -/
def leadingExponent (x : Binary) : Int :=
  let guess := (x.m.log2 + x.q) * 30103 / 100000
  if x.isAtLeastTenTo (guess + 1) then guess + 1
  else if x.isAtLeastTenTo guess then guess
  else guess - 1

end Binary

/-- The decimal `n · 10 ^ k`, without trailing zeros. -/
def ofScaled (n : Nat) (k : Int) : Decimal :=
  let digits := Nat.toDigits 10 n
  ⟨(digits.reverse.dropWhile (· == '0')).reverse, digits.length + k⟩

/-- The search from `n` digits on, through at most `fuel` grids. -/
def shortestFrom (x : Binary) (e : Int) (n : Nat) : Nat → Decimal
  | 0 => ofScaled (x.floorAt (e + 1 - n)) (e + 1 - n)
  | fuel + 1 =>
    match x.hitAt (e + 1 - n) with
    | some c => ofScaled c (e + 1 - n)
    | none => shortestFrom x e (n + 1) fuel

/-- The shortest decimal that reads back as the number; seventeen digits always suffice. -/
def shortest (x : Binary) : Decimal := shortestFrom x x.leadingExponent 1 17

end Decimal

end SqlTree
