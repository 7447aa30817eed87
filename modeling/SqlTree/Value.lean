import SqlTree.Decimal.Style
import SqlTree.Text.Printable

/-!
# Values

The values that a statement binds to its placeholders, one constructor per storage class.

* `Value.write` is the value as a literal of the language.
* `Value.describe` names the storage class and shows the payload, for diagnostics.
* `Value.equal` is equality with numbers compared as numbers.
-/

namespace SqlTree

/-- A value bound to a placeholder. -/
inductive Value where
  | null
  | integer (n : Int64)
  | real (x : Binary64)
  | text (s : String)
  | blob (bytes : List UInt8)
  deriving DecidableEq, Inhabited

namespace Value

/-- Whether the value is `NULL`. -/
def isNull : Value → Bool
  | null => true
  | _ => false

/-- The payload of an integer. -/
def integer? : Value → Option Int64
  | integer n => some n
  | _ => none

/-- A truth value, stored as the integer one or zero. -/
def ofBool (b : Bool) : Value := integer (if b then 1 else 0)

/-- A number of half the size, stored in full size. -/
def ofBinary32 (b : UInt32) : Value := real (Binary64.ofBinary32 b)

/-- Equality of values, reals compared as numbers: NaN equals nothing and zeros agree. -/
def equal : Value → Value → Bool
  | real x, real y => x.equal y
  | a, b => a == b

/-! ## Text -/

/-- A hexadecimal digit below sixteen, in capitals. -/
def hexDigit (n : Nat) : Char := if n < 10 then Char.ofNat (48 + n) else Char.ofNat (55 + n)

/-- The two hexadecimal digits of a byte. -/
def hexByte (b : UInt8) : List Char := [hexDigit (b.toNat / 16), hexDigit (b.toNat % 16)]

/-- The characters with every `quote` written twice. -/
def doubled (quote : Char) : List Char → List Char
  | [] => []
  | c :: rest => if c = quote then c :: c :: doubled quote rest else c :: doubled quote rest

/-- Numbers as literals are written positionally, whole ones without a fraction. -/
def literalStyle : Decimal.Style := ⟨fun _ => true, false⟩

/-- The value as a literal: text between quotes, a quote inside it written twice, and bytes in
hexadecimal. -/
def write : Value → String
  | null => "NULL"
  | integer n => toString n.toInt
  | real x => x.write literalStyle
  | text s => "'" ++ String.ofList (doubled '\x27' s.toList) ++ "'"
  | blob bytes => "X'" ++ String.ofList (bytes.flatMap hexByte) ++ "'"

/-! ## Diagnostics -/

/-- Described numbers always have a fraction when written positionally, which they are from
`0.0001` up to, not including, ten to the sixteenth. -/
def describedStyle : Decimal.Style := ⟨fun point => -3 ≤ point && point ≤ 16, true⟩

/-- A natural number in small hexadecimal digits, without leading zeros. -/
def lowerHex (n : Nat) : String := String.ofList (Nat.toDigits 16 n)

/-- One character of a described text: quotes and backslashes are escaped, and what is not printable
is written by name or number. -/
def describeChar (c : Char) : String :=
  match c with
  | '\x22' => "\\\x22"
  | '\x5c' => "\\\\"
  | '\n' => "\\n"
  | '\r' => "\\r"
  | '\t' => "\\t"
  | '\x00' => "\\0"
  | c =>
    if Text.isPrintable c then c.toString else "\\u\x7b" ++ lowerHex c.toNat ++ "\x7d"

/-- A text between double quotes, escaped. -/
def describeText (s : String) : String :=
  "\x22" ++ String.join (s.toList.map describeChar) ++ "\x22"

/-- The storage class and the payload of a value. -/
def describe : Value → String
  | null => "Null"
  | integer n => "Integer(" ++ toString n.toInt ++ ")"
  | real x => "Real(" ++ x.write describedStyle ++ ")"
  | text s => "Text(" ++ describeText s ++ ")"
  | blob bytes => "Blob([" ++ String.intercalate ", " (bytes.map (toString ·.toNat)) ++ "])"

/-! ## Examples -/

example : (real ⟨0x3FB999999999999A⟩).write = "0.1" := by decide +kernel

example : (real ⟨0x8000000000000000⟩).write = "-0" := by decide +kernel

example : (text "it's").write = "'it''s'" := by decide +kernel

example : (text "e\u0301\n").describe = "Text(\x22e\\u\x7b301\x7d\\n\x22)" := by decide +kernel

example : (real ⟨1⟩).describe = "Real(5e-324)" := by decide +kernel

example : (real ⟨0x4341C37937E08000⟩).describe = "Real(1e16)" := by decide +kernel

/-- Two decimals of seventeen digits lie at the same distance; the upper one is taken. -/
example : (real ⟨0x3E60000000000000⟩).describe = "Real(2.9802322387695313e-8)" := by
  decide +kernel

end Value

end SqlTree
