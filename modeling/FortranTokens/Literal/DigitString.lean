import FortranTokens.Parser.Chars

/-!
# Digit strings

A digit string is a run of decimal digits.  Its value is kept in 64 bits: a larger number wraps
around, which is reported once and remembered beside the value.
-/

namespace FortranTokens

/-- The value of a digit string in 64 bits, and whether the number was too large for them. -/
structure DigitString where
  value : UInt64
  overflow : Bool
  deriving DecidableEq, Repr

namespace DigitString

/-- The value before the first digit. -/
def zero : DigitString := ⟨0, false⟩

/-- Appends a digit: ten times the value plus the digit.  Each of the two steps that wraps around
marks the result. -/
def append (d : DigitString) (c : Char) : DigitString :=
  let digit := UInt64.ofNat (CharClass.digitValue c)
  let tens := d.value * 10
  { value := tens + digit
    overflow := d.overflow || UInt64.size ≤ d.value.toNat * 10
      || UInt64.size ≤ tens.toNat + digit.toNat }

/-- The value of a run of digits, the first digit counting most. -/
def ofDigits (digits : List Char) : DigitString := digits.foldl append zero

end DigitString

/-- Reads a run of decimal digits; absent without reading or reporting anything if there is none.
A number of more than 64 bits is reported where its digits start. -/
def Parser.digitString : Parser DigitString := do
  let start ← location
  let first ← attempt digit
  let more ← readWhile CharClass.isDecimalDigit
  let d := DigitString.ofDigits (first :: more)
  if d.overflow then do
    say start .decimalOverflow
    return d
  else return d

end FortranTokens
