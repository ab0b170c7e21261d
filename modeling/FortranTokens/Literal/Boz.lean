import FortranTokens.Parser.Chars

/-!
# Binary, octal and hexadecimal constants

Such a constant is a base letter and digits between quotes: `B'101'`, `O'17'`, `Z'FF'`.  Strict
conformance turns two extensions off: the letter `X` for hexadecimal, and a base letter after the
closing quote instead of before the opening one.

A base letter and a quote commit to a constant, so that a wrong character or a missing quote is
reported.  Without the letter in front it is not known yet whether a constant is meant: the same
is then a silent absence.  Once the base is known, missing digits, a digit too large for the base
and a number of more than 64 bits are reported in both forms, just after the opening quote.
-/

namespace FortranTokens

namespace Boz

/-- The base of a constant. -/
inductive Base where
  | binary
  | octal
  | hexadecimal
  deriving DecidableEq, Repr

/-- The base that a letter stands for, in either case. -/
def Base.ofLetter? (c : Char) : Option Base :=
  match CharClass.toLower c with
  | 'b' => some .binary
  | 'o' => some .octal
  | 'z' | 'x' => some .hexadecimal
  | _ => none

/-- The number of bits that one digit fills. -/
def Base.bits : Base → UInt64
  | .binary => 1
  | .octal => 3
  | .hexadecimal => 4

/-- Appends a digit to a value: the value moves up by the bits of a digit and the digit fills them.
The digit has to fit into these bits, and no bit of the value may be moved out. -/
def append (base : Base) (value : UInt64) (c : Char) : Except Kind UInt64 :=
  let digit := UInt64.ofNat (CharClass.digitValue c)
  let shifted := value <<< base.bits
  if digit >>> base.bits ≠ 0 then .error .badBozDigit
  else if shifted >>> base.bits ≠ value then .error .excessiveBozDigits
  else .ok (shifted ||| digit)

/-- The value of digits, the first counting most; the first digit that cannot be appended decides
the error. -/
def value (base : Base) (digits : List Char) : Except Kind UInt64 :=
  digits.foldlM (append base) 0

end Boz

namespace Parser

/-- Reads hexadecimal digits up to and with a closing quote, and gives the digits.  Whether another
character or the end of the source is reported depends on whether the constant is `committed`. -/
def quotedDigits (committed : Bool) (quote : Char) : Parser (List Char) := do
  let start ← location
  let _ ← readWhile CharClass.isHexDigit
  match ← next? with
  | some c =>
    if c = quote then return (← textFrom start).toList.dropLast
    else if committed then failAt start .badBozDigit
    else absent
  | none => if committed then failAt start .unclosedBozLiteral else absent

/-- The value of the digits of a constant that were read from the offset `start` on. -/
def bozValue (start : Nat) (base : Boz.Base) (digits : List Char) : Parser UInt64 :=
  if digits.isEmpty then failAt start .noBozDigit
  else
    match Boz.value base digits with
    | .ok value => pure value
    | .error kind => failAt start kind

/-- The rest of a constant after its base letter. -/
def bozAfterLetter (base : Boz.Base) : Parser UInt64 := do
  let quote ← next
  if quote = '\'' ∨ quote = '"' then do
    let start ← location
    let digits ← quotedDigits true quote
    bozValue start base digits
  else absent

/-- The rest of a constant after an opening quote that no base letter precedes. -/
def bozAfterQuote (quote : Char) : Parser UInt64 := do
  let start ← location
  let digits ← quotedDigits false quote
  if (← options).strict then absent
  else
    match (← peek?).bind Boz.Base.ofLetter? with
    | some base =>
      let _ ← next?
      bozValue start base digits
    | none => absent

/-- Reads a binary, octal or hexadecimal constant, with the blanks before it. -/
def boz : Parser UInt64 := do
  skipBlanks
  let c ← next
  if (c = 'x' ∨ c = 'X') ∧ (← options).strict then absent
  else
    match Boz.Base.ofLetter? c with
    | some base => bozAfterLetter base
    | none => if c = '\'' ∨ c = '"' then bozAfterQuote c else absent

end Parser

end FortranTokens
