/-!
# Diagnostic codes

Every diagnostic carries a short stable code, `E0001` to `E0015`.  This file lists the codes in the
order of their numbers, gives their text, and reads a text back as a code in either letter case.
-/

namespace FortranTokens

/-- The codes, in the order of their numbers. -/
inductive Code where
  | expectedDigit
  | expectedLetter
  | expectedOctalDigit
  | expectedHexDigit
  | expectedChar
  | expectedToken
  | endOfFile
  | unclosedCharConstant
  | badEscapedChar
  | noBozDigit
  | badBozDigit
  | excessiveBozDigits
  | unclosedBozLiteral
  | decimalOverflow
  | badHollerith
  deriving DecidableEq, Repr

namespace Code

/-- All codes, in the order of their numbers. -/
def all : List Code :=
  [expectedDigit, expectedLetter, expectedOctalDigit, expectedHexDigit, expectedChar,
    expectedToken, endOfFile, unclosedCharConstant, badEscapedChar, noBozDigit, badBozDigit,
    excessiveBozDigits, unclosedBozLiteral, decimalOverflow, badHollerith]

/-- The text of a code: the letter E and four digits. -/
def text : Code → String
  | expectedDigit => "E0001"
  | expectedLetter => "E0002"
  | expectedOctalDigit => "E0003"
  | expectedHexDigit => "E0004"
  | expectedChar => "E0005"
  | expectedToken => "E0006"
  | endOfFile => "E0007"
  | unclosedCharConstant => "E0008"
  | badEscapedChar => "E0009"
  | noBozDigit => "E0010"
  | badBozDigit => "E0011"
  | excessiveBozDigits => "E0012"
  | unclosedBozLiteral => "E0013"
  | decimalOverflow => "E0014"
  | badHollerith => "E0015"

/-- The codes about the inside of a literal, as opposed to those about something missing. -/
def isLiteral : Code → Bool
  | unclosedCharConstant | badEscapedChar | noBozDigit | badBozDigit | excessiveBozDigits
  | unclosedBozLiteral | decimalOverflow | badHollerith => true
  | _ => false

/-- The place of a code in `all`, counted from zero. -/
def index (c : Code) : Nat := all.idxOf c

/-- The code with the given text, in either letter case.  The codes are ASCII and no other
character has an upper-case form within them, so changing the case of ASCII letters is enough;
blanks around the text are not allowed. -/
def parse? (s : String) : Option Code :=
  all.find? fun c => c.text.toList == s.toList.map Char.toUpper

end Code

end FortranTokens
