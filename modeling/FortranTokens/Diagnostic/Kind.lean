import FortranTokens.Diagnostic.Code

/-!
# Kinds of diagnostics

What a diagnostic is about: the missing character or token, or what is wrong inside a literal.
Each kind has a code and a wording.
-/

namespace FortranTokens

/-- What a diagnostic is about. -/
inductive Kind where
  | expectedDigit
  | expectedLetter
  | expectedOctalDigit
  | expectedHexDigit
  | expectedChar (ch : Char)
  | expectedToken (text : String)
  | endOfFile
  | unclosedCharConstant
  | badEscapedChar
  | noBozDigit
  | badBozDigit
  | excessiveBozDigits
  | unclosedBozLiteral
  | decimalOverflow
  | badHollerith
  deriving DecidableEq, Repr

namespace Kind

/-- The code of a kind. -/
def code : Kind → Code
  | expectedDigit => .expectedDigit
  | expectedLetter => .expectedLetter
  | expectedOctalDigit => .expectedOctalDigit
  | expectedHexDigit => .expectedHexDigit
  | expectedChar _ => .expectedChar
  | expectedToken _ => .expectedToken
  | endOfFile => .endOfFile
  | unclosedCharConstant => .unclosedCharConstant
  | badEscapedChar => .badEscapedChar
  | noBozDigit => .noBozDigit
  | badBozDigit => .badBozDigit
  | excessiveBozDigits => .excessiveBozDigits
  | unclosedBozLiteral => .unclosedBozLiteral
  | decimalOverflow => .decimalOverflow
  | badHollerith => .badHollerith

/-- The wording of a kind; an expected character or token stands between single quotes as it is. -/
def text : Kind → String
  | expectedDigit => "expected digit"
  | expectedLetter => "expected letter"
  | expectedOctalDigit => "expected octal digit"
  | expectedHexDigit => "expected hexadecimal digit"
  | expectedChar ch => "expected '" ++ String.singleton ch ++ "'"
  | expectedToken text => "expected '" ++ text ++ "'"
  | endOfFile => "end of file"
  | unclosedCharConstant => "unclosed character constant"
  | badEscapedChar => "bad escaped character"
  | noBozDigit => "no digit in BOZ literal"
  | badBozDigit => "bad digit in BOZ literal"
  | excessiveBozDigits => "excessive digits in BOZ literal"
  | unclosedBozLiteral => "unclosed BOZ literal"
  | decimalOverflow => "overflow in decimal literal"
  | badHollerith => "insufficient or bad characters in Hollerith"

end Kind

end FortranTokens
