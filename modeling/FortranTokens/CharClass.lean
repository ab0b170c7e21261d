/-!
# Character classes

The classes of characters that tokens are made of.  The language's own characters are ASCII: a
letter, a digit or a case change beyond ASCII is never meant, and other characters are in none of
the classes here.
-/

namespace FortranTokens.CharClass

/-- Spaces and tabs, the blanks within a line. -/
def isBlank (c : Char) : Bool := c == ' ' || c == '\t'

/-- The digits `0` to `9`. -/
def isDecimalDigit (c : Char) : Bool := '0' ≤ c && c ≤ '9'

/-- The digits `0` to `7`. -/
def isOctalDigit (c : Char) : Bool := '0' ≤ c && c ≤ '7'

/-- The digits `0` to `9` and the letters `a` to `f` in either case. -/
def isHexDigit (c : Char) : Bool :=
  isDecimalDigit c || ('a' ≤ c && c ≤ 'f') || ('A' ≤ c && c ≤ 'F')

/-- The letters `a` to `z` in either case. -/
def isLetter (c : Char) : Bool := ('a' ≤ c && c ≤ 'z') || ('A' ≤ c && c ≤ 'Z')

/-- The characters from space to tilde, which leave a mark or a gap on paper. -/
def isPrintable (c : Char) : Bool := ' ' ≤ c && c ≤ '~'

/-- The lower-case form of a letter; any other character is its own. -/
def toLower (c : Char) : Char := c.toLower

/-- Equality up to the case of letters. -/
def sameLetter (a b : Char) : Bool := toLower a == toLower b

/-- The value of a hexadecimal digit, from 0 to 15. -/
def digitValue? (c : Char) : Option Nat :=
  if isDecimalDigit c then some (c.toNat - '0'.toNat)
  else if 'a' ≤ c && c ≤ 'f' then some (c.toNat - 'a'.toNat + 10)
  else if 'A' ≤ c && c ≤ 'F' then some (c.toNat - 'A'.toNat + 10)
  else none

/-- The value of a digit, in any base up to sixteen; zero for what is no digit. -/
def digitValue (c : Char) : Nat := (digitValue? c).getD 0

end FortranTokens.CharClass
