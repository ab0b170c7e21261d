import FortranTokens.Literal.DigitString

/-!
# Hollerith constants

A Hollerith constant is a count, the letter `H`, and then exactly as many printable characters as
the count says.  Without a count, without the letter, or with a count of zero it is no Hollerith
constant at all; after the letter, a count of more than 64 bits or a text that breaks off is
reported where the count starts.
-/

namespace FortranTokens.Parser

/-- Reads exactly `n` printable characters.  A character that is not printable is read as well. -/
def printables : Nat → Parser (List Char)
  | 0 => pure []
  | n + 1 => do
    let c ← next
    if CharClass.isPrintable c then return c :: (← printables n) else absent

/-- Reads a Hollerith constant, with the blanks before it. -/
def hollerith : Parser String := do
  skipBlanks
  let start ← location
  let count ← digitString
  let marker ← attempt letter
  if marker ≠ 'h' then absent
  else if count.overflow then failAt start .badHollerith
  else if count.value = 0 then absent
  else orSay start .badHollerith (String.ofList <$> printables count.value.toNat)

end FortranTokens.Parser
