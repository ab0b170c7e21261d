import FortranTokens.Parser.Repeat

/-!
# Single characters and blanks

The parsers for one character, for blanks, and for the end of the source.
-/

namespace FortranTokens.Parser

/-- Reads one character, which has to satisfy `p`.  If it does not, or if there is none, the message
is reported where the character stands; a character that does not satisfy `p` is read all the
same. -/
def satisfy (p : Char → Bool) (kind : Kind) : Parser Char :=
  expecting kind do
    let c ← next
    if p c then return c else absent

/-- Reads one character, which has to be `c`. -/
def char (c : Char) : Parser Char := satisfy (· == c) (.expectedChar c)

/-- Reads a decimal digit. -/
def digit : Parser Char := satisfy CharClass.isDecimalDigit .expectedDigit

/-- Reads an octal digit. -/
def octalDigit : Parser Char := satisfy CharClass.isOctalDigit .expectedOctalDigit

/-- Reads a hexadecimal digit. -/
def hexDigit : Parser Char := satisfy CharClass.isHexDigit .expectedHexDigit

/-- Reads a letter, and gives its lower-case form. -/
def letter : Parser Char :=
  CharClass.toLower <$> satisfy CharClass.isLetter .expectedLetter

/-- Reads any character. -/
def anyChar : Parser Char := expecting .endOfFile next

/-- Reads one space or tab; absent without reading or reporting anything if there is none. -/
def space : Parser Unit := do
  match (← peek?).filter CharClass.isBlank with
  | some _ =>
    let _ ← next?
    return ()
  | none => absent

/-- Present at the end of the source only. -/
def endOfInput : Parser Unit := fun s => (if s.atEnd then .present () else .absent, s)

/-- Reads to just past the next character `goal`; absent, at the end of the source, if there is
none. -/
def skipPast (goal : UInt8) : Parser Unit := fun s =>
  match s.skipPast goal with
  | .ok (true, t) => (.present (), t)
  | .ok (false, t) => (.absent, t)
  | .error e => (.fault e, s)

/-- Reports a message at the next character. -/
def report (kind : Kind) : Parser Unit := do
  say (← location) kind

/-- Reads `n` characters, or as many as there are. -/
def skipChars : Nat → Parser Unit
  | 0 => pure ()
  | n + 1 => do
    let _ ← next?
    skipChars n

/-- Reads `n` characters and reports a message at the place reached; absent. -/
def consumeThenFail {α : Type} (n : Nat) (kind : Kind) : Parser α := do
  skipChars n
  failAt (← location) kind

end FortranTokens.Parser
