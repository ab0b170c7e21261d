import FortranTokens.Parser.Chars

/-!
# Keywords and punctuation

A keyword is written with blanks where the language allows them: `end if` stands for `endif`,
`END IF` and `end   if` alike.  Its text is compared in one pass, in either letter case.  A space
inside it stands for any number of blanks; a space at its end, or before another space, stands for
nothing.
-/

namespace FortranTokens.Parser

/-- The first character that is no blank, from the character `got` on, which has been read. -/
def pastBlanks (got : Char) : Parser Char :=
  if CharClass.isBlank got then do
    skipBlanks
    next
  else return got

/-- Reads what a text spells, and of the blanks after it none.  To find the end of blanks one
character too many is read, which waits in `pending` for its turn.  The character that does not fit
is read as well. -/
def spelling (pending : Option Char) : List Char → Parser Unit
  | [] => pure ()
  | want :: more =>
    if want = ' ' ∧ (more.head? = none ∨ more.head? = some ' ') then spelling pending more
    else do
      let got ← pending.elim next pure
      if want = ' ' then do
        let ahead ← pastBlanks got
        spelling (some ahead) more
      else if CharClass.sameLetter got want then spelling none more
      else absent

/-- Reads a keyword and the blanks on either side of it.  If it is not there, that is reported where
it should have started, after the blanks. -/
def keyword (text : String) : Parser Unit := do
  skipBlanks
  expecting (.expectedToken text) (spelling none text.toList)
  skipBlanks

end FortranTokens.Parser
