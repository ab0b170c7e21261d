import FortranTokens.Grammar.Basic

/-!
# Recurring shapes

The shapes that statements are made of again and again: brackets, lists, and the optional part
before a double colon.
-/

namespace FortranTokens.Grammar

variable {α : Type}

/-- Something between round brackets. -/
def parenthesized (g : Grammar α) : Grammar α := seqRight (keyword "(") (seqLeft g (keyword ")"))

/-- Something between square brackets. -/
def bracketed (g : Grammar α) : Grammar α := seqRight (keyword "[") (seqLeft g (keyword "]"))

/-- One or more things with commas between them. -/
def nonemptyList (g : Grammar α) : Grammar (List α) := sepBy1 g (keyword ",")

/-- An optional part, after a comma and before a double colon, as in `integer, parameter :: n`.
Without it no comma may stand there, and the colons may be missing as well; the value is then the
default. -/
def optionalBeforeColons (g : Grammar α) (default : α) : Grammar α :=
  orElse
    (orElse (seqLeft (seqRight (keyword ",") g) (keyword "::"))
      (seqRight (keyword "::") (value default)))
    (seqRight (notFollowedBy (keyword ",")) (value default))

end FortranTokens.Grammar
