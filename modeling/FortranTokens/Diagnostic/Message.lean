import FortranTokens.Diagnostic.Kind
import FortranTokens.Diagnostic.Span

/-!
# Messages

A message is a kind of diagnostic together with the span that it is about.
-/

namespace FortranTokens

/-- A diagnostic about a stretch of the source. -/
structure Message where
  kind : Kind
  span : Span
  deriving DecidableEq, Repr

namespace Message

/-- The message of a kind at a single offset. -/
def ofOffset (offset : Nat) (kind : Kind) : Message := ⟨kind, .ofOffset offset⟩

/-- The text of a message: its code in square brackets, then the wording of its kind. -/
def text (m : Message) : String := "error[" ++ m.kind.code.text ++ "]: " ++ m.kind.text

end Message

end FortranTokens
