import FortranTokens.Fault

/-!
# Spans

A span is a stretch of the source given by two byte offsets, the first not after the second.
-/

namespace FortranTokens

/-- The bytes from `start` up to, but not including, `stop`. -/
structure Span where
  start : Nat
  stop : Nat
  start_le_stop : start ≤ stop
  deriving DecidableEq, Repr

namespace Span

/-- The empty span at an offset. -/
def ofOffset (offset : Nat) : Span := ⟨offset, offset, Nat.le_refl offset⟩

/-- The span between two offsets, which have to be in order. -/
def ofBounds? (start stop : Nat) : Except Fault Span :=
  if h : start ≤ stop then .ok ⟨start, stop, h⟩ else .error .reversedSpan

/-- The number of bytes in a span. -/
def length (s : Span) : Nat := s.stop - s.start

/-- Whether a span holds no byte. -/
def isEmpty (s : Span) : Bool := s.start == s.stop

/-- The text of a span: its two offsets with two dots between them. -/
def text (s : Span) : String := toString s.start ++ ".." ++ toString s.stop

end Span

end FortranTokens
