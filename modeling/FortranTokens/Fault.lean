/-!
# Faults

A fault is a broken contract of the caller: a span or a slice that ends before it starts, a search
for a byte that is no character, a source too long for 32-bit offsets.  It is also a number of lines
or characters that no 32-bit word holds.  A fault is not a diagnostic of the text being read, and it
is not the absence of a token: it stops whatever was running.  This file lists the causes and gives
their wording.
-/

namespace FortranTokens

/-- The contracts that a caller can break, and the number that no word holds. -/
inductive Fault where
  /-- A span was asked for whose start lies after its end. -/
  | reversedSpan
  /-- A piece of the source was asked for whose start lies after its end. -/
  | reversedSlice (start stop : Nat)
  /-- A search was asked for a byte that is no ASCII character. -/
  | goalNotAscii
  /-- The source has so many bytes that not every offset is a 32-bit word. -/
  | sourceTooLong (size : Nat)
  /-- One more than a 32-bit word is no such word. -/
  | sumTooLarge
  deriving DecidableEq, Repr

/-- The wording of a fault. -/
def Fault.message : Fault → String
  | .reversedSpan => "assertion failed: start <= end"
  | .reversedSlice start stop =>
    "slice start " ++ toString start ++ " exceeds end " ++ toString stop
  | .goalNotAscii => "goal must be an ASCII byte"
  | .sourceTooLong size => "source of " ++ toString size ++ " bytes exceeds u32 offsets"
  | .sumTooLarge => "attempt to add with overflow"

end FortranTokens
