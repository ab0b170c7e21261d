import FortranTokens.Diagnostic.Message

/-!
# Logs

The messages reported so far, in the order of their reports.  A log grows at its end and is cut
there: a length taken earlier is all that is needed to drop or to detach what came later.
-/

namespace FortranTokens

/-- Messages in the order of their reports. -/
abbrev Log := List Message

namespace Log

/-- Reports one more message. -/
def push (log : Log) (m : Message) : Log := log ++ [m]

/-- Reports several more messages, in their order. -/
def extend (log : Log) (ms : List Message) : Log := log ++ ms

/-- Keeps the first `n` messages; a log with no more than that stays as it is. -/
def truncate (log : Log) (n : Nat) : Log := log.take n

/-- Detaches the messages after the first `n`: what is detached, and what stays. -/
def splitOff (log : Log) (n : Nat) : List Message × Log := (log.drop n, log.take n)

/-- Whether a message of exactly this kind was reported. -/
def hasKind (log : Log) (kind : Kind) : Bool := log.any fun m => m.kind == kind

end Log

end FortranTokens
