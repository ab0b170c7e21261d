import FortranTokens.Cursor
import FortranTokens.Diagnostic.Log
import FortranTokens.Options

/-!
# Scan states

A scan state is what a parser reads from and reports to: a cursor into the source, the messages
reported so far, and the reading modes.  A mark remembers a cursor and a number of messages;
rolling back to it restores the one and drops the messages beyond the other.
-/

namespace FortranTokens

/-- A cursor into the source, the messages reported so far, and the reading modes. -/
structure State where
  cursor : Cursor
  log : Log
  options : Options

/-- A remembered cursor, with the number of messages reported by then. -/
structure Mark where
  cursor : Cursor
  logged : Nat

/-- The byte offset to which a mark leads back. -/
def Mark.location (m : Mark) : Nat := m.cursor.offset

namespace State

/-- The state at the start of a source, with no message. -/
def ofSource? (source : String) (options : Options) : Except Fault State := do
  return { cursor := ← Cursor.ofSource? source, log := [], options }

/-! ## Reading -/

/-- The byte offset at which the state stands. -/
def location (s : State) : Nat := s.cursor.offset

/-- The characters still to be read. -/
def rest (s : State) : List Char := s.cursor.rest

/-- The next character, which stays unread. -/
def peek (s : State) : Option Char := s.cursor.current

/-- Whether the whole source has been read. -/
def atEnd (s : State) : Bool := s.cursor.isEof

/-- Reads one character, if there is one left. -/
def next (s : State) : Option Char × State :=
  match s.cursor.bump with
  | none => (none, s)
  | some (c, cursor) => (some c, { s with cursor })

/-- Reads the longest stretch of characters that satisfy `p`, and counts them. -/
def skipWhile (p : Char → Bool) (s : State) : Nat × State :=
  let (n, cursor) := s.cursor.eatWhile p
  (n, { s with cursor })

/-- Reads spaces and tabs, and counts them. -/
def skipBlanks (s : State) : Nat × State :=
  let (n, cursor) := s.cursor.eatBlanks
  (n, { s with cursor })

/-- Reads to just past the next byte equal to `goal`, or to the end if there is none, and tells
which. -/
def skipPast (goal : UInt8) (s : State) : Except Fault (Bool × State) :=
  match s.cursor.eatPast goal with
  | .ok (found, cursor) => .ok (found, { s with cursor })
  | .error fault => .error fault

/-- The source text from an offset up to where the state stands. -/
def textFrom (start : Nat) (s : State) : Except Fault String := s.cursor.sliceFrom start

theorem location_lt (s : State) : s.location < UInt32.size := s.cursor.pos.toNat_lt

theorem location_lt_of_next {s t : State} {c : Char} (h : s.next = (some c, t)) :
    s.location < t.location := by
  unfold next at h
  split at h
  · simp at h
  · simp only [Prod.mk.injEq, Option.some.injEq] at h
    obtain ⟨rfl, rfl⟩ := h
    exact Cursor.offset_lt_of_bump (by assumption)

theorem location_le_next (s : State) : s.location ≤ s.next.2.location := by
  unfold next
  split
  · exact Nat.le_refl _
  · exact Nat.le_of_lt (Cursor.offset_lt_of_bump (by assumption))

/-! ## Reporting -/

/-- Reports a message at an offset. -/
def say (offset : Nat) (kind : Kind) (s : State) : State :=
  { s with log := s.log.push (.ofOffset offset kind) }

/-! ## Going back -/

/-- Remembers where the state stands and how many messages it has. -/
def mark (s : State) : Mark := ⟨s.cursor, s.log.length⟩

/-- Goes back to a mark and drops the messages reported since. -/
def rollback (m : Mark) (s : State) : State :=
  { s with cursor := m.cursor, log := s.log.truncate m.logged }

/-- Detaches the messages reported since a mark; the cursor stays. -/
def takeSince (m : Mark) (s : State) : List Message × State :=
  let (taken, log) := s.log.splitOff m.logged
  (taken, { s with log })

/-- Reports messages again that were detached before. -/
def restore (ms : List Message) (s : State) : State := { s with log := s.log.extend ms }

end State

end FortranTokens
