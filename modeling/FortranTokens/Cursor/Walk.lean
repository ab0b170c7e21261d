import FortranTokens.Cursor

/-!
# Walks

A walk is a caller at work on one cursor.  The caller may save copies of the cursor and make a
saved copy the current one again; copies are numbered from zero.
-/

namespace FortranTokens

/-- A cursor, with the copies of it that were saved so far. -/
structure Walk where
  cursor : Cursor
  saved : List Cursor

namespace Walk

/-- What a caller asks of a walk. -/
inductive Step where
  | current
  | bump
  | sourceSize
  | slice (start stop : Nat)
  | sliceFrom (start : Nat)
  | eatWhile (p : Char → Bool)
  | eatBlanks
  | eatPast (goal : UInt8)
  | save
  | load (i : Nat)

/-- What a walk answers. -/
inductive Answer where
  | done
  | char (c : Option Char)
  | truth (b : Bool)
  | number (n : Nat)
  | text (t : String)
  | fault (e : Fault)

/-- The walk that starts at a cursor. -/
def ofCursor (c : Cursor) : Walk := ⟨c, []⟩

/-- One step of a walk: its answer, and the walk after it. -/
def step (w : Walk) : Step → Answer × Walk
  | .current => (.char w.cursor.current, w)
  | .bump =>
    match w.cursor.bump with
    | some (c, cursor) => (.char (some c), { w with cursor })
    | none => (.char none, w)
  | .sourceSize => (.number w.cursor.sourceSize, w)
  | .slice start stop =>
    match w.cursor.slice start stop with
    | .ok text => (.text text, w)
    | .error e => (.fault e, w)
  | .sliceFrom start =>
    match w.cursor.sliceFrom start with
    | .ok text => (.text text, w)
    | .error e => (.fault e, w)
  | .eatWhile p =>
    let (n, cursor) := w.cursor.eatWhile p
    (.number n, { w with cursor })
  | .eatBlanks =>
    let (n, cursor) := w.cursor.eatBlanks
    (.number n, { w with cursor })
  | .eatPast goal =>
    match w.cursor.eatPast goal with
    | .ok (found, cursor) => (.truth found, { w with cursor })
    | .error e => (.fault e, w)
  | .save => (.done, { w with saved := w.saved ++ [w.cursor] })
  | .load i =>
    match w.saved[i]? with
    | some cursor => (.done, { w with cursor })
    | none => (.done, w)

/-- The walk after several steps. -/
def run (w : Walk) (steps : List Step) : Walk := steps.foldl (fun w step => (w.step step).2) w

/-- The answers to several steps, each with the walk after it. -/
def trace (w : Walk) : List Step → List (Answer × Walk)
  | [] => []
  | first :: more =>
    let (answer, w') := w.step first
    (answer, w') :: w'.trace more

end Walk

end FortranTokens
