import FortranTokens.Grammar.Idiom

/-!
# Sessions

A session is a caller at work on one scan state.  The caller keeps the marks it took and the
messages it detached, and refers to them by their numbers, counted from zero; a mark may be used
again and again, and also to move forward.  A number that was never given out changes nothing.
-/

namespace FortranTokens

/-- A scan state, with the marks taken so far and the messages detached so far. -/
structure Session where
  state : State
  marks : List Mark
  taken : List (List Message)

namespace Session

/-- What a caller asks of a session. -/
inductive Step (α : Type) : Type 1 where
  | next
  | peek
  | atEnd
  | skipBlanks
  | skipPast (goal : UInt8)
  | textFrom (start : Nat)
  | say (offset : Nat) (kind : Kind)
  | mark
  | rollback (i : Nat)
  | take (i : Nat)
  | restore (i : Nat)
  | parse (g : Grammar α)
  | options

/-- What a session answers. -/
inductive Answer (α : Type) where
  | done
  | char (c : Option Char)
  | truth (b : Bool)
  | number (n : Nat)
  | text (t : String)
  | messages (ms : List Message)
  | reply (r : Reply α)
  | options (o : Options)
  | fault (e : Fault)

variable {α : Type}

/-- The session at the start of a source. -/
def ofState (s : State) : Session := ⟨s, [], []⟩

/-- One step of a session: its answer, and the session after it. -/
def step (s : Session) : Step α → Answer α × Session
  | .next =>
    let (c, state) := s.state.next
    (.char c, { s with state })
  | .peek => (.char s.state.peek, s)
  | .atEnd => (.truth s.state.atEnd, s)
  | .skipBlanks =>
    let (n, state) := s.state.skipBlanks
    (.number n, { s with state })
  | .skipPast goal =>
    match s.state.skipPast goal with
    | .ok (found, state) => (.truth found, { s with state })
    | .error e => (.fault e, s)
  | .textFrom start =>
    match s.state.textFrom start with
    | .ok text => (.text text, s)
    | .error e => (.fault e, s)
  | .say offset kind => (.done, { s with state := s.state.say offset kind })
  | .mark =>
    let m := s.state.mark
    (.number m.location, { s with marks := s.marks ++ [m] })
  | .rollback i =>
    match s.marks[i]? with
    | some m => (.done, { s with state := s.state.rollback m })
    | none => (.done, s)
  | .take i =>
    match s.marks[i]? with
    | some m =>
      let (ms, state) := s.state.takeSince m
      (.messages ms, { s with state, taken := s.taken ++ [ms] })
    | none => (.done, s)
  | .restore i =>
    match s.taken[i]? with
    | some ms => (.done, { s with state := s.state.restore ms })
    | none => (.done, s)
  | .parse g =>
    let (r, state) := g.run s.state
    (.reply r, { s with state })
  | .options => (.options s.state.options, s)

/-- The session after several steps. -/
def run (s : Session) (steps : List (Step α)) : Session :=
  steps.foldl (fun s step => (s.step step).2) s

/-- The answers to several steps, each with the session after it. -/
def trace (s : Session) : List (Step α) → List (Answer α × Session)
  | [] => []
  | first :: more =>
    let (answer, s') := s.step first
    (answer, s') :: s'.trace more

end Session

end FortranTokens
