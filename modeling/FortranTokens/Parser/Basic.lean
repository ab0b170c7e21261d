import FortranTokens.State

/-!
# Parsers

A parser reads from a scan state and ends in one of three ways: a value is present, the thing
looked for is absent, or a fault stops everything.  Absence is an ordinary answer and undoes
nothing: what was read stays read, and what was reported stays reported, unless a combinator goes
back to a mark.
-/

namespace FortranTokens

/-- The three ways in which a parser ends. -/
inductive Reply (α : Type) where
  /-- The thing looked for is there, and this is its value. -/
  | present (a : α)
  /-- The thing looked for is not there. -/
  | absent
  /-- A contract was broken, and everything stops. -/
  | fault (f : Fault)
  deriving DecidableEq, Repr

/-- Applies a function to a value that is present. -/
def Reply.map {α β : Type} (f : α → β) : Reply α → Reply β
  | .present a => .present (f a)
  | .absent => .absent
  | .fault e => .fault e

/-- A parser for values of type `α`: from a scan state to its reply and the state it leaves. -/
def Parser (α : Type) : Type := State → Reply α × State

namespace Parser

variable {α β : Type}

/-- Reads nothing; the value is present. -/
protected def pure (a : α) : Parser α := fun s => (.present a, s)

/-- Runs `p` and then, if its value is present, the parser that `f` makes of it. -/
protected def bind (p : Parser α) (f : α → Parser β) : Parser β := fun s =>
  match p s with
  | (.present a, t) => f a t
  | (.absent, t) => (.absent, t)
  | (.fault e, t) => (.fault e, t)

instance : Monad Parser where
  pure := Parser.pure
  bind := Parser.bind

@[simp] theorem pure_apply (a : α) (s : State) : (pure a : Parser α) s = (.present a, s) := rfl

theorem bind_apply (p : Parser α) (f : α → Parser β) (s : State) :
    (p >>= f) s =
      match p s with
      | (.present a, t) => f a t
      | (.absent, t) => (.absent, t)
      | (.fault e, t) => (.fault e, t) := rfl

@[simp] theorem map_apply (f : α → β) (p : Parser α) (s : State) :
    (f <$> p) s = ((p s).1.map f, (p s).2) := by
  show Parser.bind p (fun a => Parser.pure (f a)) s = _
  unfold Parser.bind
  rcases p s with ⟨_ | _ | _, t⟩ <;> rfl

/-! ## The steps that parsers are made of -/

/-- Reads nothing; the value is absent. -/
def absent : Parser α := fun s => (.absent, s)

/-- The byte offset of the next character. -/
def location : Parser Nat := fun s => (.present s.location, s)

/-- The reading modes. -/
def options : Parser Options := fun s => (.present s.options, s)

/-- Looks at the next character without reading it. -/
def peek? : Parser (Option Char) := fun s => (.present s.peek, s)

/-- Reads the next character, if there is one. -/
def next? : Parser (Option Char) := fun s =>
  let (c, t) := s.next
  (.present c, t)

/-- Reads the next character; absent at the end of the source. -/
def next : Parser Char := do
  match ← next? with
  | some c => return c
  | none => absent

/-- Reads the longest stretch of characters that satisfy `p`. -/
def readWhile (p : Char → Bool) : Parser (List Char) := fun s =>
  (.present (s.rest.takeWhile p), (s.skipWhile p).2)

/-- Skips spaces and tabs. -/
def skipBlanks : Parser Unit := fun s => (.present (), s.skipBlanks.2)

/-- The source text from an offset up to the next character. -/
def textFrom (start : Nat) : Parser String := fun s =>
  match s.textFrom start with
  | .ok text => (.present text, s)
  | .error e => (.fault e, s)

/-- Reports a message at an offset. -/
def say (offset : Nat) (kind : Kind) : Parser Unit := fun s => (.present (), s.say offset kind)

/-- Reports a message at an offset; the value is absent. -/
def failAt (offset : Nat) (kind : Kind) : Parser α := do
  say offset kind
  absent

/-- Runs `p` and, if its value is absent, reports a message at an offset. -/
def orSay (offset : Nat) (kind : Kind) (p : Parser α) : Parser α := fun s =>
  match p s with
  | (.present a, t) => (.present a, t)
  | (.absent, t) => (.absent, t.say offset kind)
  | (.fault e, t) => (.fault e, t)

/-- Runs `p` and, if its value is absent, reports a message where `p` started. -/
def expecting (kind : Kind) (p : Parser α) : Parser α := do
  let start ← location
  orSay start kind p

end Parser

end FortranTokens
