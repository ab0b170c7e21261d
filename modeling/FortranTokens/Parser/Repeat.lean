import FortranTokens.Parser.Choice

/-!
# Repetition

Each round of a repetition is an attempt, so that the round that ends it leaves no trace.  A round
that is present without moving on ends the repetition too, and its value is kept.  Offsets are
below `UInt32.size`, and every round but the last raises the offset: so every repetition ends.
-/

namespace FortranTokens.Parser

variable {α β : Type}

/-- Runs `p` as often as it is present and moves on, combining its values with `f`. -/
def foldMany (f : β → α → β) (b : β) (p : Parser α) (s : State) : Reply β × State :=
  match attempt p s with
  | (.present a, t) =>
    if s.location < t.location then foldMany f (f b a) p t else (.present (f b a), t)
  | (.absent, t) => (.present b, t)
  | (.fault e, t) => (.fault e, t)
termination_by UInt32.size - s.location
decreasing_by
  have := t.location_lt
  omega

/-- The values of `p`, as often as it is present. -/
def many (p : Parser α) : Parser (List α) :=
  List.reverse <$> (foldMany (fun as a => a :: as) [] p : Parser (List α))

/-- The values of `p`, as often as it is present but no more than `n` times. -/
def manyUpTo : Nat → Parser α → Parser (List α)
  | 0, _ => pure []
  | n + 1, p => do
    match ← optional p with
    | some a => return a :: (← manyUpTo n p)
    | none => return []

/-- The values of `p`, which has to be present once.  The first run is no attempt: if it is absent,
what it read and reported stays. -/
def many1 (p : Parser α) : Parser (List α) := do
  let start ← location
  let first ← p
  if start < (← location) then
    List.reverse <$> (foldMany (fun as a => a :: as) [first] p : Parser (List α))
  else return [first]

/-- Runs `p` as often as it is present, and drops its values. -/
def skipMany (p : Parser α) : Parser Unit := foldMany (fun _ _ => ()) () p

/-- Further items, each after a separator, in front of the items read so far, the latest first.  A
separator with no item after it is not read. -/
def separatedItems (p : Parser α) (sep : Parser β) (items : List α) (s : State) :
    Reply (List α) × State :=
  match (do let _ ← sep; p : Parser α) s with
  | (.present a, t) =>
    if s.location < t.location then separatedItems p sep (a :: items) t
    else (.present (a :: items), t)
  | (.absent, t) => (.present items, t.rollback s.mark)
  | (.fault e, t) => (.fault e, t)
termination_by UInt32.size - s.location
decreasing_by
  have := t.location_lt
  omega

/-- The values of `p`, one at least, with `sep` between them. -/
def sepBy1 (p : Parser α) (sep : Parser β) : Parser (List α) := do
  let first ← p
  List.reverse <$> (separatedItems p sep [first] : Parser (List α))

end FortranTokens.Parser
