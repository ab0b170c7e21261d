import FortranTokens.Parser.Basic

/-!
# Going back and choosing

The combinators that undo what a parser did.  An attempt that is absent leaves no trace; looking
ahead never does.  Of two alternatives that are both absent, the one that read further keeps its
messages, and at equal places both keep theirs.
-/

namespace FortranTokens.Parser

variable {α β : Type}

/-- Runs `p`; if its value is absent, goes back to where it started and drops its messages. -/
def attempt (p : Parser α) : Parser α := fun s =>
  match p s with
  | (.present a, t) => (.present a, t)
  | (.absent, t) => (.absent, t.rollback s.mark)
  | (.fault e, t) => (.fault e, t)

/-- An attempt that is present did what its parser did. -/
theorem eq_of_attempt_present {p : Parser α} {s t : State} {a : α}
    (h : attempt p s = (.present a, t)) : p s = (.present a, t) := by
  unfold attempt at h
  rcases hp : p s with ⟨b | _ | e, u⟩ <;> simp_all

/-- An attempt whose value may be missing. -/
def optional (p : Parser α) : Parser (Option α) := fun s =>
  match attempt p s with
  | (.present a, t) => (.present (some a), t)
  | (.absent, t) => (.present none, t)
  | (.fault e, t) => (.fault e, t)

/-- Runs `p` and, if its value is absent, `q` from the same place.  If both are absent the place is
where `q` stopped, and the messages are those of the one that stopped further on, or those of `p`
followed by those of `q` if they stopped at the same place. -/
def orElse (p q : Parser α) : Parser α := fun s =>
  match p s with
  | (.present a, t) => (.present a, t)
  | (.fault e, t) => (.fault e, t)
  | (.absent, t) =>
    let (first, t') := t.takeSince s.mark
    match q (t'.rollback s.mark) with
    | (.present a, u) => (.present a, u)
    | (.fault e, u) => (.fault e, u)
    | (.absent, u) =>
      if u.location < t.location then
        (.absent, (u.takeSince s.mark).2.restore first)
      else if t.location = u.location then
        let (second, u') := u.takeSince s.mark
        (.absent, (u'.restore first).restore second)
      else (.absent, u)

/-- Present if `p` is, without reading anything or keeping a message. -/
def lookahead (p : Parser α) : Parser Unit := fun s =>
  match p s with
  | (.present _, t) => (.present (), t.rollback s.mark)
  | (.absent, t) => (.absent, t.rollback s.mark)
  | (.fault e, t) => (.fault e, t)

/-- Present if `p` is absent, without reading anything or keeping a message. -/
def notFollowedBy (p : Parser α) : Parser Unit := fun s =>
  match p s with
  | (.present _, t) => (.absent, t.rollback s.mark)
  | (.absent, t) => (.present (), t.rollback s.mark)
  | (.fault e, t) => (.fault e, t)

end FortranTokens.Parser
