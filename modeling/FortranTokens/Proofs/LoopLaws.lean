import FortranTokens.Proofs.Engine
import FortranTokens.Proofs.Reading

/-!
# Laws of repetition

The repetitions differ in the values they collect and in whether their first run is an attempt, but
they go through the same rounds and end them alike: each of them ends in `lastRound` of the same
runs, also when a run reads nothing, breaks off or reports messages.  So any of them can be written
with the others (`Grammar.repetitions_agree`).
-/

namespace FortranTokens

namespace Parser

variable {α β : Type} {p : Parser α} {sep : Parser β}

/-- Separated items are an item, and then as many rounds of a separator and an item as there are. -/
theorem Framed.sepBy1_eq (hp : Framed p) (hsep : Framed sep) :
    Parser.sepBy1 p sep = do
      let a ← p
      let as ← Parser.many (sep >>= fun _ => p)
      return a :: as := by
  have hround : Framed (sep >>= fun _ => p) := hsep.bind fun _ => hp
  funext s
  rcases hs : p s with ⟨a | _ | e, t⟩
  · obtain ⟨as, u, h, hu⟩ := exists_rounds (sep >>= fun _ => p) t
    rw [hp.sepBy1_eq_lastRound hsep hs h hu, bind_of_present hs]
    show _ = ((fun as => a :: as) <$> Parser.many (sep >>= fun _ => p)) t
    rw [map_apply, hround.many_eq_lastRound h hu, lastRound_map]
  · rw [sepBy1_apply, hs, bind_of_absent hs]
  · rw [sepBy1_apply, bind_apply, hs]

/-- What is read as often as present is read once at least, or else not at all: its first run is an
attempt like the others. -/
theorem Framed.many_eq (hp : Framed p) :
    Parser.many p = (fun as => as.getD []) <$> Parser.optional (Parser.many1 p) := by
  funext s
  rw [map_apply, optional_apply, hp.many1.attempt_apply]
  by_cases hstop : Stops p s
  · rw [hp.many_eq_lastRound (.done s) hstop, many1_of_stops hstop]
    unfold lastRound
    rcases p s with ⟨a | _ | e, t⟩ <;> rfl
  · obtain ⟨a, t, hrun, honward⟩ := exists_onward_of_not_stops hstop
    obtain ⟨as, u, h, hu⟩ := exists_rounds p t
    have hrounds : Rounds p s (a :: as) u := .more hrun honward h
    rw [hp.many_eq_lastRound hrounds hu, hp.many1_eq_lastRound hrounds hu]
    unfold lastRound
    rcases p u with ⟨b | _ | e, v⟩ <;> rfl

theorem Framed.skipMany_eq (hp : Framed p) :
    Parser.skipMany p = (fun _ => ()) <$> Parser.many p := by
  funext s
  obtain ⟨as, u, h, hu⟩ := exists_rounds p s
  rw [map_apply, hp.many_eq_lastRound h hu, hp.skipMany_eq_lastRound h hu, lastRound_map]

end Parser

namespace Grammar

open FortranTokens.Parser

variable {α β : Type}

/-- The repetitions agree in every run, in the reply and in the state it ends in. -/
theorem repetitions_agree (g : Grammar α) (sep : Grammar β) (s : State) :
    (sepBy1 g sep).run s =
        (map (fun items => items.1 :: items.2) (pair g (many (seqRight sep g)))).run s ∧
      (many g).run s = (map (fun items => items.getD []) (optional (many1 g))).run s ∧
      (skipMany g).run s = (map (fun _ => ()) (many g)).run s := by
  have hg : Framed g.run := g.framed_run
  have hsep : Framed sep.run := sep.framed_run
  refine ⟨?separated, congrFun hg.many_eq s, congrFun hg.skipMany_eq s⟩
  case separated =>
    calc (sepBy1 g sep).run s
        = (g.run >>= fun a => Parser.many (sep.run >>= fun _ => g.run) >>= fun as =>
            pure (a :: as)) s := congrFun (hg.sepBy1_eq hsep) s
      _ = ((g.run >>= fun a => Parser.many (sep.run >>= fun _ => g.run) >>= fun as =>
            pure (a, as)) >>= fun items => pure (items.1 :: items.2)) s := by
          simp only [bind_assoc]
          rfl

end Grammar

end FortranTokens
