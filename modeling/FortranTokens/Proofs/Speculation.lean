import FortranTokens.Proofs.Engine

/-!
# Speculation leaves no trace

What going back means for grammars, whatever they are built from.  A run that is given up leaves
the very state it started from, with the same messages and not only the same number of them
(`given_up_leaves_no_trace`).  A choice is the first alternative, or else the second one run from
the same state, and of two absent ones the choice keeps what the one that stopped further on had
to say (`orElse_run_eq`).
-/

namespace FortranTokens.Grammar

open FortranTokens.Parser

variable {α β : Type}

/-! ## Runs that are given up -/

theorem given_up_leaves_no_trace (g : Grammar α) (sep : Grammar β) (s : State) :
    (∀ t, g.run s = (.absent, t) →
      (attempt g).run s = (.absent, s) ∧ (optional g).run s = (.present none, s) ∧
        (lookahead g).run s = (.absent, s) ∧ (notFollowedBy g).run s = (.present (), s)) ∧
    (∀ a t, g.run s = (.present a, t) →
      (lookahead g).run s = (.present (), s) ∧ (notFollowedBy g).run s = (.absent, s)) ∧
    (∀ t, (optional g).run s = (.present none, t) → t = s) ∧
    (∃ as u, Rounds g.run s as u ∧ Stops g.run u) ∧
    (∀ as u v, Rounds g.run s as u → g.run u = (.absent, v) →
      (many g).run s = (.present as, u) ∧ (skipMany g).run s = (.present (), u) ∧
        (as ≠ [] → (many1 g).run s = (.present as, u))) ∧
    (∀ a t as u v, g.run s = (.present a, t) → Rounds (seqRight sep g).run t as u →
      (seqRight sep g).run u = (.absent, v) →
        (sepBy1 g sep).run s = (.present (a :: as), u)) := by
  have hg : Framed g.run := g.framed_run
  refine ⟨?absent, ?present, ?none, exists_rounds g.run s, ?loop, ?list⟩
  case absent =>
    intro t h
    refine ⟨hg.attempt_of_absent h, ?_, ?_, ?_⟩
    · show Parser.optional g.run s = _
      rw [optional_apply, hg.attempt_of_absent h]
    · show Parser.lookahead g.run s = _
      rw [hg.lookahead_apply, h]
    · show Parser.notFollowedBy g.run s = _
      rw [hg.notFollowedBy_apply, h]
  case present =>
    intro a t h
    constructor
    · show Parser.lookahead g.run s = _
      rw [hg.lookahead_apply, h]
    · show Parser.notFollowedBy g.run s = _
      rw [hg.notFollowedBy_apply, h]
  case none =>
    intro t h
    exact hg.eq_of_optional_none h
  case loop =>
    intro as u v h hu
    refine ⟨hg.many_of_rounds h hu, hg.skipMany_of_rounds h hu, ?_⟩
    intro hne
    rcases as with _ | ⟨a, as⟩
    · exact absurd rfl hne
    · exact hg.many1_of_rounds h hu
  case list =>
    intro a t as u v hrun h hu
    exact hg.sepBy1_of_rounds sep.framed_run hrun h hu

/-! ## Ordered choice -/

theorem orElse_run_eq (g h : Grammar α) (s : State) :
    ∃ dg dh : List Message,
      (g.run s).2.log = s.log ++ dg ∧ (h.run s).2.log = s.log ++ dh ∧
      (orElse g h).run s =
        match g.run s, h.run s with
        | (.present a, t), _ => (.present a, t)
        | (.fault e, t), _ => (.fault e, t)
        | (.absent, _), (.present b, u) => (.present b, u)
        | (.absent, _), (.fault e, u) => (.fault e, u)
        | (.absent, t), (.absent, u) =>
          (.absent, { u with
            log := s.log ++
              if u.location < t.location then dg
              else if t.location < u.location then dh
              else dg ++ dh }) := by
  have hg : Framed g.run := g.framed_run
  have hh : Framed h.run := h.framed_run
  refine ⟨((g.run s).2.takeSince s.mark).1, ((h.run s).2.takeSince s.mark).1,
    (hg s).log_eq, (hh s).log_eq, ?_⟩
  show Parser.orElse g.run h.run s = _
  rw [hg.orElse_apply hh]
  rcases g.run s with ⟨a | _ | e, t⟩
  · rfl
  · rcases h.run s with ⟨b | _ | e, u⟩ <;> rfl
  · rfl

end FortranTokens.Grammar
