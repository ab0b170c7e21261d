import FortranTokens.Proofs.Engine
import FortranTokens.Proofs.Reading

/-!
# Laws of choice and of going back

What may be rewritten in a grammar.  Up to the messages of absent outcomes a choice is its first
alternative, or else the second one run from the same state: `orInstead` says this of outcomes,
`Agree` is equality up to those messages, and `Framed.orElse_agree` puts the two together.  On
outcomes the laws are plain: choices may be regrouped, and a common beginning may be factored out
(`Grammar.orElse_regrouped`).  The combinators that go back can be written with one another
(`Grammar.going_back_interchanged`).
-/

namespace FortranTokens

namespace Parser

variable {α β : Type} {p : Parser α} {q q' : Parser β} {s t u : State}

/-! ## Outcomes -/

/-- The same reply at the same place, and the same messages unless the reply is absent. -/
structure Agree (r r' : Reply α × State) : Prop where
  reply : r.1 = r'.1
  cursor : r.2.cursor = r'.2.cursor
  log : r.1 ≠ .absent → r.2.log = r'.2.log

namespace Agree

variable {r r' r'' : Reply α × State}

theorem refl (r : Reply α × State) : Agree r r := ⟨rfl, rfl, fun _ => rfl⟩

theorem symm (h : Agree r r') : Agree r' r :=
  ⟨h.reply.symm, h.cursor.symm, fun hr => (h.log (h.reply ▸ hr)).symm⟩

theorem trans (h : Agree r r') (h' : Agree r' r'') : Agree r r'' :=
  ⟨h.reply.trans h'.reply, h.cursor.trans h'.cursor,
    fun hr => (h.log hr).trans (h'.log (h.reply ▸ hr))⟩

instance : Trans (Agree (α := α)) Agree Agree := ⟨trans⟩

theorem of_absent (h : t.cursor = u.cursor) : Agree (α := α) (.absent, t) (.absent, u) :=
  ⟨rfl, h, fun hr => absurd rfl hr⟩

end Agree

/-- An outcome, or another one in its place if it is absent. -/
def orInstead (r r' : Reply α × State) : Reply α × State :=
  match r with
  | (.absent, _) => r'
  | r => r

theorem orInstead_assoc (r r' r'' : Reply α × State) :
    orInstead (orInstead r r') r'' = orInstead r (orInstead r' r'') := by
  rcases r with ⟨a | _ | e, t⟩ <;> rfl

theorem Agree.orInstead {r₁ r₁' r₂ r₂' : Reply α × State} (h₁ : Agree r₁ r₁') (h₂ : Agree r₂ r₂') :
    Agree (orInstead r₁ r₂) (orInstead r₁' r₂') := by
  obtain ⟨r₁, t₁⟩ := r₁
  obtain ⟨r₁', t₁'⟩ := r₁'
  obtain rfl : r₁ = r₁' := h₁.reply
  cases r₁ with
  | present a => exact h₁
  | absent => exact h₂
  | fault e => exact h₁

/-! ## Choice -/

theorem Framed.orElse_agree {p q : Parser α} (hp : Framed p) (hq : Framed q) (s : State) :
    Agree (Parser.orElse p q s) (orInstead (p s) (q s)) := by
  rw [hp.orElse_apply hq]
  rcases p s with ⟨a | _ | e, t⟩
  · exact .refl _
  · rcases q s with ⟨b | _ | e, u⟩
    · exact .refl _
    · exact .of_absent rfl
    · exact .refl _
  · exact .refl _

/-- A beginning that two outcomes have in common is run twice from the same state, and does the
same twice. -/
theorem Framed.orElse_bind_agree (hp : Framed p) (hq : Framed q) (hq' : Framed q') (s : State) :
    Agree (Parser.orElse (p >>= fun _ => q) (p >>= fun _ => q') s)
      ((p >>= fun _ => Parser.orElse q q') s) := by
  have hfirst : Framed (p >>= fun _ => q) := hp.bind fun _ => hq
  have hsecond : Framed (p >>= fun _ => q') := hp.bind fun _ => hq'
  refine (hfirst.orElse_agree hsecond s).trans ?_
  rw [bind_apply, bind_apply, bind_apply]
  rcases p s with ⟨a | _ | e, t⟩
  · exact (hq.orElse_agree hq' t).symm
  · exact .refl _
  · exact .refl _

/-! ## Going back -/

theorem Framed.lookahead_then_eq (hp : Framed p) :
    (Parser.lookahead p >>= fun _ => p) = Parser.attempt p := by
  funext s
  rw [bind_apply, hp.lookahead_apply, hp.attempt_apply]
  rcases hs : p s with ⟨a | _ | e, t⟩
  · exact hs
  · rfl
  · rfl

theorem Framed.lookahead_eq (hp : Framed p) :
    Parser.lookahead p = Parser.notFollowedBy (Parser.notFollowedBy p) := by
  funext s
  rw [hp.lookahead_apply, hp.notFollowedBy.notFollowedBy_apply, hp.notFollowedBy_apply]
  rcases p s with ⟨a | _ | e, t⟩ <;> rfl

theorem Framed.optional_eq (hp : Framed p) :
    Parser.optional p = Parser.orElse (some <$> p) (pure none) := by
  funext s
  rw [optional_apply, hp.attempt_apply, (hp.map some).orElse_apply (framed_pure none), map_apply]
  rcases p s with ⟨a | _ | e, t⟩ <;> rfl

/-- A choice goes back by itself, so that its first alternative need not. -/
theorem Framed.attempt_orElse_agree {p q : Parser α} (hp : Framed p) (hq : Framed q) (s : State) :
    Agree (Parser.orElse (Parser.attempt p) q s) (Parser.orElse p q s) := by
  have hattempt : orInstead (Parser.attempt p s) (q s) = orInstead (p s) (q s) := by
    rw [hp.attempt_apply]
    rcases p s with ⟨a | _ | e, t⟩ <;> rfl
  calc Agree (Parser.orElse (Parser.attempt p) q s) (orInstead (Parser.attempt p s) (q s)) :=
        hp.attempt.orElse_agree hq s
    _ = orInstead (p s) (q s) := hattempt
    Agree _ (Parser.orElse p q s) := (hp.orElse_agree hq s).symm

end Parser

namespace Grammar

open FortranTokens.Parser

variable {α β : Type}

theorem orElse_regrouped (f : Grammar β) (g h k : Grammar α) (s : State) :
    Agree ((orElse (orElse g h) k).run s) ((orElse g (orElse h k)).run s) ∧
      Agree ((orElse (seqRight f g) (seqRight f h)).run s)
        ((seqRight f (orElse g h)).run s) := by
  have hg : Framed g.run := g.framed_run
  have hh : Framed h.run := h.framed_run
  have hk : Framed k.run := k.framed_run
  constructor
  · calc Agree ((orElse (orElse g h) k).run s) (orInstead ((orElse g h).run s) (k.run s)) :=
          (hg.orElse hh).orElse_agree hk s
      Agree _ (orInstead (orInstead (g.run s) (h.run s)) (k.run s)) :=
          (hg.orElse_agree hh s).orInstead (.refl _)
      _ = orInstead (g.run s) (orInstead (h.run s) (k.run s)) := orInstead_assoc _ _ _
      Agree _ (orInstead (g.run s) ((orElse h k).run s)) :=
          (Agree.refl _).orInstead (hh.orElse_agree hk s).symm
      Agree _ ((orElse g (orElse h k)).run s) := (hg.orElse_agree (hh.orElse hk) s).symm
  · exact f.framed_run.orElse_bind_agree hg hh s

/-- The messages of absent outcomes may differ: here the common beginning is absent, and reports
that once for every time it is run. -/
example :
    let s := State.start ['x'] {} (by decide)
    ((orElse (seqRight digit letter) (seqRight digit digit)).run s).2.log =
        [.ofOffset 0 .expectedDigit, .ofOffset 0 .expectedDigit] ∧
      ((seqRight digit (orElse letter digit)).run s).2.log = [.ofOffset 0 .expectedDigit] := by
  decide +kernel

/-! ## Going back -/

theorem going_back_interchanged (g h : Grammar α) (s : State) :
    (seqRight (lookahead g) g).run s = (attempt g).run s ∧
      (lookahead g).run s = (notFollowedBy (notFollowedBy g)).run s ∧
      (optional g).run s = (orElse (map some g) (value none)).run s ∧
      Agree ((orElse (attempt g) h).run s) ((orElse g h).run s) := by
  have hg : Framed g.run := g.framed_run
  refine ⟨?again, ?twice, ?maybe, hg.attempt_orElse_agree h.framed_run s⟩
  case again => exact congrFun hg.lookahead_then_eq s
  case twice => exact congrFun hg.lookahead_eq s
  case maybe => exact congrFun hg.optional_eq s

end Grammar

end FortranTokens
