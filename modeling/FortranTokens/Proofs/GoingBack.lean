import FortranTokens.Proofs.Frame

/-!
# Going back and choosing, exactly

The combinators that undo a run, for parsers that are `Framed`.  Each of them is given here by an
equation in which the runs it tries all start from the same state and nothing is undone any more:
`Framed.attempt_apply`, `Framed.orElse_apply`, and the two for looking ahead.  The combinators are
framed in turn.
-/

namespace FortranTokens.Parser

open State (Frame)

variable {α β : Type} {p q : Parser α}

/-! ## Attempts -/

theorem Framed.attempt_apply (hp : Framed p) (s : State) :
    attempt p s =
      match p s with
      | (.present a, t) => (.present a, t)
      | (.absent, _) => (.absent, s)
      | (.fault e, t) => (.fault e, t) := by
  unfold Parser.attempt
  rcases h : p s with ⟨a | _ | e, t⟩
  · rfl
  · show (Reply.absent, t.rollback s.mark) = _
    rw [(hp.of_eq h).rollback]
  · rfl

theorem Framed.attempt (hp : Framed p) : Framed (attempt p) := by
  intro s
  rw [hp.attempt_apply]
  rcases h : p s with ⟨a | _ | e, t⟩
  · exact hp.of_eq h
  · exact .refl s
  · exact hp.of_eq h

theorem Framed.attempt_of_absent (hp : Framed p) {s t : State} (h : p s = (.absent, t)) :
    Parser.attempt p s = (.absent, s) := by
  rw [hp.attempt_apply, h]

theorem attempt_of_present {s t : State} {a : α} (h : p s = (.present a, t)) :
    attempt p s = (.present a, t) := by
  unfold attempt
  rw [h]

theorem optional_apply (p : Parser α) (s : State) :
    optional p s =
      match attempt p s with
      | (.present a, t) => (.present (some a), t)
      | (.absent, t) => (.present none, t)
      | (.fault e, t) => (.fault e, t) := rfl

theorem Framed.optional (hp : Framed p) : Framed (optional p) := by
  intro s
  rw [optional_apply]
  rcases h : Parser.attempt p s with ⟨a | _ | e, t⟩ <;> exact hp.attempt.of_eq h

/-- An optional part that yields nothing leaves no trace. -/
theorem Framed.eq_of_optional_none (hp : Framed p) {s t : State}
    (h : Parser.optional p s = (.present none, t)) : t = s := by
  rw [optional_apply, hp.attempt_apply] at h
  rcases hs : p s with ⟨a | _ | e, u⟩
  · rw [hs] at h
    cases h
  · rw [hs] at h
    cases h
    rfl
  · rw [hs] at h
    cases h

/-! ## Looking ahead -/

theorem Framed.lookahead_apply (hp : Framed p) (s : State) :
    lookahead p s =
      match p s with
      | (.present _, _) => (.present (), s)
      | (.absent, _) => (.absent, s)
      | (.fault e, t) => (.fault e, t) := by
  unfold Parser.lookahead
  rcases h : p s with ⟨a | _ | e, t⟩
  · show (Reply.present (), t.rollback s.mark) = _
    rw [(hp.of_eq h).rollback]
  · show (Reply.absent, t.rollback s.mark) = _
    rw [(hp.of_eq h).rollback]
  · rfl

theorem Framed.notFollowedBy_apply (hp : Framed p) (s : State) :
    notFollowedBy p s =
      match p s with
      | (.present _, _) => (.absent, s)
      | (.absent, _) => (.present (), s)
      | (.fault e, t) => (.fault e, t) := by
  unfold Parser.notFollowedBy
  rcases h : p s with ⟨a | _ | e, t⟩
  · show (Reply.absent, t.rollback s.mark) = _
    rw [(hp.of_eq h).rollback]
  · show (Reply.present (), t.rollback s.mark) = _
    rw [(hp.of_eq h).rollback]
  · rfl

theorem Framed.lookahead (hp : Framed p) : Framed (lookahead p) := by
  intro s
  rw [hp.lookahead_apply]
  rcases h : p s with ⟨a | _ | e, t⟩
  · exact .refl s
  · exact .refl s
  · exact hp.of_eq h

theorem Framed.notFollowedBy (hp : Framed p) : Framed (notFollowedBy p) := by
  intro s
  rw [hp.notFollowedBy_apply]
  rcases h : p s with ⟨a | _ | e, t⟩
  · exact .refl s
  · exact .refl s
  · exact hp.of_eq h

/-! ## Choice -/

/-- What is kept of the messages of two absent alternatives, which stopped at the offsets `m` and
`n`: those of the one that stopped further on, or those of both. -/
def keepFurther (m n : Nat) (first second : List Message) : List Message :=
  if n < m then first else if m < n then second else first ++ second

theorem keepFurther_eq (m n : Nat) (first second : List Message) :
    keepFurther m n first second =
      (if n ≤ m then first else []) ++ if m ≤ n then second else [] := by
  unfold keepFurther
  rcases Nat.lt_trichotomy m n with h | h | h
  · rw [if_neg (by omega), if_pos h, if_neg (by omega), if_pos (by omega)]
    rfl
  · rw [if_neg (by omega), if_neg (by omega), if_pos (by omega), if_pos (by omega)]
  · rw [if_pos h, if_pos (by omega), if_neg (by omega), List.append_nil]

theorem orElse_of_present {s t : State} {a : α} (h : p s = (.present a, t)) (q : Parser α) :
    orElse p q s = (.present a, t) := by
  unfold orElse
  rw [h]

theorem orElse_of_fault {s t : State} {e : Fault} (h : p s = (.fault e, t)) (q : Parser α) :
    orElse p q s = (.fault e, t) := by
  unfold orElse
  rw [h]

/-- The two absent runs of a choice both start from the state of the choice. -/
theorem Framed.orElse_of_absent (hp : Framed p) (hq : Framed q) {s t u : State}
    (ht : p s = (.absent, t)) (hu : q s = (.absent, u)) :
    Parser.orElse p q s =
      (.absent, { u with
        log := s.log ++ keepFurther t.location u.location (t.takeSince s.mark).1
          (u.takeSince s.mark).1 }) := by
  have hst : Frame s t := hp.of_eq ht
  have hsu : Frame s u := hq.of_eq hu
  unfold Parser.orElse
  simp only [ht, hst.rollback_takeSince, hu]
  by_cases hlt : u.location < t.location
  · rw [if_pos hlt, hsu.takeSince_snd]
    unfold keepFurther
    rw [if_pos hlt]
    rfl
  · rw [if_neg hlt]
    unfold keepFurther
    rw [if_neg hlt]
    by_cases heq : t.location = u.location
    · rw [if_pos heq, if_neg (by omega), hsu.takeSince_snd, ← List.append_assoc]
      rfl
    · rw [if_neg heq, if_pos (by omega), ← hsu.log_eq]

/-- Behind an absent alternative the other one runs as if it stood alone. -/
theorem Framed.orElse_of_not_absent (hp : Framed p) {s t u : State} {r : Reply α}
    (ht : p s = (.absent, t)) (hu : q s = (r, u)) (hr : r ≠ .absent) :
    Parser.orElse p q s = (r, u) := by
  unfold Parser.orElse
  simp only [ht, (hp.of_eq ht).rollback_takeSince, hu]
  rcases r with b | _ | e
  · rfl
  · exact absurd rfl hr
  · rfl

theorem Framed.orElse_apply (hp : Framed p) (hq : Framed q) (s : State) :
    Parser.orElse p q s =
      match p s, q s with
      | (.absent, t), (.absent, u) =>
        (.absent, { u with
          log := s.log ++ keepFurther t.location u.location (t.takeSince s.mark).1
            (u.takeSince s.mark).1 })
      | (.absent, _), r => r
      | r, _ => r := by
  rcases ht : p s with ⟨a | _ | e, t⟩
  · exact orElse_of_present ht q
  · rcases hu : q s with ⟨b | _ | e, u⟩
    · exact hp.orElse_of_not_absent ht hu nofun
    · exact hp.orElse_of_absent hq ht hu
    · exact hp.orElse_of_not_absent ht hu nofun
  · exact orElse_of_fault ht q

theorem Framed.orElse (hp : Framed p) (hq : Framed q) : Framed (orElse p q) := by
  intro s
  rw [hp.orElse_apply hq]
  rcases ht : p s with ⟨a | _ | e, t⟩
  · exact hp.of_eq ht
  · rcases hu : q s with ⟨b | _ | e, u⟩
    · exact hq.of_eq hu
    · exact ⟨(hq.of_eq hu).cursor, List.prefix_append _ _, (hq.of_eq hu).options⟩
    · exact hq.of_eq hu
  · exact hp.of_eq ht

end FortranTokens.Parser
