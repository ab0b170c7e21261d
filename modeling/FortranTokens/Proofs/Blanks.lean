import FortranTokens.Proofs.Engine
import FortranTokens.Proofs.Reading

/-!
# Blanks one by one

Blanks are skipped in one pass, which counts them, or by repeating the parser for one blank, which
goes back to a mark at the end.  Both go on from the same places: a blank is one step of the pass
(`State.skipBlanks_of_blank`) and one round of the repetition (`Parser.space_of_blank`), and where no
blank stands the pass is over and a further round is absent.  So the pass is a sequence of rounds
(`Parser.rounds_space`), as many as it counts, and all three ways to skip blanks end in the same
state (`Grammar.blanks_skipped_one_by_one`).
-/

namespace FortranTokens

open CharClass (isBlank)

variable {s : State} {c : Char} {cs : List Char}

/-- A blank is one byte, so that the number of blanks skipped is a distance and fits into a word. -/
theorem State.skipBlanks_lt (s : State) : s.skipBlanks.1 < UInt32.size := by
  have hlt : s.skipBlanks.2.location < UInt32.size := s.skipBlanks.2.location_lt
  have hdistance : s.skipBlanks.2.location = s.location + s.skipBlanks.1 := by
    rw [s.skipBlanks_apply]
    exact s.location_advance_blanks
  omega

namespace Parser

theorem space_of_blank (h : s.rest = c :: cs) (hc : isBlank c) :
    space s = (.present (), s.advance 1) := by
  unfold space
  rw [peek?_bind, h, List.head?_cons, Option.filter_some_pos hc]
  exact bind_of_present (next?_of_cons h) _

theorem space_of_not_blank (h : ∀ c ∈ s.rest.head?, ¬isBlank c) : space s = (.absent, s) := by
  have hnone : s.rest.head?.filter isBlank = none := Option.filter_eq_none_iff.2 h
  unfold space
  rw [peek?_bind, hnone]
  rfl

/-- The pass leads over one round for each blank that it counts. -/
theorem rounds_space (s : State) :
    Rounds space s (List.replicate s.skipBlanks.1 ()) s.skipBlanks.2 := by
  -- By induction on the unread text: past a blank both the pass and the repetition start anew.
  induction hrest : s.rest generalizing s with
  | nil =>
    have hnone : ∀ c ∈ s.rest.head?, ¬isBlank c := by simp [hrest]
    rw [State.skipBlanks_of_not_blank hnone]
    exact .done s
  | cons c cs ih =>
    by_cases hc : isBlank c
    · have honward : s.location < (s.advance 1).location :=
        State.location_lt_of_next (State.next_of_cons hrest)
      rw [State.skipBlanks_of_blank hrest hc, List.replicate_succ]
      exact .more (space_of_blank hrest hc) honward
        (ih (s.advance 1) (State.rest_advance_of_cons hrest))
    · have hnone : ∀ d ∈ s.rest.head?, ¬isBlank d := by simpa [hrest] using hc
      rw [State.skipBlanks_of_not_blank hnone]
      exact .done s

theorem space_after_skipBlanks (s : State) :
    space s.skipBlanks.2 = (.absent, s.skipBlanks.2) := by
  rw [s.skipBlanks_apply]
  exact space_of_not_blank (not_blank_after_blanks s)

end Parser

namespace Grammar

open FortranTokens.Parser

/-- Skipping blanks in one pass is skipping them one by one: both are present and end in the same
state.  So does collecting them, and the number that the pass gives is that of the values. -/
theorem blanks_skipped_one_by_one (s : State) :
    ∃ items e, blanks.run s = (.present (), e) ∧ (skipMany space).run s = (.present (), e) ∧
      (many space).run s = (.present items, e) ∧ s.skipBlanks = (items.length, e) ∧
      items.length < UInt32.size := by
  have hspace : Framed Parser.space := space.framed_run
  have hrounds := rounds_space s
  have hlast := space_after_skipBlanks s
  refine ⟨List.replicate s.skipBlanks.1 (), s.skipBlanks.2, rfl,
    hspace.skipMany_of_rounds hrounds hlast, hspace.many_of_rounds hrounds hlast, ?_, ?_⟩
  · rw [List.length_replicate]
  · rw [List.length_replicate]
    exact s.skipBlanks_lt

/-- A newline is no blank. -/
example :
    let s := State.start [' ', '\t', '\n', ' '] {} (by decide)
    ((many space).run s).1 = .present [(), ()] ∧ s.skipBlanks.1 = 2 ∧
      s.skipBlanks.2.rest = ['\n', ' '] := by
  decide +kernel

end Grammar

end FortranTokens
