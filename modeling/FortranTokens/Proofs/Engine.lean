import FortranTokens.Proofs.Rounds
import FortranTokens.Proofs.Rules

/-!
# The frame of the whole engine

Every grammar is `Framed` (`Grammar.framed_run`), for the steps are and the ways of combining parsers
pass it on.  `Grammar.run_frame` says in plain terms what that means for a run.
-/

namespace FortranTokens

namespace Parser

open State (Frame)

theorem Framed.closing (hchar : Framed literalChar) {quote : Char}
    (hquote : Framed (Parser.optional (char quote))) (start : Nat) (read : List Char) :
    Framed (closing quote start read) := by
  have hattempt : Framed (Parser.attempt literalChar) := hchar.attempt
  intro s
  fun_induction Parser.closing quote start read s with
  | case1 read s c t hrun hclose again u hnext ih =>
    exact (hattempt.of_eq hrun).trans ((hquote.of_eq hnext).trans ih)
  | case2 read s c t hrun hclose u hnext =>
    exact (hattempt.of_eq hrun).trans (hquote.of_eq hnext)
  | case3 read s c t hrun hclose u hnext =>
    exact (hattempt.of_eq hrun).trans (hquote.of_eq hnext)
  | case4 read s c t hrun hclose e u hnext =>
    exact (hattempt.of_eq hrun).trans (hquote.of_eq hnext)
  | case5 read s c t hrun hopen ih => exact (hattempt.of_eq hrun).trans ih
  | case6 read s t hrun => exact (hattempt.of_eq hrun).trans (State.frame_say _ _ _)
  | case7 read s e t hrun => exact hattempt.of_eq hrun

/-- A frame needs no origin. -/
theorem framed_rules : Rules Cursor.offset Cursor.offset fun _ p _ => Framed p where
  lt_iff _ _ := Iff.rfl
  pure _ a := framed_pure a
  absent _ := framed_absent
  options _ := framed_options
  peek? _ := framed_peek?
  next? _ := framed_next?
  readWhile _ c := framed_readWhile c
  skipBlanks _ := framed_skipBlanks
  endOfInput _ := framed_endOfInput
  say o k := framed_say o.offset k
  location_bind _ _ _ hf := fun s => hf s.cursor s
  bind hp hf := hp.bind hf
  orSay k hp := hp.orSay _ k
  attempt hp := hp.attempt
  optional hp := hp.optional
  lookahead hp := hp.lookahead
  notFollowedBy hp := hp.notFollowedBy
  orElse hp hq := hp.orElse hq
  foldMany f b hp := hp.foldMany f b
  separatedItems items hp hsep := hp.separatedItems hsep items
  closing _ read hchar hquote := hchar.closing hquote _ read

theorem framed_literalChar : Framed literalChar := fun s => framed_rules.literalChar s.cursor s

end Parser

namespace Grammar

open FortranTokens.Parser

variable {α : Type}

theorem framed_run (g : Grammar α) : Framed g.run := fun s =>
  framed_rules.run g (fun goal _ _ => framed_skipPast goal) s.cursor s

/-- However a run ends, the source and the reading modes are as before, the place reached is
between two characters, not before the start and not after the end of the source, and the messages
are the old ones and perhaps more. -/
theorem run_frame (g : Grammar α) (s : State) :
    let t := (g.run s).2
    t.cursor.source = s.cursor.source ∧ t.options = s.options ∧
      Text.IsBoundary s.cursor.source t.location ∧
      s.location ≤ t.location ∧ t.location ≤ s.cursor.sourceSize ∧ s.log <+: t.log := by
  intro t
  have h : State.Frame s t := g.framed_run s
  have hsource : t.cursor.source = s.cursor.source := h.cursor.source_eq
  refine ⟨hsource, h.options, ?_, h.location_le, ?_, h.log⟩
  · rw [← hsource]
    exact t.cursor.isBoundary_offset
  · rw [← h.cursor.sourceSize_eq]
    exact t.cursor.offset_le_sourceSize

end Grammar

end FortranTokens
