import FortranTokens.Proofs.Engine
import FortranTokens.Session

/-!
# Marks over a session

A mark remembers a cursor and a number of messages, and no message.  Going back to it restores the
very messages there were because nothing that happens in between touches the first ones of them:
whoever reports adds at the end, and going back to a later mark, or detaching since one, cuts at no
smaller number.  `Session.Within` is the state of affairs since a mark was taken, every step keeps
it (`Within.step`), and it is all that going back needs (`Session.state_after_rollback`).

The cursor needs no such care, for the mark has a copy of it.  A later mark may well lead forward,
or its number be larger than that of the messages that are left.
-/

namespace FortranTokens.Session

open State (Frame)

variable {α : Type} {s : Session} {m : Nat} {o t : State}

/-- If the step goes back to a mark, or detaches the messages since one, it is the mark numbered `m`
or a later one. -/
def Step.From (m : Nat) : Step α → Prop
  | .rollback i => m ≤ i
  | .take i => m ≤ i
  | _ => True

theorem eq_of_getElem?_concat {β : Type} {xs : List β} {x y : β} {i : Nat} (hi : xs.length ≤ i)
    (h : (xs ++ [x])[i]? = some y) : y = x := by
  rw [List.getElem?_append_right hi] at h
  exact List.mem_singleton.1 (List.mem_of_getElem? h)

theorem state_step_rollback {i : Nat} {k : Mark} (h : s.marks[i]? = some k) :
    (s.step (.rollback i : Step α)).2.state = s.state.rollback k := by
  simp only [step, h]

/-- The session goes on from the state `o`, in which its mark numbered `m` was taken. -/
structure Within (m : Nat) (o : State) (s : Session) : Prop where
  mark : s.marks[m]? = some o.mark
  later : ∀ i k, m ≤ i → s.marks[i]? = some k → o.log.length ≤ k.logged
  log : o.log <+: s.state.log
  options : s.state.options = o.options

namespace Within

theorem lt_length (h : Within m o s) : m < s.marks.length :=
  (List.getElem?_eq_some_iff.1 h.mark).1

/-- What only reads on and reports is harmless, and so is what it detached before. -/
theorem of_frame (h : Within m o s) (ht : Frame s.state t) (taken : List (List Message)) :
    Within m o ⟨t, s.marks, taken⟩ :=
  ⟨h.mark, h.later, h.log.trans ht.log, ht.options.trans h.options⟩

/-- So is cutting the messages at a number that counts all of the first ones. -/
theorem of_cut (h : Within m o s) {i : Nat} {k : Mark} (hi : m ≤ i) (hk : s.marks[i]? = some k)
    (c : Cursor) (taken : List (List Message)) :
    Within m o ⟨⟨c, s.state.log.take k.logged, s.state.options⟩, s.marks, taken⟩ :=
  ⟨h.mark, h.later, List.prefix_take_iff.2 ⟨h.log, h.later i k hi hk⟩, h.options⟩

theorem of_mark (h : Within m o s) : Within m o { s with marks := s.marks ++ [s.state.mark] } := by
  refine ⟨?_, ?_, h.log, h.options⟩
  · show (s.marks ++ [s.state.mark])[m]? = _
    rw [List.getElem?_append_left h.lt_length, h.mark]
  · intro i k hi hk
    rcases Nat.lt_or_ge i s.marks.length with hlt | hge
    · exact h.later i k hi ((List.getElem?_append_left hlt).symm.trans hk)
    · rw [eq_of_getElem?_concat hge hk]
      exact h.log.length_le

theorem step (h : Within m o s) (step : Step α) (hstep : step.From m) :
    Within m o (s.step step).2 := by
  cases step with
  | next => exact h.of_frame s.state.frame_next _
  | peek => exact h
  | atEnd => exact h
  | skipBlanks => exact h.of_frame s.state.frame_skipBlanks _
  | skipPast goal =>
    simp only [Session.step]
    split
    · exact h.of_frame (State.frame_of_skipPast (by assumption)) _
    · exact h
  | textFrom start =>
    simp only [Session.step]
    split <;> exact h
  | say offset kind => exact h.of_frame (State.frame_say offset kind s.state) _
  | mark => exact h.of_mark
  | rollback i =>
    simp only [Session.step]
    split
    · exact h.of_cut hstep (by assumption) _ _
    · exact h
  | take i =>
    simp only [Session.step]
    split
    · exact h.of_cut hstep (by assumption) _ _
    · exact h
  | restore i =>
    simp only [Session.step]
    split
    · exact h.of_frame (.of_append s.state _) _
    · exact h
  | parse g => exact h.of_frame (g.framed_run s.state) _
  | options => exact h

theorem run (h : Within m o s) (steps : List (Step α)) (hsteps : ∀ step ∈ steps, step.From m) :
    Within m o (s.run steps) := by
  induction steps generalizing s with
  | nil => exact h
  | cons step steps ih =>
    obtain ⟨hstep, hsteps⟩ := List.forall_mem_cons.1 hsteps
    exact ih (h.step step hstep) hsteps

/-- Going back to the mark restores the state in which it was taken. -/
theorem rollback_eq (h : Within m o s) : s.state.rollback o.mark = o := by
  have hlog : s.state.log.take o.log.length = o.log := (List.prefix_iff_eq_take.1 h.log).symm
  show (⟨o.cursor, s.state.log.take o.log.length, s.state.options⟩ : State) = o
  rw [hlog, h.options]

end Within

/-- A mark that was just taken is the last one. -/
theorem within_of_mark (s : Session) :
    Within s.marks.length s.state { s with marks := s.marks ++ [s.state.mark] } := by
  refine ⟨List.getElem?_concat_length, ?_, List.prefix_rfl, rfl⟩
  intro i k hi hk
  rw [eq_of_getElem?_concat hi hk]
  exact Nat.le_refl _

/-- A session takes a mark, does whatever it likes that does not go behind it, and goes back: it is
in the state in which it took the mark.  Parsers for values of several types take part as parsers
for values of one type that has room for all of them (`Grammar.map`). -/
theorem state_after_rollback (s : Session) (steps : List (Step α))
    (hsteps : ∀ step ∈ steps, step.From s.marks.length) :
    (s.run (.mark :: steps ++ [.rollback s.marks.length])).state = s.state := by
  have hwithin : Within s.marks.length s.state ((s.step (.mark : Step α)).2.run steps) :=
    (within_of_mark s).run steps hsteps
  have hrun : s.run (.mark :: steps ++ [.rollback s.marks.length]) =
      (((s.step (.mark : Step α)).2.run steps).step (.rollback s.marks.length : Step α)).2 := by
    unfold run
    rw [List.foldl_append, List.foldl_cons]
    rfl
  rw [hrun, state_step_rollback hwithin.mark]
  exact hwithin.rollback_eq

/-- A session that goes back to its mark, on to a later one although that counts more messages than
are left, and takes up what it detached. -/
theorem session_restored :
    let start := (State.start ['a', 'b', 'c'] {} (by decide)).say 0 .expectedDigit
    let s : Session := ⟨start, [start.mark], []⟩
    let steps : List (Step Char) :=
      [.next, .say 1 .expectedLetter, .mark, .parse (.char 'x'), .rollback 1, .rollback 2, .take 2,
        .say 0 .endOfFile, .take 1, .restore 1, .restore 1]
    (∀ step ∈ steps, step.From s.marks.length) ∧
      (s.run (.mark :: steps ++ [.rollback s.marks.length])).state = s.state ∧
      (s.run (.mark :: steps)).state.location = 1 ∧
      (s.run (.mark :: steps)).state.log =
        [.ofOffset 0 .expectedDigit, .ofOffset 0 .endOfFile, .ofOffset 0 .endOfFile] := by
  intro start s steps
  have hsteps : ∀ step ∈ steps, step.From s.marks.length := by
    simp [steps, s, Step.From]
  refine ⟨hsteps, state_after_rollback s steps hsteps, ?_, ?_⟩ <;> decide +kernel

end FortranTokens.Session
