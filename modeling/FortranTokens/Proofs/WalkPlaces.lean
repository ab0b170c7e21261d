import FortranTokens.Cursor.Walk
import FortranTokens.Proofs.ByteSearch
import FortranTokens.Proofs.Reading

/-!
# Where a walk stands

A walk reads, skips, searches, saves and returns in any order, and always stands between two
characters of the source it began in (`Walk.In`).  From there its steps depend on the unread text
alone: `Walk.Reads` says what each of them answers and how many bytes it moves.  The move after a
search is the only one that is not counted in characters.
-/

namespace FortranTokens

open Text (byteSize)

namespace Cursor

variable {c : Cursor}

theorem source_of_bump {d : Cursor} {ch : Char} (h : c.bump = some (ch, d)) :
    d.source = c.source := (ahead_of_bump h).source_eq

theorem source_eatWhile (p : Char → Bool) (c : Cursor) : (c.eatWhile p).2.source = c.source :=
  (ahead_eatWhile p c).source_eq

theorem source_of_eatPast {goal : UInt8} {d : Cursor} {found : Bool}
    (h : c.eatPast goal = .ok (found, d)) : d.source = c.source := (ahead_of_eatPast h).source_eq

theorem current_eq_none_iff : c.current = none ↔ c.rest = [] := List.head?_eq_none_iff

/-- At the end no byte is left, and before it a character of one byte at least. -/
theorem current_eq_none_iff_offset : c.current = none ↔ c.offset = byteSize c.source := by
  rw [current_eq_none_iff, offset_eq, source, Text.byteSize_append, Text.byteSize_reverse]
  constructor
  · intro h
    rw [h, Text.byteSize_nil, Nat.add_zero]
  · intro h
    exact Text.eq_nil_of_byteSize_eq_zero (by omega)

theorem sourceSize_eq_byteSize (c : Cursor) : c.sourceSize = byteSize c.source := by
  rw [sourceSize_eq, source, Text.byteSize_append, Text.byteSize_reverse]

theorem isEof_iff : c.isEof ↔ c.current = none := by
  rw [current_eq_none_iff_offset, ← sourceSize_eq_byteSize]
  have hle := c.offset_le_sourceSize
  show decide (c.size ≤ c.pos) = true ↔ _
  rw [decide_eq_true_iff, UInt32.le_iff_toNat_le]
  show c.sourceSize ≤ c.offset ↔ _
  omega

end Cursor

namespace Walk

variable {source : List Char} {w : Walk}

/-! ## All places are in one source -/

/-- The walk and all its saved copies stand in the source. -/
structure In (source : List Char) (w : Walk) : Prop where
  cursor : w.cursor.source = source
  saved : ∀ c ∈ w.saved, c.source = source

theorem In.move (h : In source w) {c : Cursor} (hc : c.source = w.cursor.source) :
    In source { w with cursor := c } :=
  ⟨hc.trans h.cursor, h.saved⟩

theorem In.step (h : In source w) (step : Step) : In source (w.step step).2 := by
  cases step with
  | current => exact h
  | bump =>
    simp only [Walk.step]
    split
    · exact h.move (Cursor.source_of_bump (by assumption))
    · exact h
  | sourceSize => exact h
  | slice start stop =>
    simp only [Walk.step]
    split <;> exact h
  | sliceFrom start =>
    simp only [Walk.step]
    split <;> exact h
  | eatWhile p => exact h.move (Cursor.source_eatWhile p _)
  | eatBlanks => exact h.move (Cursor.source_eatWhile _ _)
  | eatPast goal =>
    simp only [Walk.step]
    split
    · exact h.move (Cursor.source_of_eatPast (by assumption))
    · exact h
  | save =>
    refine ⟨h.cursor, fun c hc => ?_⟩
    rcases List.mem_append.1 hc with hc | hc
    · exact h.saved c hc
    · exact List.mem_singleton.1 hc ▸ h.cursor
  | load i =>
    simp only [Walk.step]
    split
    · rename_i c hi
      exact h.move ((h.saved c (List.mem_of_getElem? hi)).trans h.cursor.symm)
    · exact h

theorem In.run (h : In source w) (steps : List Step) : In source (w.run steps) := by
  induction steps generalizing w with
  | nil => exact h
  | cons step steps ih => exact ih (h.step step)

/-! ## What a step does to the unread text -/

/-- The unread text decides what the steps of the walk answer and how many bytes they move. -/
structure Reads (w : Walk) (unread : List Char) : Prop where
  /-- Looking at the next character does not move. -/
  current : w.step .current = (.char unread.head?, w)
  /-- Reading a character moves by the bytes of this character. -/
  bump : ∃ c, w.step .bump = (.char unread.head?, { w with cursor := c }) ∧
    c.offset = w.cursor.offset + (unread.head?.map Char.utf8Size).getD 0
  /-- A stretch is the longest one, and its characters are counted. -/
  eatWhile (p : Char → Bool) : ∃ c text after,
    w.step (.eatWhile p) = (.number text.length, { w with cursor := c }) ∧
      c.offset = w.cursor.offset + byteSize text ∧
      unread = text ++ after ∧ (∀ d ∈ text, p d) ∧ ∀ d ∈ after.head?, ¬p d
  /-- Blanks are a stretch. -/
  eatBlanks : w.step .eatBlanks = w.step (.eatWhile CharClass.isBlank)
  /-- A search moves to just past the first byte that is the goal, or to the end. -/
  eatPast (goal : UInt8) (hgoal : goal < 128) : ∃ c,
    w.step (.eatPast goal) =
        (.truth (Text.findByte? goal unread).isSome, { w with cursor := c }) ∧
      c.offset = ((Text.findByte? goal unread).map (w.cursor.offset + · + 1)).getD
        (byteSize w.cursor.source)

theorem reads_rest (w : Walk) : Reads w w.cursor.rest where
  current := rfl
  bump := by
    unfold step
    rcases hrest : w.cursor.rest with _ | ⟨ch, cs⟩
    · rw [Cursor.bump_eq_none_iff.2 hrest]
      exact ⟨w.cursor, rfl, rfl⟩
    · rw [Cursor.bump_of_cons hrest]
      refine ⟨_, rfl, ?_⟩
      rw [Cursor.offset_advance, hrest]
      simp
  eatWhile p := by
    refine ⟨w.cursor.advance (w.cursor.rest.takeWhile p).length, w.cursor.rest.takeWhile p,
      w.cursor.rest.dropWhile p, ?_, ?_,
      List.takeWhile_append_dropWhile.symm, fun d hd => List.mem_takeWhile_imp hd,
      Parser.not_head_dropWhile p _⟩
    · simp only [step, Cursor.eatWhile_apply]
    · rw [Cursor.offset_advance, ← List.prefix_iff_eq_take.1 (List.takeWhile_prefix p)]
  eatBlanks := rfl
  eatPast goal hgoal := by
    obtain ⟨c, hrun, hoffset⟩ := Cursor.eatPast_of_ascii hgoal w.cursor
    refine ⟨c, ?_, ?_⟩
    · simp only [step, hrun]
    · rw [hoffset, Cursor.sourceSize_eq_byteSize]

/-- Whatever a walk has done since it began at `c`, it stands between two characters of the source,
it is at the end exactly when no character is left, and its next step depends on the unread text
as `Reads` says. -/
theorem run_stands (c : Cursor) (steps : List Step) :
    let w := (ofCursor c).run steps
    ∃ front unread, c.source = front ++ unread ∧ w.cursor.offset = byteSize front ∧
      w.cursor.offset ≤ byteSize c.source ∧
      (w.cursor.isEof ↔ w.cursor.current = none) ∧
      (w.cursor.current = none ↔ w.cursor.offset = byteSize c.source) ∧
      w.cursor.source = c.source ∧ w.Reads unread := by
  intro w
  have hstart : In c.source (ofCursor c) := ⟨rfl, List.forall_mem_nil _⟩
  have hsource : w.cursor.source = c.source := (hstart.run steps).cursor
  have hend := Cursor.current_eq_none_iff_offset (c := w.cursor)
  rw [hsource] at hend
  refine ⟨w.cursor.past.reverse, w.cursor.rest, hsource.symm, ?_, ?_, Cursor.isEof_iff, hend,
    hsource, w.reads_rest⟩
  · rw [Cursor.offset_eq, Text.byteSize_reverse]
  · rw [← hsource, ← Cursor.sourceSize_eq_byteSize]
    exact w.cursor.offset_le_sourceSize

end Walk

end FortranTokens
