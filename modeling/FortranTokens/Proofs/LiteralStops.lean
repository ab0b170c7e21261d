import FortranTokens.Proofs.LiteralReading

/-!
# Where quoted literals stop

A literal that is not closed stops where no unit of its text begins, and there the text breaks off:
it ends, or a newline stands in it, bare or behind a backslash that introduces an escape.  The
unknown escapes before that place have been reported, and then once that the literal is unclosed.
No unit contains a newline, so that none is ever read, whether the literal is closed or not
(`quotedLiteral_eq_absent_iff_and_newline_unread`).
-/

namespace FortranTokens

open CharClass LiteralText LiteralUnit

/-! ## Newlines -/

namespace LiteralText

variable {o : Options} {quote ch : Char} {text after : List Char}

theorem newline_not_mem_of_forall {p : Char → Bool} (hp : ¬p '\n') (h : ∀ c ∈ text, p c) :
    '\n' ∉ text := fun hmem => hp (h '\n' hmem)

theorem newline_not_mem_of_escape {unknown : Bool} (h : Escape text ch unknown after) :
    '\n' ∉ text := by
  cases h with
  | @control letter _ _ h =>
    have hletters : ∀ p ∈ controls, '\n' ∉ [p.1] := by decide
    exact hletters (letter, ch) h
  | itself h =>
    simp only [List.mem_cons, List.not_mem_nil, or_false] at h
    rcases h with rfl | rfl | rfl <;> decide
  | octal hd hdigits hch =>
    exact newline_not_mem_of_forall (p := isOctalDigit) (by decide)
      (List.forall_mem_cons.2 ⟨hd, hdigits.all⟩)
  | @hexadecimal x _ digits _ hx hdigits hch =>
    have hmark : '\n' ≠ x := by
      simp only [List.mem_cons, List.not_mem_nil, or_false] at hx
      rcases hx with rfl | rfl <;> decide
    rw [List.mem_cons, not_or]
    exact ⟨hmark, newline_not_mem_of_forall (by decide) hdigits.all⟩
  | unknown h hnewline => simpa using hnewline.symm

theorem newline_not_mem_of_isUnit {u : LiteralUnit} (hquote : quote ≠ '\n')
    (h : IsUnit o quote u after) : '\n' ∉ u.text := by
  cases h with
  | doubled => simpa using hquote.symm
  | escape ho h => simpa using newline_not_mem_of_escape h
  | plain hne hnewline hbackslash => simpa using hnewline.symm

theorem newline_not_mem_textOf {us : List LiteralUnit} (hquote : quote ≠ '\n')
    (h : Units o quote text us after) : '\n' ∉ textOf us := by
  induction h with
  | done text => exact List.not_mem_nil
  | more first others ih =>
    rw [textOf_cons, List.mem_append, not_or]
    exact ⟨newline_not_mem_of_isUnit hquote first, ih⟩

end LiteralText

namespace Parser

variable {s : State} {quote : Char} {body after : List Char} {us : List LiteralUnit}

/-- The blanks, the opening quote and the units, which every literal is read as far as. -/
theorem rest_eq_of_units (hbody : s.rest.dropWhile isBlank = quote :: body)
    (hus : Units s.options quote body us after) :
    s.rest = (s.rest.takeWhile isBlank ++ quote :: textOf us) ++ after := by
  have hrest : s.rest = s.rest.takeWhile isBlank ++ quote :: body := by
    rw [← hbody, List.takeWhile_append_dropWhile]
  rwa [hus.text_eq, ← List.cons_append, ← List.append_assoc] at hrest

theorem newline_not_mem_take {front : List Char} {n : Nat} (hrest : s.rest = front ++ after)
    (hn : front.length = n) (hfront : '\n' ∉ front) : '\n' ∉ s.rest.take n := by
  rwa [hrest, ← hn, List.take_left]

/-- Nothing but blanks, units and the quotes around them is read. -/
theorem quotedLiteral_newline_unread (s : State) :
    ∃ n, (quotedLiteral s).2.cursor = s.cursor.advance n ∧ '\n' ∉ s.rest.take n := by
  have hblanks : '\n' ∉ s.rest.takeWhile isBlank :=
    newline_not_mem_of_forall (by decide) fun c hc => List.mem_takeWhile_imp hc
  rcases literal_text_cases s with hnone | ⟨quote, body, us, text, hquote, hbody, hus, hend⟩
  · rw [quotedLiteral_of_no_quote hnone]
    exact ⟨_, rfl, newline_not_mem_take List.takeWhile_append_dropWhile.symm rfl hblanks⟩
  have hne : '\n' ≠ quote := by
    rcases mem_quotes_iff.1 hquote with rfl | rfl <;> decide
  have hrest := rest_eq_of_units hbody hus
  have hfront : '\n' ∉ s.rest.takeWhile isBlank ++ quote :: textOf us := by
    simp [hblanks, hne, newline_not_mem_textOf hne.symm hus]
  rcases hend with ⟨after, rfl, hafter⟩ | hbreak
  · rw [quotedLiteral_of_closed hquote hbody hus hafter]
    rw [List.append_cons] at hrest
    refine ⟨_, rfl, newline_not_mem_take hrest (by simp [Nat.add_assoc]) ?_⟩
    rw [List.mem_append, not_or]
    exact ⟨hfront, mt List.mem_singleton.1 hne⟩
  · rw [quotedLiteral_of_unclosed hquote hbody hus hbreak]
    exact ⟨_, rfl, newline_not_mem_take hrest (by simp [Nat.add_assoc]) hfront⟩

/-- A literal is absent for two reasons: it is unclosed, which is reported after what its units have
to say and leaves it standing where its text breaks off, or no quote opens it, of which nothing is
said.  However it ends, it reads no newline. -/
theorem quotedLiteral_eq_absent_iff_and_newline_unread (s : State) :
    let blanks := (s.rest.takeWhile isBlank).length
    let start := s.location + blanks + 1
    (∀ e, quotedLiteral s = (.absent, e) ↔
      (∃ quote body us after,
        quote ∈ quotes ∧ s.rest.dropWhile isBlank = quote :: body ∧
        Units s.options quote body us after ∧ BreaksOff s.options after ∧ e.rest = after ∧
        e = (s.advance (blanks + (textOf us).length + 1)).report
          (messagesOf start us ++ [.ofOffset start .unclosedCharConstant])) ∨
      (∀ quote body, s.rest.dropWhile isBlank = quote :: body → quote ∉ quotes) ∧
        e = s.advance blanks) ∧
    ∃ n, (quotedLiteral s).2.cursor = s.cursor.advance n ∧ '\n' ∉ s.rest.take n := by
  intro blanks start
  refine ⟨fun e => ⟨fun h => ?absent, ?endings⟩, quotedLiteral_newline_unread s⟩
  case absent =>
    rcases literal_text_cases s with hnone | ⟨quote, body, us, text, hquote, hbody, hus, hend⟩
    · rw [quotedLiteral_of_no_quote hnone] at h
      cases h
      exact .inr ⟨hnone, rfl⟩
    rcases hend with ⟨after, rfl, hafter⟩ | hbreak
    · rw [quotedLiteral_of_closed hquote hbody hus hafter] at h
      cases h
    · rw [quotedLiteral_of_unclosed hquote hbody hus hbreak] at h
      cases h
      refine .inl ⟨quote, body, us, text, hquote, hbody, hus, hbreak, ?_, rfl⟩
      have hrest := rest_after_units (State.rest_advance_past_head hbody) hus []
      rwa [State.report_nil, State.advance_advance, Nat.add_right_comm] at hrest
  case endings =>
    rintro (⟨quote, body, us, after, hquote, hbody, hus, hbreak, -, rfl⟩ | ⟨hnone, rfl⟩)
    · exact quotedLiteral_of_unclosed hquote hbody hus hbreak
    · exact quotedLiteral_of_no_quote hnone

/-- An unknown escape is reported before the literal that breaks off behind it, at a backslash that
stays unread with its newline. -/
example :
    let s := State.start ['\'', 'a', '\\', 'q', '\\', '\n'] { escapes := true } (by decide)
    (quotedLiteral s).1 = .absent ∧ (quotedLiteral s).2.rest = ['\\', '\n'] ∧
      (quotedLiteral s).2.log =
        [.ofOffset 2 .badEscapedChar, .ofOffset 1 .unclosedCharConstant] := by
  decide +kernel

end Parser

end FortranTokens
