import FortranTokens.Proofs.LiteralReading
import FortranTokens.Render

/-!
# Quoted literals read back

Each character of a text is written as one unit that stands for it (`isUnit_written`), whatever
text comes next: an octal escape has all its three digits, so that it takes no digit of the next
character.  Hence the text is read back, unless it needs an escape where the mode has none
(`quotedLiteral_quoted`).
-/

namespace FortranTokens

open CharClass LiteralText LiteralUnit

/-! ## The units that a text is written as -/

namespace Render

variable {o : Options} {quote c : Char}

/-- The unit that a character is written as. -/
def written (quote : Char) (o : Options) (c : Char) : LiteralUnit :=
  ⟨quotedChar quote o c, c, false⟩

theorem mem_controls_of_controlLetter? {letter : Char} (h : controlLetter? c = some letter) :
    (letter, c) ∈ controls := by
  unfold controlLetter? at h
  split at h <;> cases h <;> decide

theorem toNat_lt_of_isControl (h : isControl c) : c.toNat < 128 := by
  simp only [isControl, Bool.or_eq_true, decide_eq_true_eq, beq_iff_eq] at h
  rcases h with h | rfl
  · have h : c.toNat < 32 := h
    omega
  · decide

theorem denoted_octalDigits {n : Nat} (h : n < 512) : denoted 8 (octalDigits n) = n := by
  unfold octalDigits
  simp only [denoted_cons, denoted_nil, List.length_cons, List.length_nil]
  rw [digitValue_digitChar _ (by omega), digitValue_digitChar _ (by omega),
    digitValue_digitChar _ (by omega)]
  omega

/-- The three digits are as many as an escape can have, so that it ends before any text. -/
theorem escape_octalDigits (after : List Char) (h : c.toNat < 256) :
    Escape (octalDigits c.toNat) c false after := by
  have hfirst : digitValue (Nat.digitChar (c.toNat / 64 % 8)) ≤ 3 := by
    rw [digitValue_digitChar _ (by omega)]
    omega
  refine .octal (isOctalDigit_digitChar _ (by omega)) ?_ (denoted_octalDigits (by omega)).symm
  rw [if_pos hfirst]
  refine ⟨?_, Nat.le_refl 2, fun h => absurd h (Nat.lt_irrefl 2)⟩
  intro d hd
  simp only [List.mem_cons, List.not_mem_nil, or_false] at hd
  rcases hd with rfl | rfl
  · exact isOctalDigit_digitChar _ (by omega)
  · exact isOctalDigit_digitChar _ (by omega)

theorem isUnit_written (after : List Char) (h : o.escapes ∨ c ≠ '\n') :
    IsUnit o quote (written quote o c) after := by
  unfold written quotedChar
  by_cases hquote : c = quote
  · rw [if_pos hquote, hquote]
    exact .doubled
  rw [if_neg hquote]
  by_cases ho : o.escapes
  · rw [if_neg (not_not.2 ho)]
    by_cases hbackslash : c = '\\'
    · rw [if_pos hbackslash, hbackslash]
      exact .escape ho (.itself (by decide))
    rw [if_neg hbackslash]
    rcases hletter : controlLetter? c with _ | letter
    · by_cases hcontrol : isControl c
      · have hlt : c.toNat < 256 := Nat.lt_trans (toNat_lt_of_isControl hcontrol) (by decide)
        simp only [if_pos hcontrol]
        exact .escape ho (escape_octalDigits after hlt)
      · simp only [if_neg hcontrol]
        refine .plain hquote ?_ fun h => hbackslash h.1
        rintro rfl
        exact absurd hletter (by decide)
    · exact .escape ho (.control (mem_controls_of_controlLetter? hletter))
  · rw [if_pos ho]
    exact .plain hquote (h.resolve_left ho) fun h => ho h.2

/-- By induction on the text; the units of the rest are the text that follows the first one. -/
theorem units_written {text : List Char} (after : List Char) (h : o.escapes ∨ '\n' ∉ text) :
    Units o quote (text.flatMap (quotedChar quote o) ++ after) (text.map (written quote o))
      after := by
  induction text with
  | nil => exact .done after
  | cons c text ih =>
    have hc : o.escapes ∨ c ≠ '\n' := h.imp_right fun h => (List.ne_of_not_mem_cons h).symm
    have htext : o.escapes ∨ '\n' ∉ text := h.imp_right List.not_mem_of_not_mem_cons
    rw [List.flatMap_cons, List.append_assoc]
    exact .more (isUnit_written _ hc) (ih htext)

theorem textOf_written (text : List Char) :
    textOf (text.map (written quote o)) = text.flatMap (quotedChar quote o) := by
  unfold textOf
  rw [List.flatMap_map]
  rfl

theorem messagesOf_written (offset : Nat) (text : List Char) :
    messagesOf offset (text.map (written quote o)) = [] := by
  induction text generalizing offset with
  | nil => rfl
  | cons c text ih => exact ih _

theorem ch_written (text : List Char) : (text.map (written quote o)).map LiteralUnit.ch = text := by
  rw [List.map_map]
  exact List.map_id text

end Render

namespace Parser

variable {s : State} {quote : Char} {text after : List Char}

/-- A quote is no blank, so that none is skipped before it. -/
theorem blanks_before_quote {body : List Char} (hquote : quote ∈ quotes)
    (hrest : s.rest = quote :: body) :
    s.rest.takeWhile isBlank = [] ∧ s.rest.dropWhile isBlank = quote :: body := by
  have hblank : ¬isBlank quote := by
    rcases mem_quotes_iff.1 hquote with rfl | rfl <;> decide
  rw [hrest]
  exact ⟨List.takeWhile_cons_of_neg hblank, List.dropWhile_cons_of_neg hblank⟩

/-- What is written up to a newline that no escape stands for is read, and then the literal breaks
off. -/
theorem quotedLiteral_of_written_newline (hquote : quote ∈ quotes) (ho : ¬s.options.escapes)
    (hnewline : '\n' ∈ text)
    (hrest : s.rest = quote :: (text.flatMap (Render.quotedChar quote s.options) ++ after)) :
    ∃ n, quotedLiteral s =
      (.absent, (s.advance n).report [.ofOffset (s.location + 1) .unclosedCharConstant]) := by
  obtain ⟨hblanks, hbody⟩ := blanks_before_quote hquote hrest
  obtain ⟨front, back, rfl, hfront⟩ := List.eq_append_cons_of_mem hnewline
  have hchar : Render.quotedChar quote s.options '\n' = ['\n'] := by
    rcases mem_quotes_iff.1 hquote with rfl | rfl <;> simp [Render.quotedChar, ho]
  rw [List.flatMap_append, List.flatMap_cons, hchar, List.append_assoc] at hbody
  have h := quotedLiteral_of_unclosed hquote hbody (Render.units_written _ (.inr hfront))
    (.newline _)
  rw [Render.messagesOf_written, hblanks] at h
  exact ⟨_, h⟩

theorem quotedLiteral_of_written (hquote : quote ∈ quotes)
    (h : s.options.escapes ∨ '\n' ∉ text)
    (hrest : s.rest = quote :: (text.flatMap (Render.quotedChar quote s.options) ++ quote :: after))
    (hafter : after.head? ≠ some quote) :
    quotedLiteral s =
      (.present (String.ofList text),
        s.advance ((text.flatMap (Render.quotedChar quote s.options)).length + 2)) := by
  obtain ⟨hblanks, hbody⟩ := blanks_before_quote hquote hrest
  rw [quotedLiteral_of_closed hquote hbody (Render.units_written _ h) hafter, hblanks,
    Render.messagesOf_written, Render.textOf_written, Render.ch_written, State.report_nil,
    List.length_nil, Nat.zero_add]

theorem quotedLiteral_quoted (s : State) (t : String) (quote : Char) (r : List Char)
    (hquote : quote ∈ quotes)
    (hrest : s.rest = (Render.quoted t quote s.options).toList ++ r)
    (hr : r.head? ≠ some quote) :
    (s.options.escapes ∨ '\n' ∉ t.toList →
      let e := s.advance (Render.quoted t quote s.options).toList.length
      quotedLiteral s = (.present t, e) ∧ e.rest = r ∧ e.log = s.log) ∧
    (¬s.options.escapes ∧ '\n' ∈ t.toList →
      ∃ n, quotedLiteral s =
        (.absent, (s.advance n).report [.ofOffset (s.location + 1) .unclosedCharConstant])) := by
  have htext : s.rest =
      quote :: (t.toList.flatMap (Render.quotedChar quote s.options) ++ quote :: r) := by
    rw [hrest]
    simp [Render.quoted]
  constructor
  · intro h e
    refine ⟨?_, State.rest_advance_of_append hrest, rfl⟩
    rw [quotedLiteral_of_written hquote h htext hr]
    simp [e, Render.quoted]
  · rintro ⟨ho, hnewline⟩
    exact quotedLiteral_of_written_newline hquote ho hnewline htext

/-- A doubled quote, a newline and an octal escape before a digit in one mode, and a newline that
breaks the literal off in the other. -/
theorem quoted_text_read_back :
    let s := State.start "'it''s\\n\\0017'8".toList { escapes := true } (by decide +kernel)
    let s' := State.start "\"a\"\"\nb\"".toList {} (by decide +kernel)
    s.rest = (Render.quoted "it's\n\x017" '\'' s.options).toList ++ ['8'] ∧
      quotedLiteral s = (.present "it's\n\x017", s.advance 14) ∧ (s.advance 14).rest = ['8'] ∧
      s'.rest = (Render.quoted "a\"\nb" '"' s'.options).toList ++ [] ∧
      ∃ n, quotedLiteral s' =
        (.absent, (s'.advance n).report [.ofOffset 1 .unclosedCharConstant]) := by
  intro s s'
  have hrest : s.rest = (Render.quoted "it's\n\x017" '\'' s.options).toList ++ ['8'] := by
    decide +kernel
  have hrest' : s'.rest = (Render.quoted "a\"\nb" '"' s'.options).toList ++ [] := by
    decide +kernel
  have hlength : (Render.quoted "it's\n\x017" '\'' s.options).toList.length = 14 := by
    decide +kernel
  have hlocation : s'.location = 0 := by
    decide +kernel
  obtain ⟨h, hback, -⟩ :=
    (quotedLiteral_quoted s _ _ _ (by decide) hrest (by decide)).1 (.inl rfl)
  have h' := (quotedLiteral_quoted s' _ _ _ (by decide) hrest' (by decide)).2
    ⟨by decide +kernel, by decide +kernel⟩
  rw [hlength] at h hback
  rw [hlocation] at h'
  exact ⟨hrest, h, hback, hrest', h'⟩

end Parser

end FortranTokens
