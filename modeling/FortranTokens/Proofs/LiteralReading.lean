import FortranTokens.Literal.Quoted
import FortranTokens.Proofs.Engine
import FortranTokens.Proofs.LiteralText
import FortranTokens.Proofs.Reading

/-!
# Reading quoted literals

The loop that decodes a literal takes one unit of its text at a time (`closing_of_unit`), and so all
of them up to their end (`closing_of_units`).  There it gives the characters of the units before a
closing quote, and is absent where the literal breaks off.  Every text ends in one of these two
ways, so a literal is read exactly where its text is one (`quotedLiteral_eq_present_iff`).
-/

namespace FortranTokens

open CharClass LiteralText LiteralUnit

/-! ## Codes -/

namespace LiteralChar

theorem control?_eq_some_iff {letter ch : Char} :
    control? letter = some ch ↔ (letter, ch) ∈ controls := by
  unfold control?
  split <;> simp_all [controls, eq_comm]

theorem control?_eq_none {c : Char} (h : ¬∃ control, (c, control) ∈ controls) :
    control? c = none :=
  Option.eq_none_iff_forall_ne_some.2 fun control hc => h ⟨control, control?_eq_some_iff.1 hc⟩

theorem control?_of_isOctalDigit {c : Char} (h : isOctalDigit c) : control? c = none := by
  have hletters : ∀ p ∈ controls, ¬isOctalDigit p.1 := by decide
  refine control?_eq_none ?_
  rintro ⟨control, hc⟩
  exact hletters (c, control) hc h

theorem ofCode_number {base : Nat} {digits : List Char} {ch : Char}
    (h : ch.toNat = denoted base digits) : ofCode (number base digits) = ch := by
  have hnumber : number base digits = ch.toNat := (foldl_eq_denoted base digits).trans h.symm
  have hvalid : ch.toNat.isValidChar := ch.valid
  unfold ofCode
  rw [hnumber, if_pos hvalid, Char.ofNat_toNat]

end LiteralChar

namespace Parser

variable {s : State} {quote ch : Char} {text after : List Char}

/-! ## One unit -/

theorem manyUpTo_of_munch {p : Char → Bool} {n : Nat} {digits : List Char} (k : Kind)
    (h : Munch p n digits after) (hrest : s.rest = digits ++ after) :
    manyUpTo n (satisfy p k) s = (.present digits, s.advance digits.length) := by
  rw [manyUpTo_satisfy, hrest, h.takeWhile_take]

theorem octalEscape_of_munch {d : Char} {digits : List Char}
    (h : Munch isOctalDigit (if digitValue d ≤ 3 then 2 else 1) digits after)
    (hrest : s.rest = digits ++ after) (hch : ch.toNat = denoted 8 (d :: digits)) :
    octalEscape d s = (.present ch, s.advance digits.length) := by
  have hn : (if 3 < digitValue d then 1 else 2) = if digitValue d ≤ 3 then 2 else 1 := by
    rw [← ite_not]
    simp only [Nat.not_lt]
  unfold octalEscape octalDigit
  rw [hn, bind_of_present (manyUpTo_of_munch _ h hrest), LiteralChar.ofCode_number hch]
  rfl

theorem hexEscape_of_munch {digits : List Char} (h : Munch isHexDigit 2 digits after)
    (hrest : s.rest = digits ++ after) (hch : ch.toNat = denoted 16 digits) :
    hexEscape s = (.present ch, s.advance digits.length) := by
  unfold hexEscape hexDigit
  rw [bind_of_present (manyUpTo_of_munch _ h hrest), LiteralChar.ofCode_number hch]
  rfl

theorem escape_of_escape {unknown : Bool} (start : Nat) (h : Escape text ch unknown after)
    (hrest : s.rest = text ++ after) :
    escape start s =
      (.present ch,
        (s.advance text.length).report
          (LiteralUnit.messages start ⟨'\\' :: text, ch, unknown⟩)) := by
  obtain ⟨c, cs, rfl⟩ : ∃ c cs, text = c :: cs := by cases h <;> exact ⟨_, _, rfl⟩
  have hcs : (s.advance 1).rest = cs ++ after := State.rest_advance_of_cons hrest
  unfold escape
  rw [bind_of_present (next_of_cons hrest)]
  cases h with
  | control h =>
    rw [LiteralChar.control?_eq_some_iff.2 h, messages_known, State.report_nil]
    rfl
  | itself h =>
    rw [messages_known, State.report_nil]
    simp only [List.mem_cons, List.not_mem_nil, or_false] at h
    rcases h with rfl | rfl | rfl <;> rfl
  | octal hd hdigits hch =>
    have hread := octalEscape_of_munch hdigits hcs hch
    rw [State.advance_advance, Nat.add_comm] at hread
    have hself : ¬(c = '"' ∨ c = '\'' ∨ c = '\\') := by
      rintro (rfl | rfl | rfl) <;> exact absurd hd (by decide)
    have hnewline : c ≠ '\n' := by
      rintro rfl
      exact absurd hd (by decide)
    rw [messages_known, State.report_nil, LiteralChar.control?_of_isOctalDigit hd]
    simp only [if_neg hself, if_neg hnewline, if_pos hd]
    exact hread
  | hexadecimal hx hdigits hch =>
    have hread := hexEscape_of_munch hdigits hcs hch
    rw [State.advance_advance, Nat.add_comm] at hread
    rw [messages_known, State.report_nil]
    simp only [List.mem_cons, List.not_mem_nil, or_false] at hx
    rcases hx with rfl | rfl <;> exact hread
  | unknown h hnewline =>
    simp only [Introduces, List.mem_cons, List.not_mem_nil, or_false, not_or] at h
    obtain ⟨hcontrol, ⟨hsingle, hdouble, hbackslash⟩, hoctal, hlower, hupper⟩ := h
    rw [messages_unknown, LiteralChar.control?_eq_none hcontrol]
    have hself : ¬(ch = '"' ∨ ch = '\'' ∨ ch = '\\') := by simp [hsingle, hdouble, hbackslash]
    have hx : ¬(ch = 'x' ∨ ch = 'X') := by simp [hlower, hupper]
    simp only [if_neg hself, if_neg hnewline, if_neg hoctal, if_neg hx]
    rfl

/-! ## One literal character -/

theorem literalChar_of_escape {unknown : Bool} (ho : s.options.escapes)
    (h : Escape text ch unknown after) (hrest : s.rest = '\\' :: text ++ after) :
    literalChar s =
      (.present ⟨ch, true⟩,
        (s.advance (text.length + 1)).report
          (LiteralUnit.messages s.location ⟨'\\' :: text, ch, unknown⟩)) := by
  have hread := escape_of_escape s.location h (State.rest_advance_of_cons hrest)
  rw [State.advance_advance, Nat.add_comm] at hread
  unfold literalChar
  rw [location_bind, bind_of_present (next_of_cons hrest), if_neg (by decide), options_bind]
  rw [State.options_advance, if_pos ⟨rfl, ho⟩, bind_of_present hread]
  rfl

theorem literalChar_of_plain {cs : List Char} (hrest : s.rest = ch :: cs) (hnewline : ch ≠ '\n')
    (hbackslash : ¬(ch = '\\' ∧ s.options.escapes)) :
    literalChar s = (.present ⟨ch, false⟩, s.advance 1) := by
  unfold literalChar
  rw [location_bind, bind_of_present (next_of_cons hrest), if_neg hnewline, options_bind]
  rw [State.options_advance, if_neg hbackslash]
  rfl

theorem literalChar_of_breaksOff (h : BreaksOff s.options s.rest) :
    ∃ t, literalChar s = (.absent, t) := by
  unfold literalChar
  rw [location_bind]
  generalize hrest : s.rest = rest at h
  cases h with
  | ended => exact ⟨s, bind_of_absent (next_of_nil hrest) _⟩
  | newline after =>
    rw [bind_of_present (next_of_cons hrest)]
    exact ⟨_, rfl⟩
  | endedEscape ho =>
    have hend : (s.advance 1).rest = [] := State.rest_advance_of_cons hrest
    rw [bind_of_present (next_of_cons hrest), if_neg (by decide), options_bind,
      State.options_advance, if_pos ⟨rfl, ho⟩]
    exact ⟨_, bind_of_absent (bind_of_absent (next_of_nil hend) _) _⟩
  | newlineEscape ho after =>
    have hafter : (s.advance 1).rest = '\n' :: after := State.rest_advance_of_cons hrest
    rw [bind_of_present (next_of_cons hrest), if_neg (by decide), options_bind,
      State.options_advance, if_pos ⟨rfl, ho⟩]
    exact ⟨_, bind_of_absent (bind_of_present (next_of_cons hafter) _) _⟩

/-! ## The text up to the closing quote -/

theorem closing_of_present {c : LiteralChar} {t : State} (start : Nat) (read : List Char)
    (h : literalChar s = (.present c, t)) (hc : ¬(c.ch = quote ∧ ¬c.escaped)) :
    closing quote start read s = closing quote start (c.ch :: read) t := by
  rw [closing_apply, attempt_of_present h]
  exact if_neg hc

theorem closing_of_quote {after : List Char} (start : Nat) (read : List Char)
    (hquote : quote ∈ quotes) (hrest : s.rest = quote :: after) :
    closing quote start read s =
      if after.head? = some quote then closing quote start (quote :: read) (s.advance 2)
      else (.present (String.ofList read.reverse), s.advance 1) := by
  have hnewline : quote ≠ '\n' := by
    rcases mem_quotes_iff.1 hquote with rfl | rfl <;> decide
  have hbackslash : ¬(quote = '\\' ∧ s.options.escapes) := by
    rcases mem_quotes_iff.1 hquote with rfl | rfl <;> simp
  have hafter : (s.advance 1).rest = after := State.rest_advance_of_cons hrest
  rw [closing_apply, attempt_of_present (literalChar_of_plain hrest hnewline hbackslash)]
  simp only [not_false_eq_true, Bool.false_eq_true, and_self, if_true]
  by_cases hdouble : after.head? = some quote
  · rw [optional_char_of_head (hafter ▸ hdouble), if_pos hdouble, State.advance_advance]
  · rw [optional_char_of_not_head (hafter ▸ hdouble), if_neg hdouble]

theorem closing_of_unit {u : LiteralUnit} (start : Nat) (read : List Char) (hquote : quote ∈ quotes)
    (h : IsUnit s.options quote u after) (hrest : s.rest = u.text ++ after) :
    closing quote start read s =
      closing quote start (u.ch :: read)
        ((s.advance u.text.length).report (u.messages s.location)) := by
  cases h with
  | doubled =>
    rw [closing_of_quote start read hquote hrest, messages_known, State.report_nil]
    exact if_pos rfl
  | escape ho h =>
    rw [closing_of_present start read (literalChar_of_escape ho h hrest) (by simp)]
    rfl
  | @plain ch _ hne hnewline hbackslash =>
    rw [closing_of_present start read (literalChar_of_plain hrest hnewline hbackslash)
      (fun h => hne h.1), messages_known, State.report_nil]
    rfl

/-- By induction on the units, each of which the loop reads with `closing_of_unit`. -/
theorem closing_of_units {us : List LiteralUnit} (start : Nat) (read : List Char)
    (hquote : quote ∈ quotes) (hrest : s.rest = text) (h : Units s.options quote text us after) :
    closing quote start read s =
      closing quote start ((us.map LiteralUnit.ch).reverse ++ read)
        ((s.advance (textOf us).length).report (messagesOf s.location us)) := by
  generalize ho : s.options = o at h
  induction h generalizing s read with
  | done text => simp
  | @more u us rest after first others ih =>
    have hnext : ((s.advance u.text.length).report (u.messages s.location)).rest = rest :=
      State.rest_advance_of_append hrest
    have hlocation : ((s.advance u.text.length).report (u.messages s.location)).location =
        s.location + Text.byteSize u.text :=
      State.location_advance_of_append hrest
    rw [closing_of_unit start read hquote (ho ▸ first) hrest, ih (u.ch :: read) hnext ho,
      State.advance_report, State.advance_advance, State.report_report, hlocation]
    simp

theorem closing_of_breaksOff (start : Nat) (read : List Char) (h : BreaksOff s.options s.rest) :
    closing quote start read s = (.absent, s.report [.ofOffset start .unclosedCharConstant]) := by
  obtain ⟨t, ht⟩ := literalChar_of_breaksOff h
  -- The attempt takes back what the last character read and reported, wherever it stopped.
  rw [closing_apply, framed_literalChar.attempt_of_absent ht]
  rfl

theorem rest_after_units {us : List LiteralUnit} (hrest : s.rest = text)
    (h : Units s.options quote text us after) (ms : List Message) :
    ((s.advance (textOf us).length).report ms).rest = after :=
  State.rest_advance_of_append (hrest.trans h.text_eq)

theorem literalBody_apply (quote : Char) (s : State) :
    literalBody quote s = closing quote s.location [] s := rfl

/-! ## The whole literal -/

theorem quotedLiteral_of_quote {body : List Char} (hquote : quote ∈ quotes)
    (hbody : s.rest.dropWhile isBlank = quote :: body) :
    quotedLiteral s = literalBody quote (s.advance ((s.rest.takeWhile isBlank).length + 1)) := by
  have hrest := (State.rest_advance_takeWhile isBlank s).trans hbody
  unfold quotedLiteral
  rw [bind_of_present (skipBlanks_apply s), peek?_bind, hrest]
  simp only [List.head?_cons, if_pos (mem_quotes_iff.1 hquote)]
  rw [bind_of_present (next?_of_cons hrest), State.advance_advance]

theorem quotedLiteral_of_no_quote
    (h : ∀ quote body, s.rest.dropWhile isBlank = quote :: body → quote ∉ quotes) :
    quotedLiteral s = (.absent, s.advance (s.rest.takeWhile isBlank).length) := by
  unfold quotedLiteral
  rw [bind_of_present (skipBlanks_apply s), peek?_bind, State.rest_advance_takeWhile]
  rcases hbody : s.rest.dropWhile isBlank with _ | ⟨quote, body⟩
  · rfl
  · have hquote := h quote body hbody
    rw [mem_quotes_iff] at hquote
    simp only [List.head?_cons, if_neg hquote]
    rfl

theorem location_after_quote {body : List Char} (hquote : quote ∈ quotes)
    (hbody : s.rest.dropWhile isBlank = quote :: body) :
    (s.advance ((s.rest.takeWhile isBlank).length + 1)).location =
      s.location + (s.rest.takeWhile isBlank).length + 1 :=
  State.location_advance_past_blanks hbody (utf8Size_of_mem_quotes hquote)

theorem quotedLiteral_of_closed {body : List Char} {us : List LiteralUnit}
    (hquote : quote ∈ quotes) (hbody : s.rest.dropWhile isBlank = quote :: body)
    (hus : Units s.options quote body us (quote :: after)) (hafter : after.head? ≠ some quote) :
    quotedLiteral s =
      (.present (String.ofList (us.map LiteralUnit.ch)),
        (s.advance ((s.rest.takeWhile isBlank).length + (textOf us).length + 2)).report
          (messagesOf (s.location + (s.rest.takeWhile isBlank).length + 1) us)) := by
  have hrest := State.rest_advance_past_head hbody
  have hlength : (s.rest.takeWhile isBlank).length + 1 + ((textOf us).length + 1) =
      (s.rest.takeWhile isBlank).length + (textOf us).length + 2 := by
    omega
  rw [quotedLiteral_of_quote hquote hbody, literalBody_apply,
    closing_of_units _ [] hquote hrest hus,
    closing_of_quote _ _ hquote (rest_after_units hrest hus _), if_neg hafter,
    List.append_nil, List.reverse_reverse, State.advance_report, State.advance_advance,
    State.advance_advance, hlength, location_after_quote hquote hbody]

theorem quotedLiteral_of_unclosed {body : List Char} {us : List LiteralUnit}
    (hquote : quote ∈ quotes) (hbody : s.rest.dropWhile isBlank = quote :: body)
    (hus : Units s.options quote body us after) (hafter : BreaksOff s.options after) :
    quotedLiteral s =
      (.absent,
        (s.advance ((s.rest.takeWhile isBlank).length + (textOf us).length + 1)).report
          (messagesOf (s.location + (s.rest.takeWhile isBlank).length + 1) us ++
            [.ofOffset (s.location + (s.rest.takeWhile isBlank).length + 1)
              .unclosedCharConstant])) := by
  have hrest := State.rest_advance_past_head hbody
  have hlength : (s.rest.takeWhile isBlank).length + 1 + (textOf us).length =
      (s.rest.takeWhile isBlank).length + (textOf us).length + 1 := by
    omega
  rw [quotedLiteral_of_quote hquote hbody, literalBody_apply,
    closing_of_units _ [] hquote hrest hus,
    closing_of_breaksOff _ _ ((rest_after_units hrest hus _).symm ▸ hafter),
    State.report_report, State.advance_advance, hlength, location_after_quote hquote hbody]

/-- What stands after the blanks decides how a literal ends: no quote, or units that a closing quote
follows, or units behind which the text breaks off. -/
theorem literal_text_cases (s : State) :
    (∀ quote body, s.rest.dropWhile isBlank = quote :: body → quote ∉ quotes) ∨
      ∃ quote body us text,
        quote ∈ quotes ∧ s.rest.dropWhile isBlank = quote :: body ∧
        Units s.options quote body us text ∧ (Closes quote text ∨ BreaksOff s.options text) := by
  by_cases hhead : ∃ quote body, s.rest.dropWhile isBlank = quote :: body ∧ quote ∈ quotes
  · obtain ⟨quote, body, hbody, hquote⟩ := hhead
    obtain ⟨us, text, hus, hend⟩ := exists_units s.options quote body
    exact .inr ⟨quote, body, us, text, hquote, hbody, hus, hend⟩
  · exact .inl fun quote body hbody hquote => hhead ⟨quote, body, hbody, hquote⟩

/-- A literal that is read has a closing quote behind its units, for it would have been absent
otherwise. -/
theorem exists_closed_of_quotedLiteral {e : State} {t : String}
    (h : quotedLiteral s = (.present t, e)) :
    ∃ quote body us after,
      quote ∈ quotes ∧ s.rest.dropWhile isBlank = quote :: body ∧
      Units s.options quote body us (quote :: after) ∧ after.head? ≠ some quote ∧
      t = String.ofList (us.map LiteralUnit.ch) ∧
      e = (s.advance ((s.rest.takeWhile isBlank).length + (textOf us).length + 2)).report
        (messagesOf (s.location + (s.rest.takeWhile isBlank).length + 1) us) := by
  rcases literal_text_cases s with hnone | ⟨quote, body, us, text, hquote, hbody, hus, hend⟩
  · rw [quotedLiteral_of_no_quote hnone] at h
    cases h
  rcases hend with ⟨after, rfl, hafter⟩ | hbreak
  · rw [quotedLiteral_of_closed hquote hbody hus hafter] at h
    cases h
    exact ⟨quote, body, us, after, hquote, hbody, hus, hafter, rfl, rfl⟩
  · rw [quotedLiteral_of_unclosed hquote hbody hus hbreak] at h
    cases h

theorem quotedLiteral_eq_present_iff (s e : State) (t : String) :
    quotedLiteral s = (.present t, e) ↔
      ∃ quote body us after,
        quote ∈ quotes ∧ s.rest.dropWhile isBlank = quote :: body ∧
        Units s.options quote body us (quote :: after) ∧ after.head? ≠ some quote ∧
        t = String.ofList (us.map LiteralUnit.ch) ∧
        e = (s.advance ((s.rest.takeWhile isBlank).length + (textOf us).length + 2)).report
          (messagesOf (s.location + (s.rest.takeWhile isBlank).length + 1) us) := by
  constructor
  · exact exists_closed_of_quotedLiteral
  · rintro ⟨quote, body, us, after, hquote, hbody, hus, hafter, rfl, rfl⟩
    exact quotedLiteral_of_closed hquote hbody hus hafter

end Parser

end FortranTokens
