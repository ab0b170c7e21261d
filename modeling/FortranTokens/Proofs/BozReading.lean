import Mathlib.Data.Prod.Basic
import FortranTokens.Proofs.BozText
import FortranTokens.Proofs.Frame

/-!
# Reading binary, octal and hexadecimal constants

A text that opens a constant either begins with a form whose digits have a value, and this constant
is read (`boz_of_form`), or is spoilt (`boz_of_spoilt`).  A text that opens no constant is passed
over in silence (`boz_of_not_opens`).  So a constant is read exactly where the text after the blanks
begins with a form, its digits are below the radix and their number fits into a word
(`boz_eq_present_iff`), and a spoilt one is reported once, just after its opening quote
(`boz_log_of_absent`).
-/

namespace FortranTokens.Parser

open CharClass Boz

variable {s e : State} {quote : Char} {base : Base} {digits : List Char} {v : UInt64} {kind : Kind}

/-! ### Digits up to a quote -/

/-- The digits given are those that were read: the text from their start is they and the quote. -/
theorem quotedDigits_eq (committed : Bool) (quote : Char) :
    quotedDigits committed quote = (do
      let start ← location
      let digits ← readWhile isHexDigit
      match ← next? with
      | some c =>
        if c = quote then return digits
        else if committed then failAt start .badBozDigit
        else absent
      | none => if committed then failAt start .unclosedBozLiteral else absent) := by
  funext s
  unfold quotedDigits
  rw [location_bind, location_bind, bind_of_present (readWhile_apply isHexDigit s),
    bind_of_present (readWhile_apply isHexDigit s)]
  rcases hrest : (s.advance (s.rest.takeWhile isHexDigit).length).rest with _ | ⟨c, after⟩
  · rw [bind_of_present (next?_of_nil hrest), bind_of_present (next?_of_nil hrest)]
  · rw [bind_of_present (next?_of_cons hrest), bind_of_present (next?_of_cons hrest)]
    rw [State.rest_advance_takeWhile] at hrest
    by_cases hc : c = quote
    · simp only [if_pos hc]
      rw [State.advance_advance, bind_of_present (textFrom_advance _ s)]
      have htake : s.rest.take ((s.rest.takeWhile isHexDigit).length + 1) =
          s.rest.takeWhile isHexDigit ++ [c] := by
        have hall : s.rest = (s.rest.takeWhile isHexDigit ++ [c]) ++ after := by
          rw [List.append_assoc, List.singleton_append, ← hrest, List.takeWhile_append_dropWhile]
        have hleft : ((s.rest.takeWhile isHexDigit ++ [c]) ++ after).take
            (s.rest.takeWhile isHexDigit ++ [c]).length = s.rest.takeWhile isHexDigit ++ [c] :=
          List.take_left
        rw [← hall] at hleft
        simpa using hleft
      rw [htake]
      simp
    · simp only [if_neg hc]

theorem quotedDigits_of_closed {committed : Bool} {after : List Char} (hquote : quote ∈ quotes)
    (hrest : s.rest = digits ++ quote :: after) (hdigits : ∀ d ∈ digits, isHexDigit d) :
    quotedDigits committed quote s = (.present digits, s.advance (digits.length + 1)) := by
  have hread : readWhile isHexDigit s = (.present digits, s.advance digits.length) := by
    refine readWhile_of_maximal hrest hdigits ?_
    rintro c ⟨⟩
    exact not_isHexDigit_of_mem_quotes hquote
  rw [quotedDigits_eq, location_bind, bind_of_present hread,
    bind_of_present (next?_of_cons (State.rest_advance_of_append hrest)), State.advance_advance]
  simp

theorem quotedDigits_of_wrong {committed : Bool} {c : Char} {more : List Char}
    (hrest : s.rest = digits ++ c :: more) (hdigits : ∀ d ∈ digits, isHexDigit d)
    (hc : ¬isHexDigit c) (hquote : c ≠ quote) :
    quotedDigits committed quote s =
      (.absent, (s.advance (digits.length + 1)).report
        (if committed then [.ofOffset s.location .badBozDigit] else [])) := by
  have hread : readWhile isHexDigit s = (.present digits, s.advance digits.length) := by
    refine readWhile_of_maximal hrest hdigits ?_
    rintro c ⟨⟩
    exact hc
  rw [quotedDigits_eq, location_bind, bind_of_present hread,
    bind_of_present (next?_of_cons (State.rest_advance_of_append hrest)), State.advance_advance]
  cases committed <;> simp [hquote]

theorem quotedDigits_of_ended {committed : Bool} (hrest : s.rest = digits)
    (hdigits : ∀ d ∈ digits, isHexDigit d) :
    quotedDigits committed quote s =
      (.absent, (s.advance digits.length).report
        (if committed then [.ofOffset s.location .unclosedBozLiteral] else [])) := by
  have happend : s.rest = digits ++ [] := by rw [hrest, List.append_nil]
  have hread : readWhile isHexDigit s = (.present digits, s.advance digits.length) := by
    refine readWhile_of_maximal happend hdigits ?_
    rintro c ⟨⟩
  rw [quotedDigits_eq, location_bind, bind_of_present hread,
    bind_of_present (next?_of_nil (State.rest_advance_of_append happend))]
  cases committed <;> simp

/-! ### Values -/

theorem bozValue_of_value (start : Nat) (h : HasValue base digits v) :
    bozValue start base digits s = (.present v, s) := by
  unfold bozValue
  rw [if_neg (by simpa using h.nonempty), h.value_eq]
  rfl

theorem bozValue_of_flaw (start : Nat) (h : Flaw base digits kind) :
    bozValue start base digits s = (.absent, s.report [.ofOffset start kind]) := by
  by_cases hne : digits = []
  · cases h with
    | noDigit => rfl
    | tooLarge hfront hd => simp at hne
    | tooMany hfront hd hnumber => simp at hne
  · unfold bozValue
    rw [if_neg (by simpa using hne), value_of_flaw h hne]
    rfl

/-! ### A letter in front -/

theorem bozAfterLetter_of_quote {cs : List Char} (hquote : quote ∈ quotes)
    (hrest : s.rest = quote :: cs) :
    bozAfterLetter base s =
      (quotedDigits true quote >>= bozValue (s.advance 1).location base) (s.advance 1) := by
  unfold bozAfterLetter
  rw [bind_of_present (next_of_cons hrest)]
  exact congrFun (if_pos (mem_quotes_iff.1 hquote)) _

theorem bozAfterLetter_of_digits {after : List Char} (hquote : quote ∈ quotes)
    (hrest : s.rest = quote :: (digits ++ quote :: after)) (hdigits : ∀ d ∈ digits, isHexDigit d) :
    bozAfterLetter base s =
      bozValue (s.advance 1).location base digits (s.advance (digits.length + 2)) := by
  have hinside : (s.advance 1).rest = digits ++ quote :: after := State.rest_advance_of_cons hrest
  rw [bozAfterLetter_of_quote hquote hrest,
    bind_of_present (quotedDigits_of_closed hquote hinside hdigits), State.advance_advance,
    Nat.add_comm 1]

theorem bozAfterLetter_of_broken {inside : List Char} (hquote : quote ∈ quotes)
    (hrest : s.rest = quote :: inside) (h : Broken base quote inside kind) :
    ∃ e, bozAfterLetter base s = (.absent, e) ∧
      e.log = s.log ++ [.ofOffset (s.advance 1).location kind] := by
  have hinside : (s.advance 1).rest = inside := State.rest_advance_of_cons hrest
  cases h with
  | wrongCharacter hdigits hc hne =>
    rw [bozAfterLetter_of_quote hquote hrest]
    exact ⟨_, bind_of_absent (quotedDigits_of_wrong hinside hdigits hc hne) _, rfl⟩
  | unclosed hdigits =>
    rw [bozAfterLetter_of_quote hquote hrest]
    exact ⟨_, bind_of_absent (quotedDigits_of_ended hinside hdigits) _, rfl⟩
  | closed hdigits hflaw =>
    rw [bozAfterLetter_of_digits hquote hrest hdigits, bozValue_of_flaw _ hflaw]
    exact ⟨_, rfl, rfl⟩

theorem bozAfterLetter_of_no_quote (h : ∀ c ∈ s.rest.head?, c ∉ quotes) :
    ∃ e, bozAfterLetter base s = (.absent, e) ∧ e.log = s.log := by
  unfold bozAfterLetter
  rcases hrest : s.rest with _ | ⟨c, cs⟩
  · exact ⟨_, bind_of_absent (next_of_nil hrest) _, rfl⟩
  · have hc : c ∉ quotes := h c (by rw [hrest]; rfl)
    refine ⟨s.advance 1, ?_, rfl⟩
    rw [bind_of_present (next_of_cons hrest)]
    exact congrFun (if_neg (mt mem_quotes_iff.2 hc)) _

/-! ### A letter behind -/

theorem bozAfterQuote_of_digits {letter : Char} {after : List Char} (hquote : quote ∈ quotes)
    (hstrict : s.options.strict = false) (hletter : letter ∈ base.letters)
    (hrest : s.rest = digits ++ quote :: letter :: after) (hdigits : ∀ d ∈ digits, isHexDigit d) :
    bozAfterQuote quote s = bozValue s.location base digits (s.advance (digits.length + 2)) := by
  have hread : quotedDigits false quote s = (.present digits, s.advance (digits.length + 1)) :=
    quotedDigits_of_closed hquote hrest hdigits
  have hnext : (s.advance (digits.length + 1)).rest = letter :: after := by
    rw [State.rest_advance, hrest]
    simp
  unfold bozAfterQuote
  rw [location_bind, bind_of_present hread, options_bind, State.options_advance]
  simp only [hstrict, Bool.false_eq_true, if_false, peek?_bind, hnext, List.head?_cons,
    Option.bind_some, ofLetter?_eq_some_iff.2 hletter]
  rw [bind_of_present (next?_of_cons hnext), State.advance_advance]

/-- Without a letter in front nothing is reported before the letter behind is seen. -/
theorem bozAfterQuote_of_no_letter (hquote : quote ∈ quotes)
    (h : ∀ digits (base : Base) letter more, s.rest = digits ++ quote :: letter :: more →
      (∀ d ∈ digits, isHexDigit d) → letter ∈ base.letters → s.options.strict = true) :
    ∃ e, bozAfterQuote quote s = (.absent, e) ∧ e.log = s.log := by
  unfold bozAfterQuote
  rw [location_bind]
  obtain ⟨digits, hdigits, hrest | ⟨c, more, hrest, hc⟩⟩ := exists_stretch isHexDigit s.rest
  · have hrun : quotedDigits false quote s = _ := quotedDigits_of_ended hrest hdigits
    exact ⟨_, bind_of_absent hrun _, List.append_nil _⟩
  by_cases hne : c ≠ quote
  · have hrun : quotedDigits false quote s = _ := quotedDigits_of_wrong hrest hdigits hc hne
    exact ⟨_, bind_of_absent hrun _, List.append_nil _⟩
  obtain rfl : c = quote := not_not.1 hne
  have hrun : quotedDigits false c s = (.present digits, s.advance (digits.length + 1)) :=
    quotedDigits_of_closed hquote hrest hdigits
  have hmore : (s.advance (digits.length + 1)).rest = more := by
    rw [State.rest_advance, hrest]
    simp
  refine ⟨s.advance (digits.length + 1), ?_, rfl⟩
  rw [bind_of_present hrun, options_bind, State.options_advance]
  by_cases hstrict : s.options.strict = true
  · rw [if_pos hstrict]
    rfl
  rw [if_neg hstrict, peek?_bind, hmore]
  rcases more with _ | ⟨letter, more⟩
  · rfl
  rcases hbase : Base.ofLetter? letter with _ | base
  · simp [hbase]
  · exact absurd (h digits base letter more hrest hdigits (ofLetter?_eq_some_iff.1 hbase)) hstrict

/-! ### Constants -/

/-- The first character after the blanks decides which form is tried. -/
theorem boz_of_cons {c : Char} {cs : List Char} (h : s.rest.dropWhile isBlank = c :: cs) :
    boz s =
      if (c = 'x' ∨ c = 'X') ∧ s.options.strict then
        (.absent, s.advance ((s.rest.takeWhile isBlank).length + 1))
      else
        match Base.ofLetter? c with
        | some base => bozAfterLetter base (s.advance ((s.rest.takeWhile isBlank).length + 1))
        | none =>
          if c ∈ quotes then bozAfterQuote c (s.advance ((s.rest.takeWhile isBlank).length + 1))
          else (.absent, s.advance ((s.rest.takeWhile isBlank).length + 1)) := by
  have hrest := (State.rest_advance_takeWhile isBlank s).trans h
  unfold boz
  rw [bind_of_present (skipBlanks_apply s), bind_of_present (next_of_cons hrest), options_bind,
    State.advance_advance]
  by_cases hx : (c = 'x' ∨ c = 'X') ∧ s.options.strict
  · rw [if_pos hx]
    exact congrFun (if_pos hx) _
  · rw [if_neg hx]
    refine (congrFun (if_neg hx) _).trans ?_
    rcases Base.ofLetter? c with _ | base
    · by_cases hquote : c ∈ quotes
      · simp only [if_pos hquote, if_pos (mem_quotes_iff.1 hquote)]
      · simp only [if_neg hquote, if_neg (mt mem_quotes_iff.2 hquote)]
        rfl
    · rfl

theorem boz_of_letter {c : Char} {cs : List Char} (hletter : Leads s.options base c)
    (h : s.rest.dropWhile isBlank = c :: cs) :
    boz s = bozAfterLetter base (s.advance ((s.rest.takeWhile isBlank).length + 1)) := by
  have hx : ¬((c = 'x' ∨ c = 'X') ∧ s.options.strict) := by
    rintro ⟨hc, hstrict⟩
    simp [hletter.2 (by simpa [or_comm] using hc)] at hstrict
  rw [boz_of_cons h, if_neg hx, ofLetter?_eq_some_iff.2 hletter.1]

theorem boz_of_quote {cs : List Char} (hquote : quote ∈ quotes)
    (h : s.rest.dropWhile isBlank = quote :: cs) :
    boz s = bozAfterQuote quote (s.advance ((s.rest.takeWhile isBlank).length + 1)) := by
  have hx : ¬((quote = 'x' ∨ quote = 'X') ∧ s.options.strict) := by
    rcases mem_quotes_iff.1 hquote with rfl | rfl <;> simp
  rw [boz_of_cons h, if_neg hx, ofLetter?_of_mem_quotes hquote]
  exact if_pos hquote

theorem boz_of_neither {c : Char} {cs : List Char} (hletter : ∀ base, ¬Leads s.options base c)
    (hquote : c ∉ quotes) (h : s.rest.dropWhile isBlank = c :: cs) :
    boz s = (.absent, s.advance ((s.rest.takeWhile isBlank).length + 1)) := by
  rw [boz_of_cons h]
  by_cases hx : (c = 'x' ∨ c = 'X') ∧ s.options.strict
  · exact if_pos hx
  rw [if_neg hx]
  rcases hbase : Base.ofLetter? c with _ | base
  · exact if_neg hquote
  · refine absurd ⟨ofLetter?_eq_some_iff.1 hbase, fun hc => ?_⟩ (hletter base)
    have hc' : c = 'x' ∨ c = 'X' := by simpa [or_comm] using hc
    simpa [hc'] using hx

theorem boz_of_nil (h : s.rest.dropWhile isBlank = []) :
    boz s = (.absent, s.advance (s.rest.takeWhile isBlank).length) := by
  have hrest := (State.rest_advance_takeWhile isBlank s).trans h
  unfold boz
  rw [bind_of_present (skipBlanks_apply s), bind_of_absent (next_of_nil hrest)]

theorem boz_of_form {text after : List Char}
    (htext : s.rest.dropWhile isBlank = text ++ after) (hform : Form s.options text base digits)
    (hv : HasValue base digits v) :
    boz s = (.present v, s.advance ((s.rest.takeWhile isBlank).length + text.length)) := by
  cases hform with
  | @letterFirst letter quote _ _ hletter hx hquote hdigits =>
    have hbody : s.rest.dropWhile isBlank = letter :: quote :: (digits ++ quote :: after) := by
      simpa using htext
    have hrest := State.rest_advance_past_head hbody
    rw [boz_of_letter ⟨hletter, hx⟩ hbody, bozAfterLetter_of_digits hquote hrest hdigits,
      bozValue_of_value _ hv]
    simp [Nat.add_assoc, Nat.add_comm 1]
  | @letterLast letter quote _ _ hstrict hletter hquote hdigits =>
    have hbody : s.rest.dropWhile isBlank = quote :: (digits ++ quote :: letter :: after) := by
      simpa using htext
    have hrest := State.rest_advance_past_head hbody
    have hvalue := bozAfterQuote_of_digits (s := s.advance _) hquote hstrict hletter hrest hdigits
    rw [boz_of_quote hquote hbody, hvalue, bozValue_of_value _ hv]
    simp [Nat.add_assoc, Nat.add_comm 1]

theorem boz_of_spoilt {n : Nat} (h : Spoilt s.options (s.rest.dropWhile isBlank) n kind) :
    ∃ e, boz s = (.absent, e) ∧
      e.log = s.log ++
        [.ofOffset (s.location + (s.rest.takeWhile isBlank).length + n) kind] := by
  generalize hbody : s.rest.dropWhile isBlank = body at h
  cases h with
  | @letterFirst letter quote inside base _ hletter hquote h =>
    have hrest := State.rest_advance_past_head hbody
    rw [boz_of_letter hletter hbody]
    have hlocation := State.location_advance_past_blanks hbody (utf8Size_of_mem_letters hletter.1)
    obtain ⟨e, hrun, he⟩ := bozAfterLetter_of_broken hquote hrest h
    refine ⟨e, hrun, ?_⟩
    rw [he, State.location_advance_of_cons hrest, hlocation, utf8Size_of_mem_quotes hquote]
    rfl
  | @letterLast letter quote digits more base _ hstrict hletter hquote hdigits hflaw =>
    have hrest := State.rest_advance_past_head hbody
    have hlocation := State.location_advance_past_blanks hbody (utf8Size_of_mem_quotes hquote)
    have hvalue := bozAfterQuote_of_digits (s := s.advance _) hquote hstrict hletter hrest hdigits
    rw [boz_of_quote hquote hbody, hvalue, bozValue_of_flaw _ hflaw, hlocation]
    exact ⟨_, rfl, rfl⟩

theorem boz_of_not_opens (h : ∀ n, ¬Opens s.options (s.rest.dropWhile isBlank) n) :
    ∃ e, boz s = (.absent, e) ∧ e.log = s.log := by
  rcases hbody : s.rest.dropWhile isBlank with _ | ⟨c, cs⟩
  · exact ⟨_, boz_of_nil hbody, rfl⟩
  have hrest := State.rest_advance_past_head hbody
  rw [hbody] at h
  by_cases hletter : ∃ base, Leads s.options base c
  · obtain ⟨base, hletter⟩ := hletter
    have hquote : ∀ q ∈ cs.head?, q ∉ quotes := by
      intro q hq hquote
      obtain ⟨more, rfl⟩ := List.head?_eq_some_iff.1 hq
      exact h 2 (.letterFirst hletter hquote)
    rw [boz_of_letter hletter hbody]
    exact bozAfterLetter_of_no_quote (hrest.symm ▸ hquote)
  by_cases hquote : c ∈ quotes
  · have hopen : ∀ digits (base : Base) letter more, cs = digits ++ c :: letter :: more →
        (∀ d ∈ digits, isHexDigit d) → letter ∈ base.letters → s.options.strict = true := by
      rintro digits base letter more rfl hdigits hmem
      by_contra hstrict
      exact h 1 (.letterLast (Bool.eq_false_iff.2 hstrict) hmem hquote hdigits)
    rw [boz_of_quote hquote hbody]
    exact bozAfterQuote_of_no_letter hquote (hrest.symm ▸ hopen)
  · exact ⟨_, boz_of_neither (not_exists.1 hletter) hquote hbody, rfl⟩

/-- Only a form is read: a text that opens a constant is read as the form it begins with or is
spoilt, and any other text gives no constant. -/
theorem exists_form_of_boz (h : boz s = (.present v, e)) :
    ∃ text base digits after,
      s.rest.dropWhile isBlank = text ++ after ∧ Form s.options text base digits ∧
        HasValue base digits v ∧
        e = s.advance ((s.rest.takeWhile isBlank).length + text.length) := by
  by_cases hopen : ∃ n, Opens s.options (s.rest.dropWhile isBlank) n
  · obtain ⟨n, hopen⟩ := hopen
    rcases hopen.spoilt_or_form with
      ⟨kind, hspoilt⟩ | ⟨text, base, digits, after, w, htext, hform, hw⟩
    · obtain ⟨e', hrun, -⟩ := boz_of_spoilt hspoilt
      cases h.symm.trans hrun
    · cases h.symm.trans (boz_of_form htext hform hw)
      exact ⟨text, base, digits, after, htext, hform, hw, rfl⟩
  · obtain ⟨e', hrun, -⟩ := boz_of_not_opens (not_exists.1 hopen)
    cases h.symm.trans hrun

theorem boz_eq_present_iff (s : State) (v : UInt64) (e : State) :
    boz s = (.present v, e) ↔
      ∃ text base digits after,
        s.rest.dropWhile isBlank = text ++ after ∧ Form s.options text base digits ∧
        HasValue base digits v ∧
        e = s.advance ((s.rest.takeWhile isBlank).length + text.length) := by
  constructor
  · exact exists_form_of_boz
  · rintro ⟨text, base, digits, after, htext, hform, hv, rfl⟩
    exact boz_of_form htext hform hv

/-- An absent constant is reported once if the text opens one, where its digits begin and as what is
wrong with it; otherwise nothing is said. -/
theorem boz_log_of_absent (s e : State) (h : boz s = (.absent, e)) :
    let body := s.rest.dropWhile isBlank
    let start := s.location + (s.rest.takeWhile isBlank).length
    (∀ n, Opens s.options body n → ∃ kind, Spoilt s.options body n kind) ∧
      (∀ n kind, Spoilt s.options body n kind →
        e.log = s.log ++ [.ofOffset (start + n) kind]) ∧
      ((∀ n, ¬Opens s.options body n) → e.log = s.log) := by
  intro body start
  refine ⟨?opened, ?spoilt, ?silent⟩
  case opened =>
    intro n hopen
    rcases hopen.spoilt_or_form with hspoilt | ⟨front, base, digits, after, v, htext, hform, hv⟩
    · exact hspoilt
    · rw [boz_of_form htext hform hv] at h
      cases h
  case spoilt =>
    intro n kind hspoilt
    obtain ⟨e', hrun, hlog⟩ := boz_of_spoilt hspoilt
    cases h.symm.trans hrun
    exact hlog
  case silent =>
    intro hopen
    obtain ⟨e', hrun, hlog⟩ := boz_of_not_opens hopen
    cases h.symm.trans hrun
    exact hlog

/-- The digits after which the number is too large stand before the one that is no octal digit, and
they decide. -/
theorem octal_overflow_before_wrong_digit :
    let digits := List.replicate 22 '7'
    let s := State.start ([' ', 'O', '\''] ++ digits ++ ['8', '\'']) {} (by decide)
    (boz s).1 = .absent ∧ Spoilt {} (s.rest.dropWhile isBlank) 2 .excessiveBozDigits ∧
      (boz s).2.log = [.ofOffset 3 .excessiveBozDigits] := by
  intro digits s
  have habsent : (boz s).1 = .absent := by decide +kernel
  have hfront : Fits .octal (List.replicate 21 '7') :=
    { below := by
        intro d hd
        rw [List.eq_of_mem_replicate hd]
        decide
      fits := by decide +kernel }
  have hflaw : Flaw .octal (List.replicate 21 '7' ++ '7' :: ['8']) .excessiveBozDigits :=
    .tooMany hfront (by decide) (by decide +kernel)
  have hinside : Broken .octal '\'' (digits ++ ['8'] ++ ['\'']) .excessiveBozDigits :=
    .closed (List.all_eq_true.1 (by decide +kernel)) hflaw
  have hletter : Leads {} .octal 'O' := ⟨by decide, by decide⟩
  have hspoilt : Spoilt {} (s.rest.dropWhile isBlank) 2 .excessiveBozDigits :=
    .letterFirst hletter (by decide) hinside
  refine ⟨habsent, hspoilt, ?_⟩
  exact (boz_log_of_absent s _ (Prod.fst_eq_iff.1 habsent)).2.1 2 .excessiveBozDigits hspoilt

end FortranTokens.Parser
