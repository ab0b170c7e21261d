import FortranTokens.Literal.Hollerith
import FortranTokens.Proofs.DecimalValue
import FortranTokens.Proofs.GoingBack

/-!
# The text of Hollerith constants

What a Hollerith constant does is decided by what follows its count: no marker, and it is absent
(`hollerith_of_no_marker`); a marker, and the number that the count denotes decides
(`hollerith_of_marker`).  The count is a digit string, which is read and reported before the marker
is seen.  So a text that is no Hollerith constant is passed over in silence only where its digits
fit into a word (`hollerith_log_of_mismatch`).
-/

namespace FortranTokens.Parser

open CharClass

variable {s e : State} {digits after text : List Char} {marker : Char}

/-- Behind the blanks stand these digits, as many as there are, and then `after`. -/
structure Count (s : State) (digits after : List Char) : Prop where
  body : s.rest.dropWhile isBlank = digits ++ after
  nonempty : digits ≠ []
  all : ∀ d ∈ digits, isDecimalDigit d
  maximal : ∀ c ∈ after.head?, ¬isDecimalDigit c

/-- The state in which a count has been read. -/
def afterCount (s : State) (digits : List Char) : State :=
  (s.advance ((s.rest.takeWhile isBlank).length + digits.length)).report
    (DigitString.messages (s.location + (s.rest.takeWhile isBlank).length) (denoted 10 digits))

/-! ## The count -/

theorem hollerith_of_no_digit (h : (s.rest.dropWhile isBlank).takeWhile isDecimalDigit = []) :
    hollerith s = (.absent, s.advance (s.rest.takeWhile isBlank).length) := by
  rw [← State.rest_advance_takeWhile] at h
  unfold hollerith
  rw [bind_of_present (skipBlanks_apply s), location_bind,
    bind_of_absent (digitString_of_no_digit h)]

theorem hollerith_of_count (h : Count s digits after) :
    hollerith s = (do
      let marker ← attempt letter
      if marker ≠ 'h' then absent
      else if UInt64.size ≤ denoted 10 digits then
        failAt (s.location + (s.rest.takeWhile isBlank).length) .badHollerith
      else if denoted 10 digits = 0 then absent
      else
        orSay (s.location + (s.rest.takeWhile isBlank).length) .badHollerith
          (String.ofList <$> printables (denoted 10 digits)) : Parser String)
      (afterCount s digits) := by
  have hbody := (State.rest_advance_takeWhile isBlank s).trans h.body
  have hdigits := digitString_of_digits hbody h.nonempty h.all h.maximal
  rw [State.advance_advance, State.location_advance_blanks] at hdigits
  unfold hollerith
  rw [bind_of_present (skipBlanks_apply s), location_bind, bind_of_present hdigits,
    State.location_advance_blanks]
  by_cases hsize : UInt64.size ≤ denoted 10 digits
  · simp only [DigitString.ofNat, hsize, decide_true, if_true]
    rfl
  · have hlt : denoted 10 digits < UInt64.size := Nat.lt_of_not_le hsize
    have hvalue := DigitString.toNat_value_ofNat hlt
    have hzero : (DigitString.ofNat (denoted 10 digits)).value = 0 ↔ denoted 10 digits = 0 := by
      rw [← UInt64.toNat_inj, hvalue]
      rfl
    have hoverflow : (DigitString.ofNat (denoted 10 digits)).overflow = false :=
      decide_eq_false hsize
    simp only [hvalue, hzero, hoverflow, Bool.false_eq_true, if_false, if_neg hsize]
    rfl

theorem rest_afterCount (h : Count s digits after) : (afterCount s digits).rest = after := by
  have hbody := (State.rest_advance_takeWhile isBlank s).trans h.body
  unfold afterCount
  rw [State.rest_report, ← State.advance_advance]
  exact State.rest_advance_of_append hbody

/-! ## The marker -/

theorem toLower_eq_h_iff {c : Char} : toLower c = 'h' ↔ c ∈ ['h', 'H'] := by
  constructor
  · intro h
    rcases toLower_eq 'H' rfl h with rfl | rfl <;> decide
  · intro h
    simp only [List.mem_cons, List.not_mem_nil, or_false] at h
    rcases h with rfl | rfl <;> rfl

theorem attempt_letter_of_head {c : Char} (hrest : s.rest = c :: text) (hc : isLetter c) :
    attempt letter s = (.present (toLower c), s.advance 1) := by
  apply attempt_of_present
  unfold letter
  rw [map_apply, satisfy_of_head _ hrest hc]
  rfl

theorem attempt_letter_of_not_head (h : ∀ c ∈ s.rest.head?, ¬isLetter c) :
    attempt letter s = (.absent, s) := by
  obtain ⟨t, ht⟩ := satisfy_of_not_head .expectedLetter h
  apply framed_letter.attempt_of_absent (t := t)
  unfold letter
  rw [map_apply, ht]
  rfl

/-- Without the marker nothing is said after the count, whether a letter was read or not. -/
theorem hollerith_of_no_marker (h : Count s digits after)
    (hmarker : ∀ c ∈ after.head?, c ∉ ['h', 'H']) :
    ∃ n, hollerith s = (.absent, (afterCount s digits).advance n) := by
  have hrest := rest_afterCount h
  rw [hollerith_of_count h]
  by_cases hletter : ∀ c ∈ after.head?, ¬isLetter c
  · rw [← hrest] at hletter
    exact ⟨0, bind_of_absent (attempt_letter_of_not_head hletter) _⟩
  · simp only [not_forall, Decidable.not_not] at hletter
    obtain ⟨c, hc, hletter⟩ := hletter
    obtain ⟨cs, rfl⟩ := List.head?_eq_some_iff.1 hc
    have hlower : toLower c ≠ 'h' := mt toLower_eq_h_iff.1 (hmarker c hc)
    refine ⟨1, ?_⟩
    rw [bind_of_present (attempt_letter_of_head hrest hletter), if_pos hlower]
    rfl

theorem hollerith_of_marker (h : Count s digits (marker :: text)) (hmarker : marker ∈ ['h', 'H']) :
    hollerith s = (
      if UInt64.size ≤ denoted 10 digits then
        failAt (s.location + (s.rest.takeWhile isBlank).length) .badHollerith
      else if denoted 10 digits = 0 then absent
      else
        orSay (s.location + (s.rest.takeWhile isBlank).length) .badHollerith
          (String.ofList <$> printables (denoted 10 digits)) : Parser String)
      ((afterCount s digits).advance 1) := by
  have hletter : isLetter marker := by
    simp only [List.mem_cons, List.not_mem_nil, or_false] at hmarker
    rcases hmarker with rfl | rfl <;> decide
  have hlower : ¬toLower marker ≠ 'h' := not_not.2 (toLower_eq_h_iff.2 hmarker)
  rw [hollerith_of_count h,
    bind_of_present (attempt_letter_of_head (rest_afterCount h) hletter), if_neg hlower]

/-! ## The text -/

theorem printables_eq_present_iff {n : Nat} {text : List Char} :
    printables n s = (.present text, e) ↔
      text.length = n ∧ (∃ after, s.rest = text ++ after) ∧ (∀ c ∈ text, isPrintable c) ∧
        e = s.advance n := by
  induction n generalizing s text with
  | zero =>
    constructor
    · intro h
      cases h
      exact ⟨rfl, ⟨e.rest, rfl⟩, List.forall_mem_nil _, rfl⟩
    · rintro ⟨hlength, -, -, rfl⟩
      rw [List.eq_nil_of_length_eq_zero hlength]
      rfl
  | succ n ih =>
    show (next >>= _) s = _ ↔ _
    rw [bind_eq_present_iff]
    constructor
    · rintro ⟨c, t, hnext, h⟩
      obtain ⟨⟨cs, hcs⟩, rfl⟩ := next_eq_present_iff.1 hnext
      by_cases hc : isPrintable c
      · rw [if_pos hc, bind_eq_present_iff] at h
        obtain ⟨more, u, hmore, h⟩ := h
        cases h
        obtain ⟨hlength, ⟨after, hrest⟩, hall, rfl⟩ := ih.1 hmore
        rw [State.rest_advance_of_cons hcs] at hrest
        refine ⟨?_, ⟨after, ?_⟩, ?_, ?_⟩
        · rw [List.length_cons, hlength]
        · rw [hcs, hrest]
          rfl
        · exact List.forall_mem_cons.2 ⟨hc, hall⟩
        · rw [State.advance_advance, Nat.add_comm]
      · rw [if_neg hc] at h
        cases h
    · rintro ⟨hlength, ⟨after, hrest⟩, hall, rfl⟩
      obtain ⟨c, more, rfl⟩ := List.exists_cons_of_length_eq_add_one hlength
      obtain ⟨hc, hall⟩ := List.forall_mem_cons.1 hall
      have hmore : printables n (s.advance 1) = (.present more, s.advance (n + 1)) := by
        refine ih.2 ⟨Nat.succ.inj hlength, ⟨after, State.rest_advance_of_cons hrest⟩, hall, ?_⟩
        rw [State.advance_advance, Nat.add_comm]
      refine ⟨c, s.advance 1, next_of_cons hrest, ?_⟩
      rw [if_pos hc, bind_of_present hmore]
      rfl

theorem hollerith_of_marker_eq_present_iff {t : String} (h : Count s digits (marker :: text))
    (hmarker : marker ∈ ['h', 'H']) :
    hollerith s = (.present t, e) ↔
      t.toList ≠ [] ∧ t.toList.length = denoted 10 digits ∧ denoted 10 digits < UInt64.size ∧
        (∃ after, text = t.toList ++ after) ∧ (∀ c ∈ t.toList, isPrintable c) ∧
        e = (afterCount s digits).advance (t.toList.length + 1) := by
  have htext : ((afterCount s digits).advance 1).rest = text :=
    State.rest_advance_of_cons (rest_afterCount h)
  rw [hollerith_of_marker h hmarker]
  by_cases hsize : UInt64.size ≤ denoted 10 digits
  · rw [if_pos hsize]
    simp [Nat.not_lt.2 hsize]
  rw [if_neg hsize]
  by_cases hzero : denoted 10 digits = 0
  · rw [if_pos hzero]
    simp +contextual [hzero]
  rw [if_neg hzero, orSay_eq_present_iff, map_eq_present_iff]
  constructor
  · rintro ⟨cs, hread, rfl⟩
    obtain ⟨hlength, hrest, hall, rfl⟩ := printables_eq_present_iff.1 hread
    rw [htext] at hrest
    rw [String.toList_ofList, State.advance_advance, hlength, Nat.add_comm]
    refine ⟨?_, rfl, Nat.lt_of_not_le hsize, hrest, hall, rfl⟩
    rintro rfl
    exact hzero hlength.symm
  · rintro ⟨-, hlength, -, hrest, hall, rfl⟩
    refine ⟨t.toList, printables_eq_present_iff.2 ⟨hlength, ?_, hall, ?_⟩, String.ofList_toList⟩
    · rwa [htext]
    · rw [State.advance_advance, hlength, Nat.add_comm]

/-! ## A text that is no Hollerith constant -/

theorem exists_count (h : (s.rest.dropWhile isBlank).takeWhile isDecimalDigit ≠ []) :
    Count s ((s.rest.dropWhile isBlank).takeWhile isDecimalDigit)
      ((s.rest.dropWhile isBlank).dropWhile isDecimalDigit) where
  body := List.takeWhile_append_dropWhile.symm
  nonempty := h
  all _ hd := List.mem_takeWhile_imp hd
  maximal := not_head_dropWhile _ _

/-- A constant that is read has a marker behind its count, for it would have been absent
otherwise. -/
theorem exists_marker_of_hollerith {t : String} (h : hollerith s = (.present t, e)) :
    ∃ digits marker text, Count s digits (marker :: text) ∧ marker ∈ ['h', 'H'] := by
  by_cases hdigits : (s.rest.dropWhile isBlank).takeWhile isDecimalDigit = []
  · rw [hollerith_of_no_digit hdigits] at h
    cases h
  have hcount := exists_count hdigits
  by_cases hmarker : ∀ c ∈ ((s.rest.dropWhile isBlank).dropWhile isDecimalDigit).head?,
      c ∉ ['h', 'H']
  · obtain ⟨n, hrun⟩ := hollerith_of_no_marker hcount hmarker
    rw [hrun] at h
    cases h
  · simp only [not_forall, Decidable.not_not] at hmarker
    obtain ⟨marker, hhead, hmarker⟩ := hmarker
    obtain ⟨text, htext⟩ := List.head?_eq_some_iff.1 hhead
    exact ⟨_, marker, text, htext ▸ hcount, hmarker⟩

theorem hollerith_of_zero (h : Count s digits (marker :: text)) (hmarker : marker ∈ ['h', 'H'])
    (hzero : denoted 10 digits = 0) :
    hollerith s = (.absent, (afterCount s digits).advance 1) := by
  have hsize : ¬UInt64.size ≤ denoted 10 digits := by
    rw [hzero]
    decide
  rw [hollerith_of_marker h hmarker, if_neg hsize, if_pos hzero]
  rfl

/-- The three ways of not being a Hollerith constant come to the same: only the digits have been
heard. -/
theorem hollerith_of_mismatch (s : State) :
    let digits := (s.rest.dropWhile isBlank).takeWhile isDecimalDigit
    let after := (s.rest.dropWhile isBlank).dropWhile isDecimalDigit
    (digits = [] ∨ (∀ c ∈ after.head?, c ∉ ['h', 'H']) ∨ denoted 10 digits = 0) →
      ∃ e, hollerith s = (.absent, e) ∧ e.log = s.log ++
        DigitString.messages (s.location + (s.rest.takeWhile isBlank).length)
          (denoted 10 digits) := by
  intro digits after h
  by_cases hdigits : digits = []
  · refine ⟨_, hollerith_of_no_digit hdigits, ?_⟩
    rw [hdigits]
    exact (List.append_nil _).symm
  have hcount : Count s digits after := exists_count hdigits
  by_cases hmarker : ∀ c ∈ after.head?, c ∉ ['h', 'H']
  · obtain ⟨n, hrun⟩ := hollerith_of_no_marker hcount hmarker
    exact ⟨_, hrun, rfl⟩
  · have hzero : denoted 10 digits = 0 := (h.resolve_left hdigits).resolve_left hmarker
    simp only [not_forall, Decidable.not_not] at hmarker
    obtain ⟨c, hc, hmarker⟩ := hmarker
    obtain ⟨text, htext⟩ := List.head?_eq_some_iff.1 hc
    rw [htext] at hcount
    exact ⟨_, hollerith_of_zero hcount hmarker hzero, rfl⟩

/-- Without digits, without a marker, or with a count of zero the constant is absent.  What is said
then is what the digits have to say, which is nothing exactly if their number fits into a word. -/
theorem hollerith_log_of_mismatch (s : State) :
    let body := s.rest.dropWhile isBlank
    let digits := body.takeWhile isDecimalDigit
    let after := body.dropWhile isDecimalDigit
    (digits = [] ∨ (∀ c ∈ after.head?, c ∉ ['h', 'H']) ∨ denoted 10 digits = 0) →
      ∃ e, hollerith s = (.absent, e) ∧
        e.log = s.log ++
          (if UInt64.size ≤ denoted 10 digits then
            [.ofOffset (s.location + (s.rest.takeWhile isBlank).length) .decimalOverflow]
          else []) ∧
        (e.log = s.log ↔ denoted 10 digits < UInt64.size) := by
  intro body digits after h
  obtain ⟨e, hrun, hlog⟩ := hollerith_of_mismatch s h
  refine ⟨e, hrun, hlog, ?_⟩
  rw [hlog, List.append_right_eq_self, DigitString.messages_eq_nil_iff]

/-- Digits that fit into a word are passed over in silence, whatever follows them. -/
theorem large_count_passed_over :
    let s := State.start (' ' :: Nat.toDigits 10 (2 ^ 64 - 1) ++ ['+', '1']) {} (by decide +kernel)
    let body := s.rest.dropWhile isBlank
    let digits := body.takeWhile isDecimalDigit
    let after := body.dropWhile isDecimalDigit
    (∀ c ∈ after.head?, c ∉ ['h', 'H']) ∧ denoted 10 digits = 2 ^ 64 - 1 ∧
      ∃ e, hollerith s = (.absent, e) ∧ e.log = s.log := by
  intro s body digits after
  have hafter : after = ['+', '1'] := by decide +kernel
  have hmarker : ∀ c ∈ after.head?, c ∉ ['h', 'H'] := by
    rw [hafter]
    rintro c ⟨⟩
    decide
  have hnumber : denoted 10 digits = 2 ^ 64 - 1 := by decide +kernel
  obtain ⟨e, hrun, -, hlog⟩ := hollerith_log_of_mismatch s (.inr (.inl hmarker))
  refine ⟨hmarker, hnumber, e, hrun, hlog.2 ?_⟩
  show denoted 10 digits < UInt64.size
  rw [hnumber]
  decide

/-- A number beyond a word is reported although no Hollerith constant begins with it. -/
theorem huge_count_reported :
    let s := State.start (Nat.toDigits 10 18446744073709551619 ++ ['X', 'a', 'b', 'c']) {}
      (by decide +kernel)
    let body := s.rest.dropWhile isBlank
    (∀ c ∈ (body.dropWhile isDecimalDigit).head?, c ∉ ['h', 'H']) ∧
      (hollerith s).1 = .absent ∧
      (hollerith s).2.log = [.ofOffset 0 .decimalOverflow] := by
  intro s body
  have hafter : body.dropWhile isDecimalDigit = ['X', 'a', 'b', 'c'] := by decide +kernel
  refine ⟨?_, by decide +kernel, by decide +kernel⟩
  rw [hafter]
  rintro c ⟨⟩
  decide

end FortranTokens.Parser
