import FortranTokens.Proofs.HollerithText

/-!
# Reading Hollerith constants

Behind the marker a Hollerith constant is read or reported: it is read where the count denotes a
number from 1 on that fits into a word, and as many printable characters follow, and unless the
count is zero it is reported otherwise, where its count starts
(`hollerith_eq_present_iff_and_log_of_marker`).
-/

namespace FortranTokens.Parser

open CharClass

variable {s e : State} {digits text : List Char} {marker : Char}

/-! ## Texts that are too short or not printable -/

theorem quiet_printables : ∀ n, Quiet (printables n)
  | 0 => quiet_pure _
  | n + 1 => quiet_next.bind fun _ =>
      ((quiet_printables n).bind fun _ => quiet_pure _).ite quiet_absent

theorem printables_of_bad_text {n : Nat}
    (h : s.rest.length < n ∨ ∃ c ∈ s.rest.take n, ¬isPrintable c) :
    ∃ k, printables n s = (.absent, s.advance k) := by
  obtain ⟨k, hrun | ⟨text, hrun⟩⟩ := quiet_printables n s
  · exact ⟨k, hrun⟩
  · obtain ⟨hlength, ⟨after, hrest⟩, hall, -⟩ := printables_eq_present_iff.1 hrun
    rcases h with hshort | ⟨c, hc, hprint⟩
    · rw [hrest, List.length_append, hlength] at hshort
      omega
    · rw [hrest, ← hlength, List.take_left] at hc
      exact absurd (hall c hc) hprint

/-- A count that is too large has been reported as such before, and no other has. -/
theorem hollerith_of_bad_text (h : Count s digits (marker :: text)) (hmarker : marker ∈ ['h', 'H'])
    (hbad : UInt64.size ≤ denoted 10 digits ∨
      1 ≤ denoted 10 digits ∧
        (text.length < denoted 10 digits ∨
          ∃ c ∈ text.take (denoted 10 digits), ¬isPrintable c)) :
    ∃ e, hollerith s = (.absent, e) ∧
      e.log = (afterCount s digits).log ++
        [.ofOffset (s.location + (s.rest.takeWhile isBlank).length) .badHollerith] := by
  rw [hollerith_of_marker h hmarker]
  by_cases hsize : UInt64.size ≤ denoted 10 digits
  · rw [if_pos hsize]
    exact ⟨_, rfl, rfl⟩
  obtain ⟨hpos, hbad⟩ := hbad.resolve_left hsize
  have hrest : ((afterCount s digits).advance 1).rest = text :=
    State.rest_advance_of_cons (rest_afterCount h)
  rw [← hrest] at hbad
  obtain ⟨k, hread⟩ := printables_of_bad_text hbad
  rw [if_neg hsize, if_neg (Nat.ne_of_gt hpos)]
  refine ⟨_, orSay_of_absent _ _ (t := ((afterCount s digits).advance 1).advance k) ?_, rfl⟩
  rw [map_apply, hread]
  rfl

/-! ## Constants -/

/-- A count that fits into a word has said nothing. -/
theorem advance_afterCount (hfits : denoted 10 digits < UInt64.size) (n : Nat) :
    (afterCount s digits).advance (n + 1) =
      s.advance ((s.rest.takeWhile isBlank).length + digits.length + 1 + n) := by
  unfold afterCount
  rw [DigitString.messages_eq_nil_iff.2 hfits, State.report_nil, State.advance_advance,
    ← Nat.add_assoc, Nat.add_right_comm]

theorem hollerith_eq_present_iff (s e : State) (t : String) :
    hollerith s = (.present t, e) ↔
      ∃ digits marker after,
        Count s digits (marker :: (t.toList ++ after)) ∧ marker ∈ ['h', 'H'] ∧
        t.toList.length = denoted 10 digits ∧ 1 ≤ denoted 10 digits ∧
        denoted 10 digits < UInt64.size ∧ (∀ c ∈ t.toList, isPrintable c) ∧
        e = s.advance
          ((s.rest.takeWhile isBlank).length + digits.length + 1 + t.toList.length) := by
  constructor
  · intro h
    obtain ⟨digits, marker, text, hcount, hmarker⟩ := exists_marker_of_hollerith h
    obtain ⟨hne, hlength, hfits, ⟨after, rfl⟩, hall, rfl⟩ :=
      (hollerith_of_marker_eq_present_iff hcount hmarker).1 h
    refine ⟨digits, marker, after, hcount, hmarker, hlength, ?_, hfits, hall,
      advance_afterCount hfits _⟩
    rw [← hlength]
    exact List.length_pos_iff.2 hne
  · rintro ⟨digits, marker, after, hcount, hmarker, hlength, hpos, hfits, hall, rfl⟩
    refine (hollerith_of_marker_eq_present_iff hcount hmarker).2
      ⟨?_, hlength, hfits, ⟨after, rfl⟩, hall, (advance_afterCount hfits _).symm⟩
    rw [← hlength] at hpos
    exact List.length_pos_iff.1 hpos

/-- A constant is read where a count that fits into a word, a marker and that many printable
characters stand.  Behind a marker, a count that does not fit and a text that is not as the count
says are reported, last of all. -/
theorem hollerith_eq_present_iff_and_log_of_marker (s : State) :
    let blanks := (s.rest.takeWhile isBlank).length
    (∀ t e, hollerith s = (.present t, e) ↔
      ∃ digits marker after,
        Count s digits (marker :: (t.toList ++ after)) ∧ marker ∈ ['h', 'H'] ∧
        t.toList.length = denoted 10 digits ∧ 1 ≤ denoted 10 digits ∧
        denoted 10 digits < UInt64.size ∧ (∀ c ∈ t.toList, isPrintable c) ∧
        e = s.advance (blanks + digits.length + 1 + t.toList.length)) ∧
    (∀ digits marker text, Count s digits (marker :: text) → marker ∈ ['h', 'H'] →
      (UInt64.size ≤ denoted 10 digits ∨
        1 ≤ denoted 10 digits ∧
          (text.length < denoted 10 digits ∨
            ∃ c ∈ text.take (denoted 10 digits), ¬isPrintable c)) →
      ∃ e, hollerith s = (.absent, e) ∧
        e.log = s.log ++
          (if UInt64.size ≤ denoted 10 digits then
            [.ofOffset (s.location + blanks) .decimalOverflow]
          else []) ++ [.ofOffset (s.location + blanks) .badHollerith]) :=
  ⟨fun t e => hollerith_eq_present_iff s e t, fun _ _ _ => hollerith_of_bad_text⟩

/-- A count that denotes 3 only modulo the size of a word, and a text in which the second of three
characters is beyond ASCII. -/
theorem bad_hollerith_texts_reported :
    let count := Nat.toDigits 10 18446744073709551619
    let s := State.start (count ++ 'H' :: ['a', 'b', 'c']) {} (by decide +kernel)
    let s' := State.start [' ', '3', 'h', 'a', '\u00e9', 'b'] {} (by decide)
    (∃ e, hollerith s = (.absent, e) ∧
      e.log = [.ofOffset 0 .decimalOverflow, .ofOffset 0 .badHollerith]) ∧
    ∃ e, hollerith s' = (.absent, e) ∧ e.log = [.ofOffset 1 .badHollerith] := by
  intro count s s'
  constructor
  · have hcount : Count s count ('H' :: ['a', 'b', 'c']) :=
      { body := by decide +kernel
        nonempty := by decide +kernel
        all := List.all_eq_true.1 (by decide +kernel)
        maximal := by
          rintro c ⟨⟩
          decide }
    have hlarge : UInt64.size ≤ denoted 10 count := by decide +kernel
    obtain ⟨e, hrun, hlog⟩ := (hollerith_eq_present_iff_and_log_of_marker s).2 _ _ _ hcount
      (by decide) (.inl hlarge)
    rw [if_pos hlarge] at hlog
    exact ⟨e, hrun, hlog⟩
  · have hcount : Count s' ['3'] ('h' :: ['a', '\u00e9', 'b']) :=
      { body := by decide +kernel
        nonempty := by decide
        all := List.all_eq_true.1 (by decide)
        maximal := by
          rintro c ⟨⟩
          decide }
    have hbad : ∃ c ∈ ['a', '\u00e9', 'b'].take (denoted 10 ['3']), ¬isPrintable c :=
      ⟨'\u00e9', by decide +kernel, by decide⟩
    exact (hollerith_eq_present_iff_and_log_of_marker s').2 _ _ _ hcount (by decide)
      (.inr ⟨by decide +kernel, .inr hbad⟩)

end FortranTokens.Parser
