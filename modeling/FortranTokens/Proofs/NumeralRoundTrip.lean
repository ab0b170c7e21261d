import FortranTokens.Proofs.BozReading
import FortranTokens.Proofs.HollerithReading
import FortranTokens.Render

/-!
# Numbers and counted texts read back

The digits of a number in a base denote that number (`denoted_map_toDigits`), so that a value
written in hexadecimal or in decimal digits is read back, whatever follows that cannot be one more
digit (`numbers_read_back`).  The count of a text is the number of characters that follow the
marker, so that the text is read back exactly if it is not empty and all its characters are
printable; otherwise the constant is absent, and an unprintable character is reported
(`hollerith_rendered`).
-/

namespace FortranTokens

open CharClass

/-! ## The digits of a number -/

namespace CharClass

/-- By induction on the number without its last digit. -/
theorem denoted_map_toDigits {base : Nat} {f : Char → Char} (hbase : 1 < base)
    (hf : ∀ d < base, digitValue (f d.digitChar) = d) (n : Nat) :
    denoted base ((Nat.toDigits base n).map f) = n := by
  rw [Nat.toDigits_eq_if hbase]
  split
  · rename_i hn
    exact (denoted_snoc base [] _).trans (by rw [hf n hn]; simp)
  · rename_i hn
    have hdiv : n / base < n := Nat.div_lt_self (by omega) hbase
    rw [List.map_append, List.map_singleton, denoted_snoc, denoted_map_toDigits hbase hf,
      hf _ (Nat.mod_lt n (by omega)), Nat.div_add_mod']
termination_by n

theorem forall_mem_toDigits {base : Nat} {p : Char → Prop} (hbase : 1 < base)
    (hp : ∀ d < base, p d.digitChar) (n : Nat) : ∀ c ∈ Nat.toDigits base n, p c := by
  rw [Nat.toDigits_eq_if hbase]
  split
  · rename_i hn
    simpa using hp n hn
  · rename_i hn
    have hdiv : n / base < n := Nat.div_lt_self (by omega) hbase
    rw [List.forall_mem_append, List.forall_mem_singleton]
    exact ⟨forall_mem_toDigits hbase hp _, hp _ (Nat.mod_lt n (by omega))⟩
termination_by n

theorem isDecimalDigit_digitChar : ∀ d < 10, isDecimalDigit d.digitChar := by
  decide

theorem not_isBlank_of_isDecimalDigit {c : Char} (h : isDecimalDigit c) : ¬isBlank c := by
  intro hc
  simp only [isBlank, Bool.or_eq_true, beq_iff_eq] at hc
  rcases hc with rfl | rfl <;> exact absurd h (by decide)

theorem isHexDigit_digitChar_toUpper : ∀ d < 16, isHexDigit d.digitChar.toUpper := by
  decide

theorem digitValue_digitChar_toUpper : ∀ d < 16, digitValue d.digitChar.toUpper = d := by
  decide

theorem denoted_decimal (n : Nat) : denoted 10 (Nat.toDigits 10 n) = n := by
  have hvalue : ∀ d < 10, digitValue (id d.digitChar) = d := fun d hd =>
    digitValue_digitChar d (by omega)
  have h := denoted_map_toDigits (by decide) hvalue n
  rwa [List.map_id] at h

end CharClass

namespace Parser

variable {s e : State} {after : List Char}

/-! ## Numbers -/

theorem boz_of_rendered {v : UInt64} (hrest : s.rest = (Render.bozHex v).toList ++ after) :
    boz s = (.present v, s.advance (Render.bozHex v).toList.length) := by
  have hdigits : ∀ d ∈ (Nat.toDigits 16 v.toNat).map Char.toUpper, isHexDigit d := by
    rw [List.forall_mem_map]
    exact forall_mem_toDigits (by decide) isHexDigit_digitChar_toUpper _
  have htext : (Render.bozHex v).toList =
      'Z' :: '\'' :: ((Nat.toDigits 16 v.toNat).map Char.toUpper ++ ['\'']) := by
    simp [Render.bozHex]
  have hnumber : denoted 16 ((Nat.toDigits 16 v.toNat).map Char.toUpper) = v.toNat :=
    denoted_map_toDigits (by decide) digitValue_digitChar_toUpper _
  have hvalue : Boz.HasValue .hexadecimal ((Nat.toDigits 16 v.toNat).map Char.toUpper) v :=
    { nonempty := mt List.map_eq_nil_iff.1 Nat.toDigits_ne_nil
      below := fun d _ => digitValue_lt d
      fits := hnumber.symm ▸ v.toNat_lt
      toNat_eq := hnumber.symm }
  have hform : Boz.Form s.options (Render.bozHex v).toList .hexadecimal
      ((Nat.toDigits 16 v.toNat).map Char.toUpper) := by
    rw [htext]
    exact .letterFirst (by decide) (fun h => absurd h (by decide)) (by decide) hdigits
  have hblank : s.rest.takeWhile isBlank = [] ∧ s.rest.dropWhile isBlank = s.rest := by
    rw [hrest, htext]
    exact ⟨rfl, rfl⟩
  have hread := boz_of_form (hblank.2.trans hrest) hform hvalue
  rwa [hblank.1, List.length_nil, Nat.zero_add] at hread

theorem digitString_of_rendered {v : UInt64}
    (hrest : s.rest = (Render.digitString v).toList ++ after)
    (hafter : ∀ c ∈ after.head?, ¬isDecimalDigit c) :
    digitString s = (.present ⟨v, false⟩, s.advance (Render.digitString v).toList.length) := by
  have htext : (Render.digitString v).toList = Nat.toDigits 10 v.toNat := by
    unfold Render.digitString
    rw [Nat.toString_eq_ofList_toDigits, String.toList_ofList]
  have hsize : ¬UInt64.size ≤ v.toNat := Nat.not_le.2 v.toNat_lt
  rw [htext] at hrest
  rw [digitString_of_digits hrest Nat.toDigits_ne_nil
    (forall_mem_toDigits (by decide) isDecimalDigit_digitChar _) hafter, denoted_decimal, htext]
  unfold DigitString.ofNat
  rw [DigitString.messages_eq_nil_iff.2 v.toNat_lt, decide_eq_false hsize, UInt64.ofNat_toNat,
    State.report_nil]

/-- A value written in hexadecimal digits is read back whatever follows, and one written in decimal
digits if no further digit follows. -/
theorem numbers_read_back (s : State) (v : UInt64) (r : List Char) :
    (s.rest = (Render.bozHex v).toList ++ r →
      let e := s.advance (Render.bozHex v).toList.length
      boz s = (.present v, e) ∧ e.rest = r ∧ e.log = s.log) ∧
    (s.rest = (Render.digitString v).toList ++ r → (∀ c ∈ r.head?, ¬isDecimalDigit c) →
      let e := s.advance (Render.digitString v).toList.length
      digitString s = (.present ⟨v, false⟩, e) ∧ e.rest = r ∧ e.log = s.log) := by
  constructor
  · intro hrest e
    exact ⟨boz_of_rendered hrest, State.rest_advance_of_append hrest, State.log_advance _ _⟩
  · intro hrest hr e
    exact ⟨digitString_of_rendered hrest hr, State.rest_advance_of_append hrest,
      State.log_advance _ _⟩

/-- The largest value, before a quote and another base letter, and before a marker. -/
theorem largest_value_read_back :
    let s := State.start "Z'FFFFFFFFFFFFFFFF''Z".toList {} (by decide +kernel)
    let s' := State.start "18446744073709551615H".toList { strict := true } (by decide +kernel)
    let v : UInt64 := 18446744073709551615
    s.rest = (Render.bozHex v).toList ++ ['\'', 'Z'] ∧
      boz s = (.present v, s.advance 19) ∧
      s'.rest = (Render.digitString v).toList ++ ['H'] ∧
      digitString s' = (.present ⟨v, false⟩, s'.advance 20) ∧ (s'.advance 20).log = [] := by
  intro s s' v
  have hrest : s.rest = (Render.bozHex v).toList ++ ['\'', 'Z'] := by decide +kernel
  have hrest' : s'.rest = (Render.digitString v).toList ++ ['H'] := by decide +kernel
  have hlength : (Render.bozHex v).toList.length = 19 := by decide +kernel
  have hlength' : (Render.digitString v).toList.length = 20 := by decide +kernel
  have hafter : ∀ c ∈ ['H'].head?, ¬isDecimalDigit c := by
    rintro c ⟨⟩
    decide
  obtain ⟨hread, -, -⟩ := (numbers_read_back s v _).1 hrest
  obtain ⟨hread', -, hlog'⟩ := (numbers_read_back s' v _).2 hrest' hafter
  rw [hlength] at hread
  rw [hlength'] at hread' hlog'
  exact ⟨hrest, hread, hrest', hread', hlog'⟩

/-! ## Counted texts -/

/-- The unread text has no more characters than the source has bytes. -/
theorem length_rest_lt (s : State) : s.rest.length < UInt32.size := by
  have hle := Text.length_le_byteSize s.rest
  have hsize : s.cursor.size.toNat = Text.byteSize s.cursor.past + Text.byteSize s.rest :=
    s.cursor.size_eq
  have hlt := s.cursor.size.toNat_lt
  unfold UInt32.size
  omega

theorem toList_hollerith (t : String) : (Render.hollerith t).toList =
    Nat.toDigits 10 t.toList.length ++ 'H' :: t.toList := by
  unfold Render.hollerith
  rw [Nat.toString_eq_ofList_toDigits]
  simp

/-- A rendered count is the number of characters of the text, and it begins without a blank. -/
theorem count_of_rendered {t : String} (hrest : s.rest = (Render.hollerith t).toList ++ after) :
    s.rest.takeWhile isBlank = [] ∧
      Count s (Nat.toDigits 10 t.toList.length) ('H' :: (t.toList ++ after)) := by
  rw [toList_hollerith, List.append_assoc] at hrest
  have hdigits : ∀ d ∈ Nat.toDigits 10 t.toList.length, isDecimalDigit d :=
    forall_mem_toDigits (by decide) isDecimalDigit_digitChar _
  have hfirst : ∀ c ∈ s.rest.head?, ¬isBlank c := by
    obtain ⟨d, ds, hd⟩ := List.exists_cons_of_ne_nil
      (Nat.toDigits_ne_nil : Nat.toDigits 10 t.toList.length ≠ [])
    rw [hd] at hdigits
    rw [hrest, hd]
    simpa using not_isBlank_of_isDecimalDigit (hdigits d List.mem_cons_self)
  refine ⟨(no_blanks hfirst).1, ?_⟩
  exact
    { body := (no_blanks hfirst).2.trans hrest
      nonempty := Nat.toDigits_ne_nil
      all := hdigits
      maximal := by
        rintro c ⟨⟩
        decide }

theorem length_lt_of_rendered {t : String} (hrest : s.rest = (Render.hollerith t).toList ++ after) :
    t.toList.length < UInt64.size := by
  have hlt := length_rest_lt s
  rw [hrest, toList_hollerith] at hlt
  simp only [List.length_append, List.length_cons, UInt32.size] at hlt
  unfold UInt64.size
  omega

/-- The count of a text that stands in a source fits into a word, so that it has nothing to say. -/
theorem log_afterCount_of_rendered {t : String}
    (hrest : s.rest = (Render.hollerith t).toList ++ after) :
    (afterCount s (Nat.toDigits 10 t.toList.length)).log = s.log := by
  unfold afterCount
  rw [denoted_decimal, DigitString.messages_eq_nil_iff.2 (length_lt_of_rendered hrest),
    State.report_nil, State.log_advance]

theorem hollerith_of_rendered {t : String} (hne : t.toList ≠ [])
    (hprint : ∀ c ∈ t.toList, isPrintable c)
    (hrest : s.rest = (Render.hollerith t).toList ++ after) :
    hollerith s = (.present t, s.advance (Render.hollerith t).toList.length) := by
  obtain ⟨hblanks, hcount⟩ := count_of_rendered hrest
  have hlength : t.toList.length < UInt64.size := length_lt_of_rendered hrest
  rw [hollerith_of_marker_eq_present_iff hcount (by decide), denoted_decimal]
  refine ⟨hne, rfl, hlength, ⟨after, rfl⟩, hprint, ?_⟩
  rw [advance_afterCount (by rwa [denoted_decimal]), hblanks, toList_hollerith]
  congr 1
  simp only [List.length_append, List.length_cons, List.length_nil]
  omega

theorem hollerith_of_rendered_empty (hrest : s.rest = (Render.hollerith "").toList ++ after) :
    ∃ e, hollerith s = (.absent, e) ∧ e.log = s.log := by
  obtain ⟨-, hcount⟩ := count_of_rendered hrest
  exact ⟨_, hollerith_of_zero hcount (by decide) (denoted_decimal _),
    log_afterCount_of_rendered hrest⟩

theorem hollerith_of_rendered_unprintable {t : String} (hbad : ∃ c ∈ t.toList, ¬isPrintable c)
    (hrest : s.rest = (Render.hollerith t).toList ++ after) :
    ∃ e, hollerith s = (.absent, e) ∧ e.log = s.log ++ [.ofOffset s.location .badHollerith] := by
  obtain ⟨hblanks, hcount⟩ := count_of_rendered hrest
  obtain ⟨c, hc, hprint⟩ := hbad
  have hpos : 1 ≤ t.toList.length := List.length_pos_of_mem hc
  have htake : c ∈ (t.toList ++ after).take t.toList.length := by rwa [List.take_left]
  obtain ⟨e, hrun, hlog⟩ := hollerith_of_bad_text hcount (by decide)
    (.inr (by rw [denoted_decimal]; exact ⟨hpos, .inr ⟨c, htake, hprint⟩⟩))
  refine ⟨e, hrun, ?_⟩
  rw [hlog, log_afterCount_of_rendered hrest, hblanks]
  rfl

/-- The texts that are read back from what is written for them are those that are not empty and
have printable characters only.  For the empty text nothing is said, and for a text with another
character that it is bad. -/
theorem hollerith_rendered (s : State) (t : String) (r : List Char)
    (hrest : s.rest = (Render.hollerith t).toList ++ r) :
    let e := s.advance (Render.hollerith t).toList.length
    (hollerith s = (.present t, e) ∧ e.rest = r ∧ e.log = s.log ↔
      t ≠ "" ∧ ∀ c ∈ t.toList, isPrintable c) ∧
    (t = "" → ∃ e, hollerith s = (.absent, e) ∧ e.log = s.log) ∧
    ((∃ c ∈ t.toList, ¬isPrintable c) →
      ∃ e, hollerith s = (.absent, e) ∧
        e.log = s.log ++ [.ofOffset s.location .badHollerith]) := by
  intro e
  have hempty : t = "" → ∃ e, hollerith s = (.absent, e) ∧ e.log = s.log := by
    rintro rfl
    exact hollerith_of_rendered_empty hrest
  have hbad : (∃ c ∈ t.toList, ¬isPrintable c) → ∃ e, hollerith s = (.absent, e) ∧
      e.log = s.log ++ [.ofOffset s.location .badHollerith] :=
    fun h => hollerith_of_rendered_unprintable h hrest
  refine ⟨⟨?_, ?_⟩, hempty, hbad⟩
  · rintro ⟨hread, -, -⟩
    constructor
    · intro h
      obtain ⟨e', hrun, -⟩ := hempty h
      rw [hrun] at hread
      cases hread
    · by_contra h
      simp only [not_forall] at h
      obtain ⟨c, hc, hprint⟩ := h
      obtain ⟨e', hrun, -⟩ := hbad ⟨c, hc, hprint⟩
      rw [hrun] at hread
      cases hread
  · rintro ⟨hne, hprint⟩
    have htext : t.toList ≠ [] := mt String.toList_eq_nil_iff.1 hne
    exact ⟨hollerith_of_rendered htext hprint hrest, State.rest_advance_of_append hrest,
      State.log_advance _ _⟩

/-- A text that begins like a count, the empty text, and a text with a character beyond ASCII. -/
theorem counted_texts_read_back :
    let s := State.start "5H3H  x7".toList {} (by decide +kernel)
    let s' := State.start "0Hx".toList {} (by decide +kernel)
    let t := State.start "2Haé".toList {} (by decide +kernel)
    s.rest = (Render.hollerith "3H  x").toList ++ ['7'] ∧
      hollerith s = (.present "3H  x", s.advance 7) ∧ (s.advance 7).rest = ['7'] ∧
      s'.rest = (Render.hollerith "").toList ++ ['x'] ∧
      (∃ e, hollerith s' = (.absent, e) ∧ e.log = []) ∧
      t.rest = (Render.hollerith "aé").toList ++ [] ∧
      ∃ e, hollerith t = (.absent, e) ∧ e.log = [.ofOffset 0 .badHollerith] := by
  intro s s' t
  have hrest : s.rest = (Render.hollerith "3H  x").toList ++ ['7'] := by decide +kernel
  have hrest' : s'.rest = (Render.hollerith "").toList ++ ['x'] := by decide +kernel
  have hrest'' : t.rest = (Render.hollerith "aé").toList ++ [] := by decide +kernel
  have hlength : (Render.hollerith "3H  x").toList.length = 7 := by decide +kernel
  have hprint : ∀ c ∈ "3H  x".toList, isPrintable c := List.all_eq_true.1 (by decide +kernel)
  have hbad : ∃ c ∈ "aé".toList, ¬isPrintable c := ⟨'é', by decide +kernel, by decide⟩
  obtain ⟨hread, hback, -⟩ := (hollerith_rendered s _ _ hrest).1.2 ⟨by decide, hprint⟩
  rw [hlength] at hread hback
  exact ⟨hrest, hread, hback, hrest', (hollerith_rendered s' _ _ hrest').2.1 rfl, hrest'',
    (hollerith_rendered t _ _ hrest'').2.2 hbad⟩

end Parser

end FortranTokens
