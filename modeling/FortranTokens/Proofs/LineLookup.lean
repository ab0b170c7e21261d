import Mathlib.Data.List.DropRight
import FortranTokens.Proofs.LineStarts

/-!
# Looking up lines and columns

The line of a boundary begins behind the last newline of the text before it; what stands from there
on is cut out of the source and counted (`LineTable.lineColumnAt_of_boundary`).  So the numbers found
are those of the text itself (`LineTable.behind`), counted from one.  As counting from one ends one
step later than a word does, the last step fails where it is taken at all, and this is behind a
source of as many characters as a word can count, which are all newlines or make up a single line
(`LineTable.Filled`, `LineTable.lineColumnAt_ofSource`).
-/

namespace FortranTokens

open Text (byteSize bytes)

namespace LineTable

variable {n : Nat} {offset : UInt32} {front back source : List Char}

/-! ## Numbers and words -/

/-- The line and the column just behind a text, counted in the text itself. -/
def behind (text : List Char) : Nat × Nat :=
  ((bytes text).count 10 + 1, (text.rtakeWhile (· ≠ '\n')).length + 1)

theorem behind_le {text : List Char} (h : byteSize text < UInt32.size) :
    (behind text).1 ≤ UInt32.size ∧ (behind text).2 ≤ UInt32.size := by
  have hlast := (List.rtakeWhile_suffix (· ≠ '\n') text).length_le
  exact ⟨Nat.lt_of_le_of_lt (Text.count_newline_le text) h,
    Nat.lt_of_le_of_lt (hlast.trans (Text.length_le_byteSize text)) h⟩

/-- The numbers of words are those below the size. -/
theorem exists_toNat_iff (h : n ≤ UInt32.size) : (∃ w : UInt32, w.toNat = n) ↔ n ≠ UInt32.size := by
  constructor
  · rintro ⟨w, rfl⟩
    exact Nat.ne_of_lt w.toNat_lt
  · intro hne
    exact ⟨UInt32.ofNat n, UInt32.toNat_ofNat_of_lt' (Nat.lt_of_le_of_ne h hne)⟩

/-! ## Sources that no word can count -/

/-- The source has as many characters as a word can count, the offset is behind all of them, and all
of them satisfy `p`. -/
structure Filled (p : Char → Prop) (source : List Char) (offset : UInt32) : Prop where
  length : source.length + 1 = UInt32.size
  offset : offset.toNat + 1 = UInt32.size
  all : ∀ c ∈ source, p c

theorem filled_replicate {p : Char → Prop} {c : Char} (hc : p c) (hn : n + 1 = UInt32.size)
    (hoffset : offset.toNat = n) : Filled p (List.replicate n c) offset where
  length := by rw [List.length_replicate, hn]
  offset := by rw [hoffset, hn]
  all d hd := List.eq_of_mem_replicate hd ▸ hc

/-- The newlines before an offset are too many for a word only if there is nothing else. -/
theorem newlines_eq_size_iff (hsize : byteSize source < UInt32.size) :
    ((bytes source).take offset.toNat).count 10 + 1 = UInt32.size ↔
      Filled (· = '\n') source offset := by
  have hlength := Text.length_bytes source
  have hchars := Text.length_le_byteSize source
  have hoffset : offset.toNat < UInt32.size := offset.toNat_lt
  have hnewlines (hend : byteSize source ≤ offset.toNat) :
      ((bytes source).take offset.toNat).count 10 = source.count '\n' := by
    rw [List.take_of_length_le (hlength ▸ hend), Text.count_newline]
  constructor
  · intro hcount
    have htaken : ((bytes source).take offset.toNat).count 10 ≤ _ := List.count_le_length
    rw [List.length_take, hlength] at htaken
    have hend : byteSize source ≤ offset.toNat := by omega
    have hfull : offset.toNat + 1 = UInt32.size := by omega
    have hle : source.count '\n' ≤ source.length := List.count_le_length
    rw [hnewlines hend] at hcount
    have hall : source.count '\n' = source.length := by omega
    exact ⟨hall ▸ hcount, hfull, fun c hc => (List.count_eq_length.1 hall c hc).symm⟩
  · rintro ⟨hcount, hend, hall⟩
    rw [hnewlines (by omega), List.count_eq_length.2 fun c hc => (hall c hc).symm, hcount]

/-- The characters before an offset are too many for a column only if they make up one line, which
is all of the source. -/
theorem lastLine_eq_size_iff (hsize : byteSize source < UInt32.size) (h : source = front ++ back)
    (hfront : byteSize front = min offset.toNat (byteSize source)) :
    (front.rtakeWhile (· ≠ '\n')).length + 1 = UInt32.size ↔
      Filled (· ≠ '\n') source offset := by
  have hsuffix : front.rtakeWhile (· ≠ '\n') <:+ front := List.rtakeWhile_suffix _ _
  have hoffset : offset.toNat < UInt32.size := offset.toNat_lt
  have hchars := Text.length_le_byteSize front
  have hbytes : byteSize source = byteSize front + byteSize back := by
    rw [h, Text.byteSize_append]
  constructor
  · intro hlast
    have hle := hsuffix.length_le
    have hback : back = [] := Text.eq_nil_of_byteSize_eq_zero (by omega)
    have hself : front.rtakeWhile (· ≠ '\n') = front := hsuffix.eq_of_length (by omega)
    rw [hback, List.append_nil] at h
    rw [hself] at hlast
    refine ⟨h ▸ hlast, by omega, fun c hc => ?_⟩
    simpa using List.rtakeWhile_eq_self_iff.1 hself c (h ▸ hc)
  · rintro ⟨hcount, hend, hall⟩
    have hle := Text.length_le_byteSize source
    have hback : back = [] := Text.eq_nil_of_byteSize_eq_zero (by omega)
    rw [hback, List.append_nil] at h
    rw [← h, List.rtakeWhile_eq_self_iff.2 fun c hc => by simpa using hall c hc, hcount]

/-! ## Columns -/

theorem take_bytes_of_boundary (h : source = front ++ back)
    (hfront : byteSize front = min n (byteSize source)) :
    (bytes source).take n = bytes front := by
  have hlength := Text.length_bytes source
  have htake : (bytes source).take n = (bytes source).take (byteSize front) := by
    rw [List.take_eq_take_iff, hlength, hfront]
    omega
  rw [htake, h, Text.bytes_append, ← Text.length_bytes front, List.take_left]

/-- A line begins at the start of the source or behind a newline. -/
def BeginsLine (front : List Char) : Prop := front = [] ∨ ∃ before, front = before ++ ['\n']

theorem start_of_line (h : BeginsLine front) (back : List Char) :
    (ofSource (front ++ back)).starts[(bytes front).count 10]? =
      some (UInt32.ofNat (byteSize front)) := by
  rw [← Array.getElem?_toList, starts_ofSource, Text.bytes_append, endsFrom_append,
    List.getElem?_map]
  rcases h with rfl | ⟨before, rfl⟩
  · rfl
  · have hcount : (endsFrom 0 (bytes before)).length = (bytes before).count 10 :=
      length_endsFrom 0 _
    have hends : endsFrom 0 (bytes (before ++ ['\n'])) =
        endsFrom 0 (bytes before) ++ [byteSize (before ++ ['\n'])] := by
      rw [Text.bytes_append, endsFrom_append, Text.bytes_newline, Text.length_bytes,
        Text.byteSize_append, Nat.zero_add]
      rfl
    rw [hends, Text.bytes_append, Text.bytes_newline, List.count_append, ← hcount,
      List.append_assoc]
    simp

/-- The last line of a text and what stands before it, up to and with its last newline. -/
theorem exists_last_line (text : List Char) :
    ∃ before last, text = before ++ last ∧ BeginsLine before ∧ '\n' ∉ last ∧
      text.rtakeWhile (· ≠ '\n') = last := by
  refine ⟨text.rdropWhile (· ≠ '\n'), _, List.rdropWhile_append_rtakeWhile.symm, ?_, ?_, rfl⟩
  · by_cases hempty : text.rdropWhile (· ≠ '\n') = []
    · exact .inl hempty
    · have hnewline : (text.rdropWhile (· ≠ '\n')).getLast hempty = '\n' := by
        simpa using List.rdropWhile_last_not _ text hempty
      have hsnoc := List.dropLast_append_getLast hempty
      rw [hnewline] at hsnoc
      exact .inr ⟨_, hsnoc.symm⟩
  · intro hmem
    simpa using List.mem_rtakeWhile_imp hmem

/-- An offset behind the beginning of a line and some of its characters. -/
theorem lineColumnAt_of_line {before last : List Char} (hsize : byteSize source < UInt32.size)
    (hbefore : BeginsLine before) (hlast : '\n' ∉ last) (h : source = before ++ last ++ back)
    (hstop : byteSize (before ++ last) = min offset.toNat (byteSize source)) :
    (ofSource source).lineColumnAt source offset = do
      return (← ordinal ((bytes before).count 10), ← ordinal last.length) := by
  have hline : (ofSource source).lineAt offset = ordinal ((bytes before).count 10) := by
    rw [lineAt_ofSource hsize, take_bytes_of_boundary h hstop,
      Text.count_newline_append before hlast]
  have hshort : byteSize before < UInt32.size := by
    rw [h, Text.byteSize_append, Text.byteSize_append] at hsize
    omega
  have hword : (UInt32.ofNat (byteSize before)).toNat = byteSize before :=
    UInt32.toNat_ofNat_of_lt' hshort
  rw [List.append_assoc] at h
  have hstart : (ofSource source).starts[(bytes before).count 10]? =
      some (UInt32.ofNat (byteSize before)) := by
    rw [h]
    exact start_of_line hbefore _
  have hcut : Text.between? (byteSize before) (min offset.toNat (byteSize source)) source =
      some last := by
    rw [← hstop, h, Text.byteSize_append]
    exact Text.between?_append before last back
  unfold lineColumnAt
  rw [hline]
  rcases hn : ordinal ((bytes before).count 10) with e | line
  · rfl
  · have hpred : (line - 1).toNat = (bytes before).count 10 := by
      have hsucc := (ordinal_eq_ok_iff (Nat.lt_of_le_of_lt (Text.count_newline_le _) hshort)).1 hn
      have hone : (1 : UInt32) ≤ line := by
        rw [UInt32.le_iff_toNat_le, hsucc, UInt32.toNat_one]
        exact Nat.le_add_left _ _
      rw [UInt32.toNat_sub_of_le _ _ hone, hsucc, UInt32.toNat_one, Nat.add_sub_cancel]
    simp only [bind, Except.bind, hpred, hstart, Option.getD_some, hword, hcut]

section

variable (hsize : byteSize source < UInt32.size) (h : source = front ++ back)
  (hfront : byteSize front = min offset.toNat (byteSize source))

include hsize h hfront

theorem lineColumnAt_of_boundary :
    (ofSource source).lineColumnAt source offset = do
      return (← ordinal ((bytes front).count 10),
        ← ordinal (front.rtakeWhile (· ≠ '\n')).length) := by
  obtain ⟨before, last, rfl, hbefore, hlast, hline⟩ := exists_last_line front
  rw [lineColumnAt_of_line hsize hbefore hlast h hfront, hline,
    Text.count_newline_append before hlast]

/-- Where a text has been read, its own line and column are found, if they are words. -/
theorem lineColumnAt_eq_ok_iff {line column : UInt32} :
    (ofSource source).lineColumnAt source offset = .ok (line, column) ↔
      line.toNat = (behind front).1 ∧ column.toNat = (behind front).2 := by
  obtain ⟨hlines, hcolumns⟩ := behind_le (by omega : byteSize front < UInt32.size)
  have hline := ordinal_eq_ok_iff (w := line) hlines
  have hcolumn := ordinal_eq_ok_iff (w := column) hcolumns
  rw [lineColumnAt_of_boundary hsize h hfront, behind, ← hline, ← hcolumn]
  rcases ordinal ((bytes front).count 10) with e | w
  · exact ⟨nofun, fun heq => nomatch heq.1⟩
  · rcases ordinal (front.rtakeWhile (· ≠ '\n')).length with e | v
    · exact ⟨nofun, fun heq => nomatch heq.2⟩
    · show Except.ok (w, v) = _ ↔ _
      simp

theorem lineColumnAt_eq_error
    (hlarge : (behind front).1 = UInt32.size ∨ (behind front).2 = UInt32.size) :
    (ofSource source).lineColumnAt source offset = .error .sumTooLarge := by
  rw [lineColumnAt_of_boundary hsize h hfront]
  rcases hlarge with hline | hcolumn
  · rw [ordinal_eq_error hline]
    rfl
  · rw [ordinal_eq_error hcolumn]
    rcases ordinal_cases ((bytes front).count 10) with hline | ⟨w, hline⟩ <;> rw [hline] <;> rfl

theorem behind_eq_size_iff :
    ((behind front).1 = UInt32.size ↔ Filled (· = '\n') source offset) ∧
      ((behind front).2 = UInt32.size ↔ Filled (· ≠ '\n') source offset) := by
  refine ⟨?_, lastLine_eq_size_iff hsize h hfront⟩
  rw [← newlines_eq_size_iff hsize, take_bytes_of_boundary h hfront]
  rfl

theorem exists_lineColumnAt_iff :
    (∃ line column, (ofSource source).lineColumnAt source offset = .ok (line, column)) ↔
      ¬Filled (· = '\n') source offset ∧ ¬Filled (· ≠ '\n') source offset := by
  obtain ⟨hlines, hcolumns⟩ := behind_le (by omega : byteSize front < UInt32.size)
  obtain ⟨hnewlines, hothers⟩ := behind_eq_size_iff hsize h hfront
  simp only [lineColumnAt_eq_ok_iff hsize h hfront, exists_and_left, exists_and_right]
  rw [exists_toNat_iff hlines, exists_toNat_iff hcolumns, ne_eq, hnewlines, ne_eq, hothers]

end

theorem newlines_lt (hsize : byteSize source < UInt32.size) (offset : UInt32) :
    ((bytes source).take offset.toNat).count 10 < UInt32.size :=
  Nat.lt_of_le_of_lt
    (((List.take_sublist _ _).count_le 10).trans (Text.count_newline_le source)) hsize

theorem lineAt_eq_ok_iff {line : UInt32} (hsize : byteSize source < UInt32.size) :
    (ofSource source).lineAt offset = .ok line ↔
      line.toNat = ((bytes source).take offset.toNat).count 10 + 1 := by
  rw [lineAt_ofSource hsize, ordinal_eq_ok_iff (newlines_lt hsize offset)]

/-- The line of an offset is counted by the newline bytes before it.  Its column, where the offset
or else the end of the source is a boundary, is counted by the characters from the last newline
before it on, or from the start of the source if there is none.  There is an answer unless the
offset is behind as many characters as a word can count, and these are all newlines, or none of them
is; then the last step of counting is too large for a word.  The starts in the table are offsets of
the source themselves. -/
theorem lineColumnAt_ofSource (source : List Char) (offset : UInt32)
    (hsize : byteSize source < UInt32.size) :
    (∀ n ∈ (ofSource source).starts, n.toNat ≤ byteSize source) ∧
      ((∃ line, (ofSource source).lineAt offset = .ok line ∧
          line.toNat = ((bytes source).take offset.toNat).count 10 + 1) ↔
        ¬Filled (· = '\n') source offset) ∧
      (Filled (· = '\n') source offset →
        (ofSource source).lineAt offset = .error .sumTooLarge) ∧
      ∀ front back, source = front ++ back → byteSize front = min offset.toNat (byteSize source) →
        ((∃ line column, (ofSource source).lineAt offset = .ok line ∧
            (ofSource source).lineColumnAt source offset = .ok (line, column) ∧
            column.toNat = (front.rtakeWhile (· ≠ '\n')).length + 1) ↔
          ¬Filled (· = '\n') source offset ∧ ¬Filled (· ≠ '\n') source offset) ∧
        (Filled (· = '\n') source offset ∨ Filled (· ≠ '\n') source offset →
          (ofSource source).lineColumnAt source offset = .error .sumTooLarge) := by
  refine ⟨fun n => toNat_le_of_mem_starts hsize, ?line, fun hfilled => ?_,
    fun front back h hfront => ⟨?column, fun hfilled => ?_⟩⟩
  case line =>
    simp only [lineAt_eq_ok_iff hsize, and_self]
    rw [exists_toNat_iff (newlines_lt hsize offset), ne_eq, newlines_eq_size_iff hsize]
  case column =>
    rw [← exists_lineColumnAt_iff hsize h hfront]
    refine exists_congr fun line => exists_congr fun column => ?_
    rw [lineAt_eq_ok_iff hsize, lineColumnAt_eq_ok_iff hsize h hfront,
      take_bytes_of_boundary h hfront]
    exact ⟨fun hboth => hboth.2.1, fun hboth => ⟨hboth.1, hboth, hboth.2⟩⟩
  · rw [lineAt_ofSource hsize]
    exact ordinal_eq_error ((newlines_eq_size_iff hsize).2 hfilled)
  · obtain ⟨hnewlines, hothers⟩ := behind_eq_size_iff hsize h hfront
    exact lineColumnAt_eq_error hsize h hfront (hfilled.imp hnewlines.2 hothers.2)

/-- Just behind a newline, on an empty line, behind wide characters, and past the end. -/
theorem places_among_wide_characters :
    let source := ['é', '\n', '\n', 'a', '😀', 'b']
    byteSize source < UInt32.size ∧
    (byteSize ['é', '\n'] = min 3 (byteSize source) ∧
      (ofSource source).lineColumnAt source 3 = .ok (2, 1)) ∧
    (byteSize ['é', '\n', '\n', 'a', '😀'] = min 9 (byteSize source) ∧
      (ofSource source).lineColumnAt source 9 = .ok (3, 3)) ∧
    byteSize source = min 4000 (byteSize source) ∧
      (ofSource source).lineColumnAt source 4000 = .ok (3, 4) := by
  intro source
  have hsize : byteSize source < UInt32.size := by decide +kernel
  have hempty : byteSize ['é', '\n'] = min 3 (byteSize source) := by decide +kernel
  have hwide : byteSize ['é', '\n', '\n', 'a', '😀'] = min 9 (byteSize source) := by
    decide +kernel
  have hend : byteSize source = min 4000 (byteSize source) := by decide +kernel
  have hshort (p : Char → Prop) (offset : UInt32) : ¬Filled p source offset := fun hfilled =>
    absurd hfilled.length (by decide)
  have hplace (offset line column : UInt32) (front back : List Char) (h : source = front ++ back)
      (hfront : byteSize front = min offset.toNat (byteSize source))
      (hline : ((bytes source).take offset.toNat).count 10 + 1 = line.toNat)
      (hcolumn : (front.rtakeWhile (· ≠ '\n')).length + 1 = column.toNat) :
      (ofSource source).lineColumnAt source offset = .ok (line, column) := by
    obtain ⟨-, hlines, -, hcolumns⟩ := lineColumnAt_ofSource source offset hsize
    obtain ⟨l, hl, hlcount⟩ := hlines.2 (hshort _ _)
    obtain ⟨l', c, hl', hboth, hccount⟩ :=
      (hcolumns front back h hfront).1.2 ⟨hshort _ _, hshort _ _⟩
    obtain rfl : l = l' := Except.ok.inj (hl.symm.trans hl')
    obtain rfl : l = line := UInt32.toNat_inj.1 (hlcount.trans hline)
    obtain rfl : c = column := UInt32.toNat_inj.1 (hccount.trans hcolumn)
    exact hboth
  exact ⟨hsize,
    ⟨hempty, hplace 3 2 1 _ ['\n', 'a', '😀', 'b'] rfl hempty (by decide +kernel)
      (by decide +kernel)⟩,
    ⟨hwide, hplace 9 3 3 _ ['b'] rfl hwide (by decide +kernel) (by decide +kernel)⟩,
    hend, hplace 4000 3 4 source [] (List.append_nil _).symm hend (by decide +kernel)
      (by decide +kernel)⟩

theorem byteSize_replicate {c : Char} (hc : c.utf8Size = 1) (n : Nat) :
    byteSize (List.replicate n c) = n := by
  rw [Text.byteSize_eq_length fun d hd => List.eq_of_mem_replicate hd ▸ hc, List.length_replicate]

/-- As many newlines as a word can count: the line behind the last one has no number. -/
theorem last_line_too_large :
    let source := List.replicate 4294967295 '\n'
    let offset : UInt32 := 4294967295
    byteSize source < UInt32.size ∧
      ((bytes source).take offset.toNat).count 10 + 1 = 4294967296 ∧
      (ofSource source).lineAt offset = .error .sumTooLarge ∧
      ¬∃ line, (ofSource source).lineAt offset = .ok line ∧
        line.toNat = ((bytes source).take offset.toNat).count 10 + 1 := by
  intro source offset
  have hbytes : byteSize source = offset.toNat := byteSize_replicate rfl _
  have hsize : byteSize source < UInt32.size := hbytes ▸ offset.toNat_lt
  have hfilled : Filled (· = '\n') source offset := filled_replicate rfl rfl rfl
  have hcount := (newlines_eq_size_iff hsize).2 hfilled
  have herror : (ofSource source).lineAt offset = .error .sumTooLarge := by
    rw [lineAt_ofSource hsize]
    exact ordinal_eq_error hcount
  refine ⟨hsize, hcount, herror, ?_⟩
  rintro ⟨line, hline, -⟩
  rw [herror] at hline
  cases hline

end LineTable

end FortranTokens
