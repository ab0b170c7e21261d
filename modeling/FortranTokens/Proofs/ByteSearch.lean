import FortranTokens.Cursor
import FortranTokens.Proofs.Frame

/-!
# Searching for an ASCII byte

A search runs over the bytes of a text, and a cursor moves over its characters.  Both mean the same
place only because an ASCII byte is never a part of a longer character: a character beyond ASCII has
no byte below 128 (`Text.le_of_mem_utf8EncodeChar`).  So the byte that is found is a character of
its own, with whole characters before it (`Text.exists_of_findByte?`), and the cursor stands exactly
one byte after it (`Cursor.eatPast_of_ascii`).  Reading the characters one by one finds the same
(`Cursor.eatPast_eq_scanPast`).
-/

namespace FortranTokens

namespace Text

variable {c : Char} {goal : UInt8} {cs : List Char} {i : Nat}

/-! ### The bytes of one character -/

theorem utf8Size_of_ascii (h : c.toNat < 128) : c.utf8Size = 1 :=
  Char.utf8Size_eq_one_iff.2 (UInt32.le_iff_toNat_le.2 (Nat.le_of_lt_succ h))

theorem utf8EncodeChar_of_ascii (h : c.toNat < 128) :
    String.utf8EncodeChar c = [UInt8.ofNat c.toNat] :=
  String.utf8EncodeChar_eq_singleton (utf8Size_of_ascii h)

/-- No byte of a character beyond ASCII is an ASCII byte. -/
theorem le_of_mem_utf8EncodeChar (h : 128 ≤ c.toNat) {b : UInt8}
    (hb : b ∈ String.utf8EncodeChar c) : 128 ≤ b.toNat := by
  have hv : c.val.toNat = c.toNat := rfl
  have hmax : c.toNat < 1114112 := by
    have := c.valid
    unfold UInt32.isValidChar Nat.isValidChar at this
    omega
  unfold String.utf8EncodeChar at hb
  simp only [hv] at hb
  rw [if_neg (by omega)] at hb
  split at hb
  · simp only [List.mem_cons, List.not_mem_nil, or_false] at hb
    rcases hb with rfl | rfl <;> rw [UInt8.toNat_ofNat'] <;> omega
  · split at hb
    · simp only [List.mem_cons, List.not_mem_nil, or_false] at hb
      rcases hb with rfl | rfl | rfl <;> rw [UInt8.toNat_ofNat'] <;> omega
    · simp only [List.mem_cons, List.not_mem_nil, or_false] at hb
      rcases hb with rfl | rfl | rfl | rfl <;> rw [UInt8.toNat_ofNat'] <;> omega

/-! ### The first byte that is the goal -/

theorem findIdx?_utf8EncodeChar_eq_none (hgoal : goal < 128) (h : c.toNat ≠ goal.toNat) :
    (String.utf8EncodeChar c).findIdx? (· == goal) = none := by
  have hlt : goal.toNat < 128 := UInt8.lt_iff_toNat_lt.1 hgoal
  rw [List.findIdx?_eq_none_iff]
  intro b hb
  refine beq_eq_false_iff_ne.2 ?_
  rintro rfl
  by_cases hc : c.toNat < 128
  · rw [utf8EncodeChar_of_ascii hc, List.mem_singleton] at hb
    rw [hb, UInt8.toNat_ofNat'] at h
    omega
  · have := le_of_mem_utf8EncodeChar (by omega) hb
    omega

/-- A search goes character by character. -/
theorem findByte?_cons (hgoal : goal < 128) (c : Char) (cs : List Char) :
    findByte? goal (c :: cs) =
      if c.toNat = goal.toNat then some 0 else (findByte? goal cs).map (· + c.utf8Size) := by
  have hlt : goal.toNat < 128 := UInt8.lt_iff_toNat_lt.1 hgoal
  unfold findByte? bytes
  rw [List.flatMap_cons, List.findIdx?_append]
  split
  · rename_i hc
    have hbyte : UInt8.ofNat c.toNat = goal := by rw [hc, UInt8.ofNat_toNat]
    rw [utf8EncodeChar_of_ascii (by omega), hbyte]
    simp
  · rename_i hc
    rw [findIdx?_utf8EncodeChar_eq_none hgoal hc, String.length_utf8EncodeChar]
    rfl

/-- The byte that is found is a character of its own, and none of the characters before it is the
goal. -/
theorem exists_of_findByte? (hgoal : goal < 128) (h : findByte? goal cs = some i) :
    ∃ front ch back, cs = front ++ ch :: back ∧ byteSize front = i ∧ ch.toNat = goal.toNat ∧
      ∀ d ∈ front, d.toNat ≠ goal.toNat := by
  induction cs generalizing i with
  | nil => cases h
  | cons c cs ih =>
    rw [findByte?_cons hgoal] at h
    split at h
    · cases h
      exact ⟨[], c, cs, rfl, rfl, by assumption, List.forall_mem_nil _⟩
    · rename_i hc
      obtain ⟨j, hj, rfl⟩ := Option.map_eq_some_iff.1 h
      obtain ⟨front, ch, back, rfl, hsize, hch, hfront⟩ := ih hj
      refine ⟨c :: front, ch, back, rfl, ?_, hch, List.forall_mem_cons.2 ⟨hc, hfront⟩⟩
      rw [byteSize_cons, hsize, Nat.add_comm]

/-! ### Whole characters within some bytes -/

theorem charsWithin_zero (cs : List Char) : charsWithin 0 cs = 0 := by
  cases cs with
  | nil => rfl
  | cons c cs =>
    have hpos := c.utf8Size_pos
    unfold charsWithin
    rw [if_neg (by omega)]

theorem charsWithin_cons (n : Nat) (c : Char) (cs : List Char) :
    charsWithin (c.utf8Size + n) (c :: cs) = charsWithin n cs + 1 := by
  rw [charsWithin, if_pos (Nat.le_add_right _ _), Nat.add_sub_cancel_left]

theorem charsWithin_one_of_ascii (h : c.toNat < 128) (cs : List Char) :
    charsWithin 1 (c :: cs) = 1 := by
  have hcons := charsWithin_cons 0 c cs
  rwa [utf8Size_of_ascii h, charsWithin_zero] at hcons

theorem charsWithin_append (n : Nat) (as bs : List Char) :
    charsWithin (byteSize as + n) (as ++ bs) = as.length + charsWithin n bs := by
  induction as with
  | nil => simp
  | cons a as ih =>
    rw [List.cons_append, byteSize_cons, Nat.add_assoc, charsWithin_cons, ih, List.length_cons]
    omega

/-- The characters up to and with the byte that is found fill the bytes up to and with it. -/
theorem byteSize_take_charsWithin (hgoal : goal < 128) (h : findByte? goal cs = some i) :
    byteSize (cs.take (charsWithin (i + 1) cs)) = i + 1 := by
  have hlt : goal.toNat < 128 := UInt8.lt_iff_toNat_lt.1 hgoal
  obtain ⟨front, ch, back, rfl, rfl, hch, -⟩ := exists_of_findByte? hgoal h
  have hascii : ch.toNat < 128 := by omega
  rw [charsWithin_append, charsWithin_one_of_ascii hascii, List.take_length_add_append,
    byteSize_append]
  simp [utf8Size_of_ascii hascii]

end Text

/-! ## The place after a search -/

namespace Cursor

variable {goal : UInt8} {i : Nat}

theorem offset_past_byte {c : Cursor} (hgoal : goal < 128)
    (h : Text.findByte? goal c.rest = some i) :
    (c.advance (Text.charsWithin (i + 1) c.rest)).offset = c.offset + (i + 1) := by
  rw [offset_advance, Text.byteSize_take_charsWithin hgoal h]

theorem offset_advance_length (c : Cursor) : (c.advance c.rest.length).offset = c.sourceSize := by
  rw [offset_advance, List.take_length, sourceSize_eq, offset_eq]

/-- A search for an ASCII byte moves to the byte after the one it finds, or to the end. -/
theorem eatPast_of_ascii (hgoal : goal < 128) (c : Cursor) :
    ∃ d, c.eatPast goal = .ok ((Text.findByte? goal c.rest).isSome, d) ∧
      d.offset = ((Text.findByte? goal c.rest).map (c.offset + · + 1)).getD c.sourceSize := by
  unfold eatPast
  rw [if_pos hgoal]
  rcases h : Text.findByte? goal c.rest with _ | i
  · exact ⟨_, rfl, c.offset_advance_length⟩
  · exact ⟨_, rfl, offset_past_byte hgoal h⟩

/-- A dollar sign after characters of two and four bytes. -/
example : Text.findByte? 36 ['é', '😀', '$', '$'] = some 6 ∧
    Text.charsWithin 7 ['é', '😀', '$', '$'] = 3 := by
  decide +kernel

/-! ## A search as a scan -/

variable {c d : Cursor} {ch : Char}

/-- Reads characters one by one until one whose code is `goal` has been read or none is left, and
tells which. -/
def scanPast (goal : UInt8) (c : Cursor) : Bool × Cursor :=
  match _h : c.bump with
  | none => (false, c)
  | some (ch, d) => if ch.toNat = goal.toNat then (true, d) else scanPast goal d
termination_by c.rest.length
decreasing_by
  rw [(bump_eq_some _h).1]
  exact Nat.lt_succ_self _

theorem eatPast_of_end (hgoal : goal < 128) (h : c.bump = none) :
    c.eatPast goal = .ok (false, c) := by
  unfold eatPast
  rw [if_pos hgoal, bump_eq_none_iff.1 h]
  rfl

/-- A search stops behind the goal, and behind another character it goes on as if it began there. -/
theorem eatPast_of_bump (hgoal : goal < 128) (h : c.bump = some (ch, d)) :
    c.eatPast goal = if ch.toNat = goal.toNat then .ok (true, d) else d.eatPast goal := by
  have hlt : goal.toNat < 128 := UInt8.lt_iff_toNat_lt.1 hgoal
  unfold eatPast
  rw [if_pos hgoal, if_pos hgoal, (bump_eq_some h).1, Text.findByte?_cons hgoal]
  by_cases hch : ch.toNat = goal.toNat
  · have hcount := Text.charsWithin_one_of_ascii (c := ch) (by omega) d.rest
    rw [if_pos hch, if_pos hch]
    simp only [Nat.zero_add, hcount, advance_succ_of_bump h]
    rfl
  · rw [if_neg hch, if_neg hch]
    rcases Text.findByte? goal d.rest with _ | i
    · show Except.ok (false, c.advance (d.rest.length + 1)) = _
      rw [advance_succ_of_bump h]
    · have hsum : i + ch.utf8Size + 1 = ch.utf8Size + (i + 1) := by omega
      simp only [Option.map_some, hsum, Text.charsWithin_cons, advance_succ_of_bump h]

theorem eatPast_eq_ok_scanPast (hgoal : goal < 128) (c : Cursor) :
    c.eatPast goal = .ok (c.scanPast goal) := by
  fun_induction scanPast goal c with
  | case1 c h => exact eatPast_of_end hgoal h
  | case2 c ch d h hch => rw [eatPast_of_bump hgoal h, if_pos hch]
  | case3 c ch d h hch ih => rw [eatPast_of_bump hgoal h, if_neg hch, ih]

/-- A search over the bytes finds what reading character by character finds and stops in the same
place, which is one byte after the byte that was found, or else the end. -/
theorem eatPast_eq_scanPast (hgoal : goal < 128) (c : Cursor) :
    c.eatPast goal = .ok (c.scanPast goal) ∧
      (c.scanPast goal).1 = (Text.findByte? goal c.rest).isSome ∧
      (c.scanPast goal).2.offset =
        ((Text.findByte? goal c.rest).map (c.offset + · + 1)).getD c.sourceSize := by
  have hscan := eatPast_eq_ok_scanPast hgoal c
  obtain ⟨d, hsearch, hoffset⟩ := eatPast_of_ascii hgoal c
  have hsame : c.scanPast goal = ((Text.findByte? goal c.rest).isSome, d) :=
    Except.ok.inj (hscan.symm.trans hsearch)
  rw [hsame]
  exact ⟨hsearch, rfl, hoffset⟩

/-- From behind a wide character: a dollar sign, and a semicolon that stands nowhere. -/
theorem search_behind_wide_character :
    let c := (State.start ['é', '😀', '$', 'é', '$'] {} (by decide)).cursor.advance 1
    c.offset = 2 ∧ (36 : UInt8) < 128 ∧ (59 : UInt8) < 128 ∧
      c.eatPast 36 = .ok (c.scanPast 36) ∧
      (c.scanPast 36).1 = true ∧ (c.scanPast 36).2.offset = 7 ∧
      c.eatPast 59 = .ok (c.scanPast 59) ∧
      (c.scanPast 59).1 = false ∧ (c.scanPast 59).2.offset = c.sourceSize := by
  intro c
  have hdollar : Text.findByte? 36 c.rest = some 4 := by decide +kernel
  have hsemicolon : Text.findByte? 59 c.rest = none := by decide +kernel
  have hascii : (36 : UInt8) < 128 := by decide
  have hascii' : (59 : UInt8) < 128 := by decide
  obtain ⟨hrun, hfound, hoffset⟩ := eatPast_eq_scanPast hascii c
  obtain ⟨hrun', hfound', hoffset'⟩ := eatPast_eq_scanPast hascii' c
  rw [hdollar] at hfound hoffset
  rw [hsemicolon] at hfound' hoffset'
  exact ⟨by decide +kernel, hascii, hascii', hrun, hfound, hoffset, hrun', hfound', hoffset'⟩

end Cursor

end FortranTokens
