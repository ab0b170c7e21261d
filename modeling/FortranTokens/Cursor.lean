import FortranTokens.Fault
import FortranTokens.CharClass
import FortranTokens.Text

/-!
# Cursors

A cursor is a place in a source.  It keeps the characters already read, the latest first, and the
characters still to be read, so that it always stands between two characters and a copy of it is a
way back.  Its offset and the size of the source are 32-bit words; the two proof fields say that
these words are the true numbers of bytes, and `bump`, the only operation that computes a new
offset, shows that the sum does not wrap around.
-/

namespace FortranTokens

open Text (byteSize)

/-- A place in a source whose offsets are 32-bit words. -/
structure Cursor where
  /-- The characters already read, the latest first. -/
  past : List Char
  /-- The characters still to be read. -/
  rest : List Char
  /-- The number of bytes already read. -/
  pos : UInt32
  /-- The number of bytes of the whole source. -/
  size : UInt32
  pos_eq : pos.toNat = byteSize past
  size_eq : size.toNat = byteSize past + byteSize rest

namespace Cursor

/-- The start of a source, which has to be short enough for 32-bit offsets. -/
def ofSource? (source : String) : Except Fault Cursor :=
  if h : byteSize source.toList < UInt32.size then
    .ok { past := [], rest := source.toList, pos := 0, size := UInt32.ofNat (byteSize source.toList)
          pos_eq := rfl
          size_eq := by
            rw [UInt32.toNat_ofNat', Nat.mod_eq_of_lt h, Text.byteSize_nil, Nat.zero_add] }
  else .error (.sourceTooLong (byteSize source.toList))

/-- The whole source. -/
def source (c : Cursor) : List Char := c.past.reverse ++ c.rest

/-- The byte offset at which the cursor stands. -/
def offset (c : Cursor) : Nat := c.pos.toNat

/-- The number of bytes of the source. -/
def sourceSize (c : Cursor) : Nat := c.size.toNat

/-- Whether the offset has reached the size of the source. -/
def isEof (c : Cursor) : Bool := c.size ≤ c.pos

/-- The next character, if there is one. -/
def current (c : Cursor) : Option Char := c.rest.head?

/-- The next character and the place just after it. -/
def bump (c : Cursor) : Option (Char × Cursor) :=
  match h : c.rest with
  | [] => none
  | ch :: rest =>
    some (ch,
      { past := ch :: c.past, rest, pos := c.pos + UInt32.ofNat ch.utf8Size, size := c.size
        pos_eq := by
          have hpos := c.pos_eq
          have hsize := c.size_eq
          have hlt := c.size.toNat_lt
          rw [h] at hsize
          simp only [Text.byteSize_cons] at hsize ⊢
          rw [UInt32.toNat_add, UInt32.toNat_ofNat']
          omega
        size_eq := by
          have hsize := c.size_eq
          rw [h] at hsize
          simp only [Text.byteSize_cons] at hsize ⊢
          omega })

/-- The place `n` characters further on, or the end of the source if it comes first. -/
def advance : Nat → Cursor → Cursor
  | 0, c => c
  | n + 1, c =>
    match c.bump with
    | none => c
    | some (_, c') => advance n c'

/-! ### What the moves do to the characters read and unread -/

/-- A cursor is determined by the characters on its two sides. -/
theorem ext_sides {c d : Cursor} (hpast : c.past = d.past) (hrest : c.rest = d.rest) : c = d := by
  have hpos : c.pos = d.pos := UInt32.toNat_inj.1 (by rw [c.pos_eq, d.pos_eq, hpast])
  have hsize : c.size = d.size := UInt32.toNat_inj.1 (by rw [c.size_eq, d.size_eq, hpast, hrest])
  cases c
  cases d
  simp_all

theorem offset_eq (c : Cursor) : c.offset = byteSize c.past := c.pos_eq

theorem bump_eq_none_iff {c : Cursor} : c.bump = none ↔ c.rest = [] := by
  unfold bump
  split <;> simp_all

theorem bump_eq_some {c d : Cursor} {ch : Char} (h : c.bump = some (ch, d)) :
    c.rest = ch :: d.rest ∧ d.past = ch :: c.past := by
  unfold bump at h
  split at h
  · simp at h
  · simp only [Option.some.injEq, Prod.mk.injEq] at h
    obtain ⟨rfl, rfl⟩ := h
    exact ⟨by assumption, rfl⟩

theorem offset_lt_of_bump {c d : Cursor} {ch : Char} (h : c.bump = some (ch, d)) :
    c.offset < d.offset := by
  have := ch.utf8Size_pos
  rw [offset_eq, offset_eq, (bump_eq_some h).2, Text.byteSize_cons]
  omega

theorem advance_succ_of_bump {c d : Cursor} {ch : Char} (h : c.bump = some (ch, d)) (n : Nat) :
    c.advance (n + 1) = d.advance n := by
  rw [advance, h]

theorem sides_advance : ∀ (n : Nat) (c : Cursor),
    (c.advance n).past = (c.rest.take n).reverse ++ c.past ∧ (c.advance n).rest = c.rest.drop n
  | 0, _ => by simp [advance]
  | n + 1, c => by
    rw [advance]
    split
    · simp [bump_eq_none_iff.1 (by assumption)]
    · rename_i ch d h
      obtain ⟨hrest, hpast⟩ := bump_eq_some h
      simp [sides_advance n d, hrest, hpast]

theorem past_advance (n : Nat) (c : Cursor) :
    (c.advance n).past = (c.rest.take n).reverse ++ c.past := (sides_advance n c).1

theorem rest_advance (n : Nat) (c : Cursor) : (c.advance n).rest = c.rest.drop n :=
  (sides_advance n c).2

/-- Moving through a source leaves the source as it is. -/
theorem source_advance (n : Nat) (c : Cursor) : (c.advance n).source = c.source := by
  simp [source, past_advance, rest_advance]

theorem offset_advance (n : Nat) (c : Cursor) :
    (c.advance n).offset = c.offset + byteSize (c.rest.take n) := by
  simp [offset_eq, past_advance, Nat.add_comm]

theorem advance_advance (m n : Nat) (c : Cursor) : (c.advance m).advance n = c.advance (m + n) := by
  apply ext_sides
  · simp [past_advance, rest_advance, List.take_add]
  · simp [rest_advance]

theorem bump_of_cons {c : Cursor} {ch : Char} {cs : List Char} (h : c.rest = ch :: cs) :
    c.bump = some (ch, c.advance 1) := by
  rcases hb : c.bump with _ | ⟨ch', d⟩
  · rw [bump_eq_none_iff.1 hb] at h
    cases h
  · obtain ⟨hrest, -⟩ := bump_eq_some hb
    rw [h] at hrest
    cases hrest
    rw [advance, hb]
    rfl

/-! ### Moving past stretches of characters -/

/-- Moves on as long as the next character satisfies `p`, and counts on from `count`. -/
def eatWhileFrom (p : Char → Bool) (count : Nat) (c : Cursor) : Nat × Cursor :=
  match h : c.bump with
  | some (ch, d) => if p ch then eatWhileFrom p (count + 1) d else (count, c)
  | none => (count, c)
termination_by c.rest.length
decreasing_by
  rw [(bump_eq_some h).1]
  exact Nat.lt_succ_self _

/-- Moves past characters as long as they satisfy `p`, and counts them. -/
def eatWhile (p : Char → Bool) (c : Cursor) : Nat × Cursor := eatWhileFrom p 0 c

theorem eatWhileFrom_apply (p : Char → Bool) (count : Nat) (c : Cursor) :
    eatWhileFrom p count c =
      (count + (c.rest.takeWhile p).length, c.advance (c.rest.takeWhile p).length) := by
  fun_induction eatWhileFrom p count c with
  | case1 count c ch d h hp ih =>
    rw [ih, (bump_eq_some h).1, List.takeWhile_cons_of_pos hp, List.length_cons,
      advance_succ_of_bump h, Nat.add_right_comm, Nat.add_assoc]
  | case2 count c ch d h hp =>
    rw [(bump_eq_some h).1, List.takeWhile_cons_of_neg hp]
    rfl
  | case3 count c h =>
    rw [bump_eq_none_iff.1 h]
    rfl

/-- The loop stops behind the longest stretch of characters that satisfy `p`. -/
theorem eatWhile_apply (p : Char → Bool) (c : Cursor) :
    c.eatWhile p = ((c.rest.takeWhile p).length, c.advance (c.rest.takeWhile p).length) := by
  unfold eatWhile
  rw [eatWhileFrom_apply, Nat.zero_add]

/-- Past a character of the stretch the count goes on as if it began there. -/
theorem eatWhile_of_bump {p : Char → Bool} {c d : Cursor} {ch : Char}
    (h : c.bump = some (ch, d)) (hp : p ch) :
    c.eatWhile p = ((d.eatWhile p).1 + 1, (d.eatWhile p).2) := by
  rw [eatWhile_apply, eatWhile_apply, (bump_eq_some h).1, List.takeWhile_cons_of_pos hp,
    List.length_cons, advance_succ_of_bump h]

theorem eatWhile_of_not_head {p : Char → Bool} {c : Cursor} (h : ∀ ch ∈ c.rest.head?, ¬p ch) :
    c.eatWhile p = (0, c) := by
  rw [eatWhile_apply]
  rcases hrest : c.rest with _ | ⟨ch, cs⟩
  · rfl
  · rw [hrest] at h
    rw [List.takeWhile_cons_of_neg (h ch rfl)]
    rfl

/-- Moves past spaces and tabs, and counts them. -/
def eatBlanks (c : Cursor) : Nat × Cursor := c.eatWhile CharClass.isBlank

/-- Moves just past the next byte equal to `goal`, or to the end of the source if there is none,
and tells which.  The goal has to be an ASCII byte: such a byte is always a whole character, so
the place just past it is between two characters. -/
def eatPast (goal : UInt8) (c : Cursor) : Except Fault (Bool × Cursor) :=
  if goal < 128 then
    match Text.findByte? goal c.rest with
    | some i => .ok (true, c.advance (Text.charsWithin (i + 1) c.rest))
    | none => .ok (false, c.advance c.rest.length)
  else .error .goalNotAscii

/-! ### Pieces of the source -/

/-- The text between two offsets, which have to be in order.  It is empty when an offset is past
the end of the source or inside a character. -/
def slice (start stop : Nat) (c : Cursor) : Except Fault String :=
  if start ≤ stop then .ok (String.ofList ((Text.between? start stop c.source).getD []))
  else .error (.reversedSlice start stop)

/-- The text from an offset up to the cursor. -/
def sliceFrom (start : Nat) (c : Cursor) : Except Fault String := c.slice start c.offset

/-- Cut from an earlier place on, the source gives the text read since then. -/
theorem sliceFrom_offset {c d : Cursor} {text : List Char} (h : d.past = text.reverse ++ c.past) :
    d.sliceFrom c.offset = .ok (String.ofList text) := by
  have hsource : d.source = c.past.reverse ++ (text ++ d.rest) := by simp [source, h]
  have hstop : d.offset = byteSize c.past.reverse + byteSize text := by
    simp [offset_eq, h, Nat.add_comm]
  have hstart : c.offset = byteSize c.past.reverse := by simp [offset_eq]
  unfold sliceFrom slice
  rw [hsource, hstop, hstart, if_pos (Nat.le_add_right _ _), Text.between?_append]
  rfl

end Cursor

end FortranTokens
