import FortranTokens.Proofs.ByteSearch
import FortranTokens.Proofs.Faultless
import FortranTokens.Proofs.LiteralReading

/-!
# Arithmetic that never overflows

Offsets, counts of characters and the codes of escapes are computed in 32-bit words.  Checked
arithmetic, which gives nothing where a sum or a product does not fit into a word, computes the same
as the cursors and the decoders do: offsets and counts stay within the size of the source, and an
escape has too few digits for a code above 255.  So no step of a run overflows, and with an ASCII
goal for every search no contract is broken either (`Grammar.run_in_range`).
-/

namespace FortranTokens

open CharClass (digitValue isOctalDigit isHexDigit denoted)
open UInt32 (toNat_ofNat_of_lt')

/-! ## Checked arithmetic -/

namespace Word

/-- The word for a number, unless the number is too large. -/
def fit? (n : Nat) : Option UInt32 := if n < UInt32.size then some (UInt32.ofNat n) else none

/-- The sum of two words, unless it is too large. -/
def add? (a b : UInt32) : Option UInt32 := fit? (a.toNat + b.toNat)

/-- The product of two words, unless it is too large. -/
def mul? (a b : UInt32) : Option UInt32 := fit? (a.toNat * b.toNat)

theorem fit?_toNat (a : UInt32) : fit? a.toNat = some a := by
  unfold fit?
  rw [if_pos a.toNat_lt, UInt32.ofNat_toNat]

theorem add?_eq_some {a b c : UInt32} (h : a.toNat + b.toNat = c.toNat) : add? a b = some c := by
  unfold add?
  rw [h, fit?_toNat]

theorem mul?_eq_some {a b c : UInt32} (h : a.toNat * b.toNat = c.toNat) : mul? a b = some c := by
  unfold mul?
  rw [h, fit?_toNat]

/-- The number of the characters at the front of a text that satisfy `p`, and the offset after
them, starting from a count and an offset. -/
def scan? (p : Char → Bool) : List Char → UInt32 → UInt32 → Option (UInt32 × UInt32)
  | [], count, pos => some (count, pos)
  | c :: cs, count, pos =>
    if p c then do
      scan? p cs (← add? count 1) (← add? pos (UInt32.ofNat c.utf8Size))
    else some (count, pos)

/-- The number that digits denote, each of them appended to the number before it. -/
def number? (base : UInt32) (digits : List Char) : Option UInt32 :=
  digits.foldlM (fun n d => do add? (← mul? n base) (UInt32.ofNat (digitValue d))) 0

theorem number?_snoc (base : UInt32) (digits : List Char) (d : Char) :
    number? base (digits ++ [d]) =
      (number? base digits).bind fun n =>
        (mul? n base).bind (add? · (UInt32.ofNat (digitValue d))) := by
  unfold number?
  simp only [List.foldlM_append, List.foldlM_cons, List.foldlM_nil, bind_pure]
  rfl

/-- Every number on the way is at most the last one. -/
theorem number?_eq_some {base : UInt32} {digits : List Char} (hbase : 0 < base.toNat)
    (h : denoted base.toNat digits < UInt32.size) :
    number? base digits = some (UInt32.ofNat (denoted base.toNat digits)) := by
  induction digits using List.reverseRecOn with
  | nil => rfl
  | append_singleton digits d ih =>
    rw [CharClass.denoted_snoc] at h ⊢
    have hle : denoted base.toNat digits ≤ denoted base.toNat digits * base.toNat :=
      Nat.le_mul_of_pos_right _ hbase
    have hproduct : mul? (UInt32.ofNat (denoted base.toNat digits)) base =
        some (UInt32.ofNat (denoted base.toNat digits * base.toNat)) := by
      apply mul?_eq_some
      rw [toNat_ofNat_of_lt' (by omega), toNat_ofNat_of_lt' (by omega)]
    rw [number?_snoc, ih (by omega), Option.bind_some, hproduct, Option.bind_some]
    apply add?_eq_some
    rw [toNat_ofNat_of_lt' (by omega), toNat_ofNat_of_lt' (by omega), toNat_ofNat_of_lt' h]

end Word

/-! ## Cursors -/

namespace Cursor

open Word

variable {c d : Cursor} {ch : Char}

/-- The offset just past the next byte equal to `goal`, or at the end of the source. -/
def posPast? (goal : UInt8) (c : Cursor) : Option UInt32 :=
  match Text.findByte? goal c.rest with
  | some i => do add? c.pos (← add? (UInt32.ofNat i) 1)
  | none => some c.size

/-- Checked arithmetic computes what the moves of a cursor do. -/
structure InRange (c : Cursor) : Prop where
  bump {ch : Char} {d : Cursor} (h : c.bump = some (ch, d)) :
    add? c.pos (UInt32.ofNat ch.utf8Size) = some d.pos
  eatWhile (p : Char → Bool) : ∃ count,
    scan? p c.rest 0 c.pos = some (count, (c.eatWhile p).2.pos) ∧
      count.toNat = (c.eatWhile p).1
  eatPast {goal : UInt8} {found : Bool} {d : Cursor} (h : c.eatPast goal = .ok (found, d)) :
    c.posPast? goal = some d.pos

theorem add?_of_bump (h : c.bump = some (ch, d)) :
    add? c.pos (UInt32.ofNat ch.utf8Size) = some d.pos := by
  have hsize : ch.utf8Size ≤ 4 := ch.utf8Size_le_four
  apply add?_eq_some
  rw [toNat_ofNat_of_lt' (Nat.lt_of_le_of_lt hsize (by decide)), c.pos_eq, d.pos_eq,
    (bump_eq_some h).2, Text.byteSize_cons, Nat.add_comm]

/-- The count never exceeds the offset reached, for every character has a byte. -/
theorem scan?_eq_some (p : Char → Bool) (cs : List Char) (count : UInt32) (hrest : c.rest = cs)
    (hcount : count.toNat ≤ c.offset) : ∃ total,
      scan? p cs count c.pos = some (total, (c.eatWhile p).2.pos) ∧
        total.toNat = count.toNat + (c.eatWhile p).1 := by
  induction cs generalizing c count with
  | nil =>
    have heat : c.eatWhile p = (0, c) := eatWhile_of_not_head (by simp [hrest])
    exact ⟨count, by simp [scan?, heat], by simp [heat]⟩
  | cons ch cs ih =>
    by_cases hp : p ch
    · obtain ⟨d, hd⟩ : ∃ d, c.bump = some (ch, d) := ⟨_, bump_of_cons hrest⟩
      have hnext : d.rest = cs := by
        rw [(bump_eq_some hd).1] at hrest
        exact (List.cons.inj hrest).2
      have hlt := offset_lt_of_bump hd
      have hbound : d.offset < 2 ^ 32 := d.pos.toNat_lt
      have hone : (count + 1).toNat = count.toNat + 1 := by
        rw [UInt32.toNat_add, UInt32.toNat_one]
        exact Nat.mod_eq_of_lt (by omega)
      obtain ⟨total, hscan, htotal⟩ := ih (count + 1) hnext (by omega)
      have heat : c.eatWhile p = ((d.eatWhile p).1 + 1, (d.eatWhile p).2) :=
        eatWhile_of_bump hd hp
      refine ⟨total, ?_, ?_⟩
      · rw [scan?, if_pos hp, add?_eq_some hone.symm, add?_of_bump hd, heat]
        exact hscan
      · rw [heat, htotal, hone]
        omega
    · have heat : c.eatWhile p = (0, c) := eatWhile_of_not_head (by simpa [hrest] using hp)
      exact ⟨count, by simp [scan?, hp, heat], by simp [heat]⟩

theorem posPast?_of_eatPast {goal : UInt8} {found : Bool} (h : c.eatPast goal = .ok (found, d)) :
    c.posPast? goal = some d.pos := by
  have hgoal : goal < 128 := by
    by_contra hno
    unfold eatPast at h
    rw [if_neg hno] at h
    cases h
  obtain ⟨e, heat, hoffset⟩ := eatPast_of_ascii hgoal c
  rw [heat] at h
  cases h
  unfold posPast?
  rcases hfind : Text.findByte? goal c.rest with _ | i
  · rw [hfind] at hoffset
    exact congrArg some (UInt32.toNat_inj.1 hoffset.symm)
  · rw [hfind] at hoffset
    have hsum : d.pos.toNat = c.pos.toNat + i + 1 := hoffset
    have hbound : d.pos.toNat < UInt32.size := d.pos.toNat_lt
    have hone : (UInt32.ofNat i).toNat + (1 : UInt32).toNat = (UInt32.ofNat (i + 1)).toNat := by
      rw [toNat_ofNat_of_lt' (by omega), toNat_ofNat_of_lt' (by omega), UInt32.toNat_one]
    show (add? (UInt32.ofNat i) 1).bind (add? c.pos) = some d.pos
    rw [add?_eq_some hone, Option.bind_some]
    apply add?_eq_some
    rw [toNat_ofNat_of_lt' (by omega)]
    omega

theorem inRange (c : Cursor) : c.InRange where
  bump h := add?_of_bump h
  eatWhile p := by
    obtain ⟨count, hscan, hcount⟩ := scan?_eq_some p c.rest 0 rfl (Nat.zero_le _)
    exact ⟨count, hscan, hcount.trans (Nat.zero_add _)⟩
  eatPast h := posPast?_of_eatPast h

end Cursor

/-! ## Escapes -/

namespace Parser

open Word

variable {s : State}

/-- From `s` the decoder reads digits and gives the character whose code these denote after the
digits `front`.  Checked arithmetic computes the code, and it is below 256. -/
def DecodesByte (base : UInt32) (front : List Char) (p : Parser Char) (s : State) : Prop :=
  ∃ digits ch code, p s = (.present ch, s.advance digits.length) ∧ digits <+: s.rest ∧
    number? base (front ++ digits) = some code ∧ ch.toNat = code.toNat ∧ code < 256

theorem decodesByte_of_denoted {base : UInt32} {front digits : List Char} {p : Parser Char}
    (hbase : 0 < base.toNat) (hlt : denoted base.toNat (front ++ digits) < 256)
    (hdigits : digits <+: s.rest)
    (h : ∀ ch : Char, ch.toNat = denoted base.toNat (front ++ digits) →
      p s = (.present ch, s.advance digits.length)) : DecodesByte base front p s := by
  have hword : denoted base.toNat (front ++ digits) < UInt32.size := Nat.lt_trans hlt (by decide)
  obtain ⟨ch, hch⟩ := LiteralText.exists_char hlt
  refine ⟨digits, ch, _, h ch hch, hdigits, number?_eq_some hbase hword, ?_, ?_⟩
  · rw [toNat_ofNat_of_lt' hword, hch]
  · rw [UInt32.lt_iff_toNat_lt, toNat_ofNat_of_lt' hword]
    exact hlt

theorem decodesByte_octalEscape {d : Char} (hd : isOctalDigit d) (s : State) :
    DecodesByte 8 [d] (octalEscape d) s := by
  obtain ⟨digits, after, hrest, hmunch⟩ :=
    LiteralText.exists_munch isOctalDigit (if digitValue d ≤ 3 then 2 else 1) s.rest
  exact decodesByte_of_denoted (by decide) (LiteralText.denoted_octal_lt hd hmunch)
    ⟨after, hrest.symm⟩ fun ch hch => octalEscape_of_munch hmunch hrest hch

theorem decodesByte_hexEscape (s : State) : DecodesByte 16 [] hexEscape s := by
  obtain ⟨digits, after, hrest, hmunch⟩ := LiteralText.exists_munch isHexDigit 2 s.rest
  exact decodesByte_of_denoted (by decide) (LiteralText.denoted_hexadecimal_lt hmunch)
    ⟨after, hrest.symm⟩ fun ch hch => hexEscape_of_munch hmunch hrest hch

end Parser

/-! ## Runs -/

/-- No arithmetic that a parser does at this state overflows. -/
structure State.InRange (s : State) : Prop where
  cursor : s.cursor.InRange
  octal {d : Char} (hd : isOctalDigit d) : Parser.DecodesByte 8 [d] (Parser.octalEscape d) s
  hexadecimal : Parser.DecodesByte 16 [] Parser.hexEscape s

theorem State.inRange (s : State) : s.InRange where
  cursor := s.cursor.inRange
  octal hd := Parser.decodesByte_octalEscape hd s
  hexadecimal := Parser.decodesByte_hexEscape s

namespace Grammar

open FortranTokens.Parser

variable {α : Type}

/-- No run ends in a fault, that is by cutting out a reversed piece of the source or by a search for
half a character.  No arithmetic overflows at any state that a run may pass, and the value of a
constant is never shifted by the 64 bits of its word or more. -/
theorem run_in_range (g : Grammar α) (goals : g.AsciiGoals) (s : State) :
    (∀ e, (g.run s).1 ≠ .fault e) ∧ (∀ t : State, t.InRange) ∧
      ∀ base : Boz.Base, base.bits < 64 := by
  refine ⟨g.faultless_run goals s, State.inRange, fun base => ?_⟩
  cases base <;> decide

/-- A constant cut out of the source, a search across a character of two bytes, and the largest code
that an escape has. -/
theorem constant_then_escape_in_range :
    let g := pair (seqLeft boz (skipPast 59)) quotedLiteral
    let s := State.start
      ['Z', '\'', 'F', 'F', '\'', 'é', ';', '\'', '\\', '3', '7', '7', '\''] ⟨false, true⟩
      (by decide)
    g.AsciiGoals ∧
      ((∀ e, (g.run s).1 ≠ .fault e) ∧ (∀ t : State, t.InRange) ∧
        ∀ base : Boz.Base, base.bits < 64) ∧
      (g.run s).1 = .present (255, "ÿ") := by
  intro g s
  have goals : g.AsciiGoals := ⟨⟨trivial, show (59 : UInt8) < 128 by decide⟩, trivial⟩
  refine ⟨goals, run_in_range g goals s, ?_⟩
  decide +kernel

end Grammar

end FortranTokens
