import FortranTokens.Diagnostic.Message
import FortranTokens.Options
import FortranTokens.Proofs.Characters
import FortranTokens.Text

/-!
# The text of quoted literals

What stands between the quotes of a literal is a sequence of units, read from left to right, each
of which stands for one character.  `IsUnit` and `Escape` say what a unit is.  A text falls into
units up to a place where no unit begins (`exists_units`), and there either the closing quote stands
(`Closes`) or the literal breaks off (`BreaksOff`).
-/

namespace FortranTokens

open CharClass

/-- A unit of a literal: its text, the character it stands for, and whether it is a backslash before
a character that is not known to introduce an escape. -/
structure LiteralUnit where
  text : List Char
  ch : Char
  unknown : Bool
  deriving DecidableEq, Repr

namespace LiteralUnit

/-- The text of several units, one after the other. -/
def textOf (us : List LiteralUnit) : List Char := us.flatMap LiteralUnit.text

/-- What a unit at an offset has to say: it is reported if its escape is unknown. -/
def messages (offset : Nat) (u : LiteralUnit) : List Message :=
  if u.unknown then [.ofOffset offset .badEscapedChar] else []

theorem messages_known (offset : Nat) (text : List Char) (ch : Char) :
    messages offset ⟨text, ch, false⟩ = [] := rfl

theorem messages_unknown (offset : Nat) (text : List Char) (ch : Char) :
    messages offset ⟨text, ch, true⟩ = [.ofOffset offset .badEscapedChar] := rfl

/-- What several units have to say, the first of which is at an offset. -/
def messagesOf : Nat → List LiteralUnit → List Message
  | _, [] => []
  | offset, u :: us => u.messages offset ++ messagesOf (offset + Text.byteSize u.text) us

@[simp] theorem textOf_nil : textOf [] = [] := rfl

@[simp] theorem textOf_cons (u : LiteralUnit) (us : List LiteralUnit) :
    textOf (u :: us) = u.text ++ textOf us := rfl

@[simp] theorem messagesOf_nil (offset : Nat) : messagesOf offset [] = [] := rfl

@[simp] theorem messagesOf_cons (offset : Nat) (u : LiteralUnit) (us : List LiteralUnit) :
    messagesOf offset (u :: us) =
      u.messages offset ++ messagesOf (offset + Text.byteSize u.text) us := rfl

end LiteralUnit

open LiteralUnit

namespace LiteralText

/-! ## Units -/

/-- The letters that stand for control characters after a backslash, each with its character. -/
def controls : List (Char × Char) :=
  [('a', '\x07'), ('b', '\x08'), ('f', '\x0c'), ('n', '\n'), ('r', '\r'), ('t', '\t'),
    ('v', '\x0b')]

/-- The digits before `after` are no more than `n`, and only fewer if no further digit follows. -/
structure Munch (p : Char → Bool) (n : Nat) (digits after : List Char) : Prop where
  all : ∀ d ∈ digits, p d
  length_le : digits.length ≤ n
  maximal : digits.length < n → ∀ d ∈ after.head?, ¬p d

/-- The character begins an escape of its own kind after a backslash. -/
def Introduces (c : Char) : Prop :=
  (∃ control, (c, control) ∈ controls) ∨ c ∈ ['\'', '"', '\\'] ∨ isOctalDigit c ∨ c ∈ ['x', 'X']

/-- `Escape text ch unknown after` says that after a backslash the text, which `after` follows,
stands for the character, and whether it is an escape that is not known. -/
inductive Escape : List Char → Char → Bool → List Char → Prop where
  /-- A letter for a control character. -/
  | control {letter ch : Char} {after : List Char} (h : (letter, ch) ∈ controls) :
      Escape [letter] ch false after
  /-- A quote or a backslash for itself. -/
  | itself {ch : Char} {after : List Char} (h : ch ∈ ['\'', '"', '\\']) :
      Escape [ch] ch false after
  /-- Up to three octal digits, or two if the first is above 3, for the character of that code. -/
  | octal {d ch : Char} {digits after : List Char} (hd : isOctalDigit d)
      (hdigits : Munch isOctalDigit (if digitValue d ≤ 3 then 2 else 1) digits after)
      (hch : ch.toNat = denoted 8 (d :: digits)) : Escape (d :: digits) ch false after
  /-- The letter X and up to two hexadecimal digits for the character of that code. -/
  | hexadecimal {x ch : Char} {digits after : List Char} (hx : x ∈ ['x', 'X'])
      (hdigits : Munch isHexDigit 2 digits after) (hch : ch.toNat = denoted 16 digits) :
      Escape (x :: digits) ch false after
  /-- Any other character but a newline, for itself. -/
  | unknown {ch : Char} {after : List Char} (h : ¬Introduces ch) (hnewline : ch ≠ '\n') :
      Escape [ch] ch true after

/-- The unit may stand in a literal between these quotes, before the text `after`. -/
inductive IsUnit (o : Options) (quote : Char) : LiteralUnit → List Char → Prop where
  /-- A quote, written twice. -/
  | doubled {after : List Char} : IsUnit o quote ⟨[quote, quote], quote, false⟩ after
  /-- An escape. -/
  | escape {text after : List Char} {ch : Char} {unknown : Bool} (ho : o.escapes)
      (h : Escape text ch unknown after) : IsUnit o quote ⟨'\\' :: text, ch, unknown⟩ after
  /-- Any other character but a newline. -/
  | plain {ch : Char} {after : List Char} (hquote : ch ≠ quote) (hnewline : ch ≠ '\n')
      (hbackslash : ¬(ch = '\\' ∧ o.escapes)) : IsUnit o quote ⟨[ch], ch, false⟩ after

/-- The text begins with these units, read from left to right, and `after` is what follows them. -/
inductive Units (o : Options) (quote : Char) : List Char → List LiteralUnit → List Char → Prop where
  /-- No unit at all. -/
  | done (text : List Char) : Units o quote text [] text
  /-- One unit, and then more. -/
  | more {u : LiteralUnit} {us : List LiteralUnit} {rest after : List Char}
      (first : IsUnit o quote u rest) (others : Units o quote rest us after) :
      Units o quote (u.text ++ rest) (u :: us) after

theorem Units.text_eq {o : Options} {quote : Char} {text after : List Char}
    {us : List LiteralUnit} (h : Units o quote text us after) : text = textOf us ++ after := by
  induction h with
  | done text => rfl
  | more first others ih => rw [ih, textOf_cons, List.append_assoc]

/-! ## Ends -/

/-- A closing quote, not written twice. -/
def Closes (quote : Char) (text : List Char) : Prop :=
  ∃ after, text = quote :: after ∧ after.head? ≠ some quote

/-- There is neither a unit nor a closing quote: the text ends, or a newline stands in it. -/
inductive BreaksOff (o : Options) : List Char → Prop where
  | ended : BreaksOff o []
  | newline (after : List Char) : BreaksOff o ('\n' :: after)
  | endedEscape (ho : o.escapes) : BreaksOff o ['\\']
  | newlineEscape (ho : o.escapes) (after : List Char) : BreaksOff o ('\\' :: '\n' :: after)

/-! ## Every text falls into units -/

theorem exists_munch (p : Char → Bool) : ∀ (n : Nat) (text : List Char),
    ∃ digits after, text = digits ++ after ∧ Munch p n digits after
  | 0, text => ⟨[], text, rfl, ⟨by simp, Nat.le_refl _, fun h => absurd h (Nat.lt_irrefl _)⟩⟩
  | n + 1, [] => ⟨[], [], rfl, ⟨by simp, Nat.zero_le _, by simp⟩⟩
  | n + 1, c :: text => by
    by_cases hc : p c
    · obtain ⟨digits, after, rfl, hall, hle, hmax⟩ := exists_munch p n text
      refine ⟨c :: digits, after, rfl, ⟨?_, Nat.succ_le_succ hle, ?_⟩⟩
      · simpa [hc] using hall
      · intro hlt
        exact hmax (Nat.lt_of_succ_lt_succ hlt)
    · exact ⟨[], c :: text, rfl, ⟨by simp, Nat.zero_le _, by simpa using hc⟩⟩

theorem Munch.takeWhile_take {p : Char → Bool} {n : Nat} {digits after : List Char}
    (h : Munch p n digits after) : ((digits ++ after).take n).takeWhile p = digits := by
  rw [List.take_append, List.take_of_length_le h.length_le, List.takeWhile_append_of_pos h.all]
  rcases Nat.eq_or_lt_of_le h.length_le with hn | hlt
  · simp [hn]
  · obtain ⟨k, hk⟩ : ∃ k, n - digits.length = k + 1 := ⟨n - digits.length - 1, by omega⟩
    rcases after with _ | ⟨c, cs⟩
    · simp
    · have hc : ¬p c := h.maximal hlt c rfl
      simp [hk, hc]

theorem exists_char {n : Nat} (h : n < 256) : ∃ ch : Char, ch.toNat = n := by
  have hvalid : n.isValidChar := .inl (by omega)
  refine ⟨Char.ofNat n, ?_⟩
  unfold Char.ofNat
  rw [dif_pos hvalid]
  rfl

/-- Three octal digits denote a code of eight bits if the first is at most 3. -/
theorem denoted_octal_lt {d : Char} {digits after : List Char} (hd : isOctalDigit d)
    (h : Munch isOctalDigit (if digitValue d ≤ 3 then 2 else 1) digits after) :
    denoted 8 (d :: digits) < 256 := by
  have hlt : denoted 8 digits < 8 ^ digits.length :=
    denoted_lt (by omega) fun x hx => digitValue_lt_of_isOctalDigit (h.all x hx)
  have hd := digitValue_lt_of_isOctalDigit hd
  have hle := h.length_le
  rw [denoted_cons]
  split at hle
  · have hpow : 8 ^ digits.length ≤ 8 ^ 2 := Nat.pow_le_pow_right (by omega) hle
    have := Nat.mul_le_mul_right (8 ^ digits.length) ‹digitValue d ≤ 3›
    omega
  · have hpow : 8 ^ digits.length ≤ 8 ^ 1 := Nat.pow_le_pow_right (by omega) hle
    have := Nat.mul_le_mul_right (8 ^ digits.length) (Nat.le_of_lt_succ hd)
    omega

theorem denoted_hexadecimal_lt {digits after : List Char} (h : Munch isHexDigit 2 digits after) :
    denoted 16 digits < 256 :=
  calc denoted 16 digits < 16 ^ digits.length := denoted_lt (by omega) fun d _ => digitValue_lt d
    _ ≤ 16 ^ 2 := Nat.pow_le_pow_right (by omega) h.length_le

theorem exists_escape {c : Char} (hc : c ≠ '\n') (text : List Char) :
    ∃ front ch unknown after, c :: text = front ++ after ∧ Escape front ch unknown after := by
  by_cases hcontrol : ∃ control, (c, control) ∈ controls
  · obtain ⟨control, h⟩ := hcontrol
    exact ⟨[c], control, false, text, rfl, .control h⟩
  by_cases hself : c ∈ ['\'', '"', '\\']
  · exact ⟨[c], c, false, text, rfl, .itself hself⟩
  by_cases hoctal : isOctalDigit c
  · obtain ⟨digits, after, rfl, h⟩ := exists_munch isOctalDigit _ text
    obtain ⟨ch, hch⟩ := exists_char (denoted_octal_lt hoctal h)
    exact ⟨c :: digits, ch, false, after, rfl, .octal hoctal h hch⟩
  by_cases hx : c ∈ ['x', 'X']
  · obtain ⟨digits, after, rfl, h⟩ := exists_munch isHexDigit 2 text
    obtain ⟨ch, hch⟩ := exists_char (denoted_hexadecimal_lt h)
    exact ⟨c :: digits, ch, false, after, rfl, .hexadecimal hx h hch⟩
  · refine ⟨[c], c, true, text, rfl, .unknown ?_ hc⟩
    rintro (h | h | h | h)
    · exact hcontrol h
    · exact hself h
    · exact hoctal h
    · exact hx h

theorem exists_unit (o : Options) (quote : Char) (text : List Char) :
    (∃ u rest, text = u.text ++ rest ∧ u.text ≠ [] ∧ IsUnit o quote u rest) ∨
      Closes quote text ∨ BreaksOff o text := by
  rcases text with _ | ⟨c, cs⟩
  · exact .inr (.inr .ended)
  by_cases hquote : c = quote
  · subst hquote
    by_cases hdouble : cs.head? = some c
    · obtain ⟨rest, rfl⟩ := List.head?_eq_some_iff.1 hdouble
      exact .inl ⟨⟨[c, c], c, false⟩, rest, rfl, by simp, .doubled⟩
    · exact .inr (.inl ⟨cs, rfl, hdouble⟩)
  by_cases hnewline : c = '\n'
  · subst hnewline
    exact .inr (.inr (.newline cs))
  by_cases hescape : c = '\\' ∧ o.escapes
  · obtain ⟨rfl, ho⟩ := hescape
    rcases cs with _ | ⟨d, ds⟩
    · exact .inr (.inr (.endedEscape ho))
    by_cases hd : d = '\n'
    · subst hd
      exact .inr (.inr (.newlineEscape ho ds))
    · obtain ⟨front, ch, unknown, after, h, hesc⟩ := exists_escape hd ds
      exact .inl ⟨⟨'\\' :: front, ch, unknown⟩, after, by rw [h]; rfl, by simp, .escape ho hesc⟩
  · exact .inl ⟨⟨[c], c, false⟩, cs, rfl, by simp, .plain hquote hnewline hescape⟩

theorem exists_units (o : Options) (quote : Char) (text : List Char) :
    ∃ us after, Units o quote text us after ∧ (Closes quote after ∨ BreaksOff o after) := by
  rcases exists_unit o quote text with ⟨u, rest, rfl, hne, hu⟩ | hend
  · have hlt : rest.length < (u.text ++ rest).length := by
      have := List.length_pos_iff.2 hne
      rw [List.length_append]
      omega
    obtain ⟨us, after, hus, hend⟩ := exists_units o quote rest
    exact ⟨u :: us, after, .more hu hus, hend⟩
  · exact ⟨[], text, .done text, hend⟩
termination_by text.length

end LiteralText

end FortranTokens
