import FortranTokens.Parser.Chars
import FortranTokens.Parser.Progress

/-!
# Quoted character literals

A quoted literal is a text between two quotes, single or double.  A quote inside it is written
twice.  Where the mode allows escapes, a backslash introduces one:

* a letter among `a b f n r t v` for a control character;
* a quote of either form, or a backslash, for itself;
* up to three octal digits, or up to two if the first is above 3, for the character of that value;
* `x` or `X` and up to two hexadecimal digits, for the character of that value.

After any other character the escape is reported, and stands for that character.  A newline never
lies in a literal: it leaves the literal unclosed.
-/

namespace FortranTokens

/-- One character of a quoted literal, and whether an escape stood for it.  An escaped quote never
closes the literal. -/
structure LiteralChar where
  ch : Char
  escaped : Bool
  deriving DecidableEq, Repr

namespace LiteralChar

/-- The control character that a letter stands for after a backslash. -/
def control? : Char → Option Char
  | 'a' => some '\x07'
  | 'b' => some '\x08'
  | 'f' => some '\x0c'
  | 'n' => some '\n'
  | 'r' => some '\r'
  | 't' => some '\t'
  | 'v' => some '\x0b'
  | _ => none

/-- The number that digits denote in a base, the first digit counting most. -/
def number (base : Nat) (digits : List Char) : Nat :=
  digits.foldl (fun n c => n * base + CharClass.digitValue c) 0

/-- The character of a code, or the replacement character if no character has that code. -/
def ofCode (n : Nat) : Char := if n.isValidChar then Char.ofNat n else '\uFFFD'

end LiteralChar

namespace Parser

/-- The rest of an escape that begins with an octal digit: two more digits, or one if the first
digit is above 3, or as many as there are. -/
def octalEscape (first : Char) : Parser Char := do
  let more ← manyUpTo (if 3 < CharClass.digitValue first then 1 else 2) octalDigit
  return LiteralChar.ofCode (LiteralChar.number 8 (first :: more))

/-- The digits of a hexadecimal escape; without any it stands for the character of code zero. -/
def hexEscape : Parser Char := do
  let digits ← manyUpTo 2 hexDigit
  return LiteralChar.ofCode (LiteralChar.number 16 digits)

/-- What follows a backslash at the offset `start`. -/
def escape (start : Nat) : Parser Char := do
  let c ← next
  match LiteralChar.control? c with
  | some control => return control
  | none =>
    if c = '"' ∨ c = '\'' ∨ c = '\\' then return c
    else if c = '\n' then failAt start .unclosedCharConstant
    else if CharClass.isOctalDigit c then octalEscape c
    else if c = 'x' ∨ c = 'X' then hexEscape
    else do
      say start .badEscapedChar
      return c

/-- One character of a quoted literal, with its escape decoded. -/
def literalChar : Parser LiteralChar := do
  let start ← location
  let c ← next
  if c = '\n' then failAt start .unclosedCharConstant
  else if c = '\\' ∧ (← options).escapes then
    return { ch := ← escape start, escaped := true }
  else return { ch := c, escaped := false }

/-! ### An escape and a literal character move on -/

theorem keepsGround_octalEscape (c : Char) : KeepsGround (octalEscape c) :=
  (keepsGround_octalDigit.manyUpTo _).bind fun _ => keepsGround_pure _

theorem keepsGround_hexEscape : KeepsGround hexEscape :=
  (keepsGround_hexDigit.manyUpTo _).bind fun _ => keepsGround_pure _

theorem keepsGround_escape (start : Nat) : KeepsGround (escape start) :=
  keepsGround_next.bind fun c => by
    split
    · exact keepsGround_pure _
    · exact (keepsGround_pure _).ite <| (keepsGround_failAt _ _).ite <|
        (keepsGround_octalEscape _).ite <| keepsGround_hexEscape.ite <|
        (keepsGround_say _ _).bind fun _ => keepsGround_pure _

theorem movesOn_literalChar : MovesOn literalChar :=
  keepsGround_location.bind_movesOn fun start => movesOn_next.bind fun _ =>
    (keepsGround_failAt _ _).ite <| keepsGround_options.bind fun _ =>
      KeepsGround.ite ((keepsGround_escape start).bind fun _ => keepsGround_pure _)
        (keepsGround_pure _)

/-! ### The body of a literal -/

/-- The rest of a literal up to and with its closing quote, after the characters `read` of it, the
latest first.  The first character after the opening quote is at the offset `start`. -/
def closing (quote : Char) (start : Nat) (read : List Char) (s : State) :
    Reply String × State :=
  match _h : attempt literalChar s with
  | (.present c, t) =>
    if c.ch = quote ∧ ¬c.escaped then
      match _hq : optional (char quote) t with
      | (.present (some _), u) => closing quote start (c.ch :: read) u
      | (.present none, u) => (.present (String.ofList read.reverse), u)
      | (.absent, u) => (.absent, u)
      | (.fault e, u) => (.fault e, u)
    else closing quote start (c.ch :: read) t
  | (.absent, t) => (.absent, t.say start .unclosedCharConstant)
  | (.fault e, t) => (.fault e, t)
termination_by UInt32.size - s.location
decreasing_by
  · have hlt := movesOn_literalChar s c t (eq_of_attempt_present _h)
    have hle := (keepsGround_char quote).optional t
    have := u.location_lt
    rw [_hq] at hle
    dsimp only at hle
    omega
  · have hlt := movesOn_literalChar s c t (eq_of_attempt_present _h)
    have := t.location_lt
    omega

theorem closing_apply (quote : Char) (start : Nat) (read : List Char) (s : State) :
    closing quote start read s =
      match attempt literalChar s with
      | (.present c, t) =>
        if c.ch = quote ∧ ¬c.escaped then
          match optional (char quote) t with
          | (.present (some _), u) => closing quote start (c.ch :: read) u
          | (.present none, u) => (.present (String.ofList read.reverse), u)
          | (.absent, u) => (.absent, u)
          | (.fault e, u) => (.fault e, u)
        else closing quote start (c.ch :: read) t
      | (.absent, t) => (.absent, t.say start .unclosedCharConstant)
      | (.fault e, t) => (.fault e, t) := by
  rw [closing]
  split
  · rename_i c t h
    rw [h]
    by_cases hc : c.ch = quote ∧ ¬c.escaped
    · simp only [if_pos hc]
      split <;> simp_all only
    · simp only [if_neg hc]
  · rename_i h
    rw [h]
  · rename_i h
    rw [h]

/-- The rest of a literal whose opening quote has been read. -/
def literalBody (quote : Char) : Parser String := do
  closing quote (← location) []

/-- A quoted literal, with the blanks before it. -/
def quotedLiteral : Parser String := do
  skipBlanks
  match ← peek? with
  | some quote =>
    if quote = '\'' ∨ quote = '"' then do
      let _ ← next?
      literalBody quote
    else absent
  | none => absent

end Parser

end FortranTokens
