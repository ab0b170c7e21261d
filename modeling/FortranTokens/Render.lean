import FortranTokens.CharClass
import FortranTokens.Options

/-!
# Writing literals

The canonical text of a literal's value: the text from which the parser of that literal, in the
same mode, reads the value back.
-/

namespace FortranTokens.Render

/-- The letter that stands for a control character after a backslash. -/
def controlLetter? : Char → Option Char
  | '\x07' => some 'a'
  | '\x08' => some 'b'
  | '\x0c' => some 'f'
  | '\n' => some 'n'
  | '\r' => some 'r'
  | '\t' => some 't'
  | '\x0b' => some 'v'
  | _ => none

/-- The control characters of ASCII. -/
def isControl (c : Char) : Bool := c < ' ' || c == '\x7f'

/-- The three octal digits of a number below 512. -/
def octalDigits (n : Nat) : List Char :=
  [Nat.digitChar (n / 64 % 8), Nat.digitChar (n / 8 % 8), Nat.digitChar (n % 8)]

/-- A character as it stands in a literal between the given quotes.  A quote is written twice.  In
the mode with escapes, a backslash is written twice too, and a control character as a backslash
with its letter, or with its code if it has none. -/
def quotedChar (quote : Char) (o : Options) (c : Char) : List Char :=
  if c = quote then [quote, quote]
  else if ¬o.escapes then [c]
  else if c = '\\' then ['\\', '\\']
  else
    match controlLetter? c with
    | some letter => ['\\', letter]
    | none => if isControl c then '\\' :: octalDigits c.toNat else [c]

/-- A text as a quoted literal.  In the mode without escapes a newline stays as it is, and such a
literal is not read back. -/
def quoted (text : String) (quote : Char) (o : Options) : String :=
  String.ofList (quote :: text.toList.flatMap (quotedChar quote o) ++ [quote])

/-- A value as a hexadecimal constant, with the base letter in front and capital digits. -/
def bozHex (value : UInt64) : String :=
  "Z'" ++ String.ofList ((Nat.toDigits 16 value.toNat).map Char.toUpper) ++ "'"

/-- A text as a Hollerith constant; the count is that of its characters. -/
def hollerith (text : String) : String :=
  toString text.toList.length ++ "H" ++ text

/-- A value as decimal digits. -/
def digitString (value : UInt64) : String := toString value.toNat

end FortranTokens.Render
