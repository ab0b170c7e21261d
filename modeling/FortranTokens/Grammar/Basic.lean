import FortranTokens.Keyword
import FortranTokens.Literal.Boz
import FortranTokens.Literal.Hollerith
import FortranTokens.Literal.Quoted

/-!
# Grammars

A grammar is a description of a parser: which steps it is made of and how they are combined.  Its
meaning is `Grammar.run`.  What is true of every parser built from the steps and combinators of
this library is true of `run g` for every grammar `g`, and is shown by induction on `g`.
-/

namespace FortranTokens

/-- Descriptions of parsers for values of a type. -/
inductive Grammar : Type → Type 1 where
  /-- One character that satisfies a predicate; anything else is reported as the given kind. -/
  | satisfy (p : Char → Bool) (kind : Kind) : Grammar Char
  /-- One given character. -/
  | char (c : Char) : Grammar Char
  /-- One space or tab. -/
  | space : Grammar Unit
  /-- Any number of spaces and tabs. -/
  | blanks : Grammar Unit
  /-- A keyword or punctuation, with the blanks around it. -/
  | keyword (text : String) : Grammar Unit
  /-- A binary, octal or hexadecimal constant. -/
  | boz : Grammar UInt64
  /-- A quoted literal. -/
  | quotedLiteral : Grammar String
  /-- The rest of a quoted literal after its opening quote. -/
  | literalBody (quote : Char) : Grammar String
  /-- One character of a quoted literal. -/
  | literalChar : Grammar LiteralChar
  /-- A run of decimal digits. -/
  | digitString : Grammar DigitString
  /-- A Hollerith constant. -/
  | hollerith : Grammar String
  /-- Any character. -/
  | anyChar : Grammar Char
  /-- The end of the source. -/
  | endOfInput : Grammar Unit
  /-- Everything up to and with the next occurrence of an ASCII byte. -/
  | skipPast (goal : UInt8) : Grammar Unit
  /-- A fixed value; reads nothing. -/
  | value {α : Type} (a : α) : Grammar α
  /-- One after the other; the value is the second one's. -/
  | seqRight {α β : Type} (g : Grammar α) (h : Grammar β) : Grammar β
  /-- One after the other; the value is the first one's. -/
  | seqLeft {α β : Type} (g : Grammar α) (h : Grammar β) : Grammar α
  /-- One after the other; both values are kept. -/
  | pair {α β : Type} (g : Grammar α) (h : Grammar β) : Grammar (α × β)
  /-- The first one, or else the second one. -/
  | orElse {α : Type} (g h : Grammar α) : Grammar α
  /-- A function of the value. -/
  | map {α β : Type} (f : α → β) (g : Grammar α) : Grammar β
  /-- Undone when absent. -/
  | attempt {α : Type} (g : Grammar α) : Grammar α
  /-- May be missing. -/
  | optional {α : Type} (g : Grammar α) : Grammar (Option α)
  /-- As often as present. -/
  | many {α : Type} (g : Grammar α) : Grammar (List α)
  /-- As often as present, once at least. -/
  | many1 {α : Type} (g : Grammar α) : Grammar (List α)
  /-- As often as present, with the values dropped. -/
  | skipMany {α : Type} (g : Grammar α) : Grammar Unit
  /-- Present here, but not read. -/
  | lookahead {α : Type} (g : Grammar α) : Grammar Unit
  /-- Absent here, and not read. -/
  | notFollowedBy {α : Type} (g : Grammar α) : Grammar Unit
  /-- Once at least, with separators between. -/
  | sepBy1 {α β : Type} (g : Grammar α) (sep : Grammar β) : Grammar (List α)
  /-- Reports a message at the next character; reads nothing. -/
  | report (kind : Kind) : Grammar Unit
  /-- Reads `n` characters and reports a message at the place reached; always absent. -/
  | consumeThenFail {α : Type} (n : Nat) (kind : Kind) : Grammar α

namespace Grammar

/-- The parser that a grammar describes. -/
def run : {α : Type} → Grammar α → Parser α
  | _, satisfy p kind => Parser.satisfy p kind
  | _, char c => Parser.char c
  | _, space => Parser.space
  | _, blanks => Parser.skipBlanks
  | _, keyword text => Parser.keyword text
  | _, boz => Parser.boz
  | _, quotedLiteral => Parser.quotedLiteral
  | _, literalBody quote => Parser.literalBody quote
  | _, literalChar => Parser.literalChar
  | _, digitString => Parser.digitString
  | _, hollerith => Parser.hollerith
  | _, anyChar => Parser.anyChar
  | _, endOfInput => Parser.endOfInput
  | _, skipPast goal => Parser.skipPast goal
  | _, value a => pure a
  | _, seqRight g h => do
    let _ ← g.run
    h.run
  | _, seqLeft g h => do
    let a ← g.run
    let _ ← h.run
    return a
  | _, pair g h => do
    let a ← g.run
    let b ← h.run
    return (a, b)
  | _, orElse g h => Parser.orElse g.run h.run
  | _, map f g => f <$> g.run
  | _, attempt g => Parser.attempt g.run
  | _, optional g => Parser.optional g.run
  | _, many g => Parser.many g.run
  | _, many1 g => Parser.many1 g.run
  | _, skipMany g => Parser.skipMany g.run
  | _, lookahead g => Parser.lookahead g.run
  | _, notFollowedBy g => Parser.notFollowedBy g.run
  | _, sepBy1 g sep => Parser.sepBy1 g.run sep.run
  | _, report kind => Parser.report kind
  | _, consumeThenFail n kind => Parser.consumeThenFail n kind

/-! ### Single characters -/

/-- A decimal digit. -/
def digit : Grammar Char := satisfy CharClass.isDecimalDigit .expectedDigit

/-- An octal digit. -/
def octalDigit : Grammar Char := satisfy CharClass.isOctalDigit .expectedOctalDigit

/-- A hexadecimal digit. -/
def hexDigit : Grammar Char := satisfy CharClass.isHexDigit .expectedHexDigit

/-- A letter; the value is its lower-case form. -/
def letter : Grammar Char := map CharClass.toLower (satisfy CharClass.isLetter .expectedLetter)

end Grammar

end FortranTokens
