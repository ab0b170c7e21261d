import FortranTokens.Proofs.BozValue
import FortranTokens.Proofs.Reading

/-!
# Texts of binary, octal and hexadecimal constants

`Boz.Form` lists the texts of such constants, with the base letter in front or behind.  A text opens
a constant with a base letter and a quote, or with the whole of the form that has its letter behind
(`Boz.Opens`).  Then it either begins with a constant that has a value or is spoilt
(`Opens.spoilt_or_form`): another character or the end of the text comes before the closing quote,
or the digits have no value (`Boz.Spoilt`).
-/

namespace FortranTokens.Boz

open CharClass

variable {o : Options} {base : Base} {digits : List Char} {c : Char}

/-! ## Forms -/

/-- The letters that stand for a base. -/
def Base.letters : Base → List Char
  | .binary => ['B', 'b']
  | .octal => ['O', 'o']
  | .hexadecimal => ['Z', 'z', 'X', 'x']

/-- `Form o text base digits` says that in the mode `o` the text is a constant of that base, with
these hexadecimal digits between its quotes. -/
inductive Form (o : Options) : List Char → Base → List Char → Prop where
  /-- The base letter in front; strict conformance leaves out the letter X. -/
  | letterFirst {letter quote : Char} {base : Base} {digits : List Char}
      (hletter : letter ∈ base.letters) (hx : letter ∈ ['X', 'x'] → o.strict = false)
      (hquote : quote ∈ quotes) (hdigits : ∀ d ∈ digits, isHexDigit d) :
      Form o (letter :: quote :: (digits ++ [quote])) base digits
  /-- The base letter behind, which strict conformance leaves out altogether. -/
  | letterLast {letter quote : Char} {base : Base} {digits : List Char}
      (hstrict : o.strict = false) (hletter : letter ∈ base.letters)
      (hquote : quote ∈ quotes) (hdigits : ∀ d ∈ digits, isHexDigit d) :
      Form o (quote :: (digits ++ [quote, letter])) base digits

/-- The letter may stand in front of a constant of this base. -/
def Leads (o : Options) (base : Base) (letter : Char) : Prop :=
  letter ∈ base.letters ∧ (letter ∈ ['X', 'x'] → o.strict = false)

/-! ### Letters and quotes -/

theorem utf8Size_of_mem_letters (h : c ∈ base.letters) : c.utf8Size = 1 := by
  cases base <;> simp only [Base.letters, List.mem_cons, List.not_mem_nil, or_false] at h
  · rcases h with rfl | rfl <;> rfl
  · rcases h with rfl | rfl <;> rfl
  · rcases h with rfl | rfl | rfl | rfl <;> rfl

theorem not_isHexDigit_of_mem_quotes (h : c ∈ quotes) : ¬isHexDigit c := by
  rcases mem_quotes_iff.1 h with rfl | rfl <;> decide

theorem ofLetter?_eq_some_iff : Base.ofLetter? c = some base ↔ c ∈ base.letters := by
  constructor
  · intro h
    unfold Base.ofLetter? at h
    split at h <;> cases h
    case _ hc =>
      rcases toLower_eq 'B' rfl hc with rfl | rfl <;> decide
    case _ hc =>
      rcases toLower_eq 'O' rfl hc with rfl | rfl <;> decide
    case _ hc =>
      rcases toLower_eq 'Z' rfl hc with rfl | rfl <;> decide
    case _ hc =>
      rcases toLower_eq 'X' rfl hc with rfl | rfl <;> decide
  · intro h
    cases base <;> simp only [Base.letters, List.mem_cons, List.not_mem_nil, or_false] at h
    · rcases h with rfl | rfl <;> rfl
    · rcases h with rfl | rfl <;> rfl
    · rcases h with rfl | rfl | rfl | rfl <;> rfl

theorem ofLetter?_of_mem_quotes (h : c ∈ quotes) : Base.ofLetter? c = none := by
  rcases mem_quotes_iff.1 h with rfl | rfl <;> rfl

/-! ## Texts that open a constant -/

/-- `Opens o text n` says that in the mode `o` the text is known to be meant as a constant, the
digits of which begin after `n` characters. -/
inductive Opens (o : Options) : List Char → Nat → Prop where
  /-- A base letter and a quote. -/
  | letterFirst {letter quote : Char} {more : List Char} {base : Base}
      (hletter : Leads o base letter) (hquote : quote ∈ quotes) :
      Opens o (letter :: quote :: more) 2
  /-- Any number of digits between quotes and a base letter behind them, but not in strict
  conformance. -/
  | letterLast {letter quote : Char} {digits more : List Char} {base : Base}
      (hstrict : o.strict = false) (hletter : letter ∈ base.letters) (hquote : quote ∈ quotes)
      (hdigits : ∀ d ∈ digits, isHexDigit d) :
      Opens o (quote :: (digits ++ quote :: letter :: more)) 1

/-- `Broken base quote text kind` says what is wrong with the text that follows a base letter and an
opening quote. -/
inductive Broken (base : Base) (quote : Char) : List Char → Kind → Prop where
  /-- Another character stands where a digit or the closing quote should. -/
  | wrongCharacter {digits more : List Char} {c : Char} (hdigits : ∀ d ∈ digits, isHexDigit d)
      (hc : ¬isHexDigit c) (hquote : c ≠ quote) :
      Broken base quote (digits ++ c :: more) .badBozDigit
  /-- The text ends before the closing quote. -/
  | unclosed {digits : List Char} (hdigits : ∀ d ∈ digits, isHexDigit d) :
      Broken base quote digits .unclosedBozLiteral
  /-- The digits have no value. -/
  | closed {digits more : List Char} {kind : Kind} (hdigits : ∀ d ∈ digits, isHexDigit d)
      (h : Flaw base digits kind) : Broken base quote (digits ++ quote :: more) kind

/-- `Spoilt o text n kind` says that in the mode `o` the text opens a constant, the digits of which
begin after `n` characters, and what is wrong with it. -/
inductive Spoilt (o : Options) : List Char → Nat → Kind → Prop where
  /-- The base letter in front. -/
  | letterFirst {letter quote : Char} {inside : List Char} {base : Base} {kind : Kind}
      (hletter : Leads o base letter) (hquote : quote ∈ quotes)
      (h : Broken base quote inside kind) : Spoilt o (letter :: quote :: inside) 2 kind
  /-- The base letter behind. -/
  | letterLast {letter quote : Char} {digits more : List Char} {base : Base} {kind : Kind}
      (hstrict : o.strict = false) (hletter : letter ∈ base.letters) (hquote : quote ∈ quotes)
      (hdigits : ∀ d ∈ digits, isHexDigit d) (h : Flaw base digits kind) :
      Spoilt o (quote :: (digits ++ quote :: letter :: more)) 1 kind

/-- A text is broken off after its hexadecimal digits, unless a quote closes it and they have a
value. -/
theorem exists_broken_or_value (base : Base) (quote : Char) (inside : List Char) :
    (∃ kind, Broken base quote inside kind) ∨
      ∃ digits more v, inside = digits ++ quote :: more ∧ (∀ d ∈ digits, isHexDigit d) ∧
        HasValue base digits v := by
  obtain ⟨digits, hdigits, rfl | ⟨c, more, rfl, hc⟩⟩ := Parser.exists_stretch isHexDigit inside
  · exact .inl ⟨_, .unclosed hdigits⟩
  · by_cases hquote : c = quote
    · subst hquote
      rcases exists_flaw_or_value base digits with ⟨kind, hflaw⟩ | ⟨v, hv⟩
      · exact .inl ⟨kind, .closed hdigits hflaw⟩
      · exact .inr ⟨digits, more, v, rfl, hdigits, hv⟩
    · exact .inl ⟨_, .wrongCharacter hdigits hc hquote⟩

theorem Opens.spoilt_or_form {text : List Char} {n : Nat} (h : Opens o text n) :
    (∃ kind, Spoilt o text n kind) ∨
      ∃ front base digits after v, text = front ++ after ∧ Form o front base digits ∧
        HasValue base digits v := by
  cases h with
  | @letterFirst letter quote more base hletter hquote =>
    rcases exists_broken_or_value base quote more with
      ⟨kind, h⟩ | ⟨digits, after, v, rfl, hdigits, hv⟩
    · exact .inl ⟨kind, .letterFirst hletter hquote h⟩
    · exact .inr ⟨_, base, digits, after, v, by simp,
        .letterFirst hletter.1 hletter.2 hquote hdigits, hv⟩
  | @letterLast letter quote digits more base hstrict hletter hquote hdigits =>
    rcases exists_flaw_or_value base digits with ⟨kind, hflaw⟩ | ⟨v, hv⟩
    · exact .inl ⟨kind, .letterLast hstrict hletter hquote hdigits hflaw⟩
    · exact .inr ⟨_, base, digits, more, v, by simp,
        .letterLast hstrict hletter hquote hdigits, hv⟩

end FortranTokens.Boz
